import KotlinSyntax.Proofs.Grammar.File
import KotlinSyntax.Source

/-! What stops a source on its way to a raw tree: an error of the lexer, or the faults that the grammar records. A
rejection is always caught, and no rule uses the builder wrongly or runs out of depth. Where nothing stops it, the
tree holds its tokens. -/
namespace KotlinSyntax.Source

theorem raw_of_lex_error {source : String} {e : LexError} (form : Form) (fileName : Option String)
    (h : Lexer.tokenize source = .error e) : (raw form fileName source).result = .error (.lex e) := by
  rw [raw, h]

/-- The faults of a run decide whether its tree counts. -/
theorem raw_of_run {source : String} {tokens : List Token} {form : Form} {root : RawElement} {s : Grammar.State}
    (fileName : Option String) (lexed : Lexer.tokenize source = .ok tokens)
    (ran : Grammar.run (Grammar.source form) tokens = .ok root s) :
    (raw form fileName source).result =
      if s.faults = [] then .ok root else .error (.faults s.faults fileName) := by
  simp only [raw, lexed, ran]
  split
  · rename_i none
    rw [if_pos (List.isEmpty_iff.mp none)]
  · rename_i some
    rw [if_neg fun none => some (List.isEmpty_iff.mpr none)]

/-- The raw tree of a source is what the grammar makes of its tokens without any fault. -/
theorem raw_ok {form : Form} {fileName : Option String} {source : String} {root : RawElement}
    (h : (raw form fileName source).result = .ok root) : ∃ tokens s, Lexer.tokenize source = .ok tokens ∧
      Grammar.run (Grammar.source form) tokens = .ok root s ∧ s.faults = [] := by
  cases lexed : Lexer.tokenize source with
  | error e =>
    rw [raw_of_lex_error form fileName lexed] at h
    cases h
  | ok tokens =>
    obtain ⟨found, s, ran, -⟩ := Grammar.run_source form lexed
    rw [raw_of_run fileName lexed ran] at h
    split at h
    · rename_i none
      cases h
      exact ⟨tokens, s, rfl, ran, none⟩
    · cases h

/-- Its leaves are the tokens of the source. -/
theorem raw_tiles {form : Form} {fileName : Option String} {source : String} {root : RawElement}
    (h : (raw form fileName source).result = .ok root) :
    ∃ tokens, Lexer.tokenize source = .ok tokens ∧ Tiles root.leaves tokens ∧ Sound root := by
  obtain ⟨tokens, s, lexed, ran, -⟩ := raw_ok h
  obtain ⟨found, s', again, tiles, sound⟩ := Grammar.run_source form lexed
  cases ran.symm.trans again
  exact ⟨tokens, lexed, tiles, sound⟩

/-- A source has a raw tree, or the lexer stops at an error, or the grammar records faults, at least one. In the
last two cases nothing else is raised: the rules of the grammar run to their end over all tokens. -/
theorem raw_stops_at_lexer_or_faults (form : Form) (fileName : Option String) (source : String) :
    (∃ e, Lexer.tokenize source = .error e ∧ (raw form fileName source).result = .error (.lex e)) ∨
    ∃ tokens root s, Lexer.tokenize source = .ok tokens ∧
      Grammar.run (Grammar.source form) tokens = .ok root s ∧
      (s.faults = [] ∧ (raw form fileName source).result = .ok root ∨
        s.faults ≠ [] ∧ (raw form fileName source).result = .error (.faults s.faults fileName)) := by
  cases lexed : Lexer.tokenize source with
  | error e => exact .inl ⟨e, rfl, raw_of_lex_error form fileName lexed⟩
  | ok tokens =>
    obtain ⟨root, s, ran, _⟩ := Grammar.run_source form lexed
    refine .inr ⟨tokens, root, s, rfl, ran, ?_⟩
    rw [raw_of_run fileName lexed ran]
    by_cases none : s.faults = []
    · exact .inl ⟨none, by rw [if_pos none]⟩
    · exact .inr ⟨none, by rw [if_neg none]⟩

/-- Behind its raw tree a source is stopped by the conversion or by the placing of its trivia. -/
theorem parse_stopped {form : Form} {o : Options} {source : String} {e : Error}
    (h : (parse form o source).result = .error e) :
    (raw form o.fileName source).result = .error e ∨
    ∃ root, (raw form o.fileName source).result = .ok root ∧
      ((∃ c s, Conversion.convertSource form root {} = .error c s ∧ e = .conversion c) ∨
        ∃ n s p, Conversion.convertSource form root {} = .ok n s ∧
          Placement.collect (Placement.producedBy s.events root.size) root = .error p ∧ e = .placement p) := by
  cases read : (raw form o.fileName source).result with
  | error e' =>
    simp only [parse, read] at h
    cases h
    exact .inl rfl
  | ok root =>
    refine .inr ⟨root, rfl, ?_⟩
    have stopped : (convertFull form root).result = .error e ∨ (convertPlain form root).result = .error e := by
      simp only [parse, read] at h
      split at h
      · split at h
        · rename_i full
          cases h
          exact .inl full
        · cases h
      · exact .inr h
    cases converted : Conversion.convertSource form root {} with
    | error c s =>
      simp only [convertFull, convertPlain, converted, Except.error.injEq, or_self] at stopped
      exact .inl ⟨c, s, rfl, stopped.symm⟩
    | ok n s =>
      simp only [convertFull, convertPlain, converted, reduceCtorEq, or_false] at stopped
      split at stopped
      · rename_i p placed
        cases stopped
        exact .inr ⟨n, s, p, rfl, placed, rfl⟩
      · cases stopped

end KotlinSyntax.Source
