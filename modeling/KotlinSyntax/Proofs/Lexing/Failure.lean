import KotlinSyntax.Proofs.Spans

/-! What stops the lexer. Numbers never do, and neither does a character of a string: whatever is no mark, no escape
and no template is text. So a string is unterminated only where the source ends, or where a line ends in a plain
string. -/
namespace KotlinSyntax

namespace Lexer

open Text

/-- All that may be wrong in front of a character. -/
inductive Refuses : List Mode → Char → LexCause → Prop
  | comment (modes : List Mode) : Refuses modes '/' .unterminatedComment
  | character (modes : List Mode) : Refuses modes '\x27' .malformedCharacter
  | unexpected (modes : List Mode) (c : Char) : Refuses modes c (.unexpected c)
  | escape (outer : List Mode) : Refuses (.quoted false :: outer) '\\' .illegalEscape
  | lineEnd (outer : List Mode) (c : Char) (ends : c = '\n' ∨ c = '\r') :
      Refuses (.quoted false :: outer) c .unterminatedString

variable {modes outer : List Mode} {c : Char} {cs : List Char} {cause : LexCause}

/-- A digit always begins a number. -/
theorem number?_of_digit (cs : List Char) (digit : c.isDigit = true) : ∃ found, number? c cs = some found := by
  unfold number?
  simp only [digit, if_true]
  split
  · exact ⟨_, rfl⟩
  · split <;> exact ⟨_, rfl⟩

theorem plainCode_refuses (h : plainCode modes c cs = .error cause) : Refuses modes c cause := by
  unfold plainCode at h
  split at h
  · cases h
  · split at h
    · rename_i digit
      obtain ⟨found, number⟩ := number?_of_digit cs digit
      rw [number] at h
      cases h
    · split at h <;> cases h
      exact .unexpected modes c

theorem slash_refuses (h : slash modes cs = .error cause) : Refuses modes '/' cause := by
  unfold slash at h
  split at h
  · cases h
  · split at h <;> cases h
    exact .comment modes
  · split at h <;> cases h
    exact .unexpected modes '/'

theorem code_refuses (h : code modes c cs = .error cause) : Refuses modes c cause := by
  unfold code at h
  split at h
  · cases h
  · split at h
    · exact slash_refuses h
    · cases h
    · split at h <;> cases h
      exact .character modes
    · split at h <;> cases h
      exact .unexpected modes _
    · split at h
      · cases h
      · exact plainCode_refuses h
    · cases h
    · cases h
    · cases h
    · exact plainCode_refuses h

/-- What is none of what the mode reads before text is text or begins a template. -/
theorem stringPart_reads {raw : Bool} (quote : c = '"' → raw = true ∧ quoteIsText cs = true)
    (plain : raw = false → c ≠ '\\' ∧ c ≠ '\r' ∧ c ≠ '\n') : ∃ s, stringPart raw modes c cs = .ok s := by
  by_cases text : isStringText raw c cs = true
  · exact ⟨_, stringPart_of_isText text⟩
  · have template : (c == '$' && startsTemplate cs) = true := by
      unfold isStringText at text
      split at text
      · rename_i dollar
        simpa [dollar] using text
      · split at text
        · rename_i mark
          simp [quote (by simpa using mark)] at text
        · cases raw with
          | true => exact absurd rfl text
          | false =>
            have free := plain rfl
            simp [free] at text
    unfold stringPart
    rw [if_pos template]
    split <;> exact ⟨_, rfl⟩

theorem rawString_reads : ∃ s, rawString modes outer c cs = .ok s := by
  unfold rawString
  split
  · exact ⟨_, rfl⟩
  · rename_i stays
    refine stringPart_reads (fun quote => ⟨rfl, (rawClose?_eq_none cs).mp ?_⟩) (by simp)
    simpa [quote] using stays

theorem plainString_refuses (h : plainString (.quoted false :: outer) outer c cs = .error cause) :
    Refuses (.quoted false :: outer) c cause := by
  unfold plainString at h
  split at h
  · cases h
  · rename_i noQuote
    split at h
    · rename_i escape
      obtain rfl : c = '\\' := by simpa using escape
      split at h <;> cases h
      exact .escape outer
    · rename_i noEscape
      split at h
      · rename_i ends
        cases h
        exact .lineEnd outer c (by simpa using ends)
      · rename_i inside
        obtain ⟨s, read⟩ : ∃ s, stringPart false (.quoted false :: outer) c cs = .ok s := by
          refine stringPart_reads (fun quote => absurd quote (by simpa using noQuote)) fun _ => ?_
          simp_all
        rw [read] at h
        cases h

/-- All that can be wrong, whatever is open. -/
theorem step_refuses (h : step modes c cs = .error cause) : Refuses modes c cause := by
  unfold step at h
  split at h
  · rename_i outer
    obtain ⟨s, read⟩ : ∃ s, rawString (.quoted true :: outer) outer c cs = .ok s := rawString_reads
    rw [read] at h
    cases h
  · exact plainString_refuses h
  · cases h
  · exact code_refuses h

/-- What stops the lexer in front of a text: its end while something is open, or what its first character refuses. -/
inductive Halts : List Mode → List Char → LexCause → Prop
  | ended {modes : List Mode} (opened : modes ≠ []) : Halts modes [] .unterminatedString
  | refused {modes : List Mode} {c : Char} {cause : LexCause} (refuses : Refuses modes c cause) (cs : List Char) :
      Halts modes (c :: cs) cause

/-- The lexer stops behind the tokens it has read, in modes whose marks are those that the tokens leave open. -/
theorem scan_halts (modes : List Mode) (offset : Nat) (cs : List Char) (settled : Settled modes cs) {e : LexError}
    (failed : (scan modes offset cs).failure = some e) :
    ∃ taken rest last, cs = taken ++ rest ∧ e.offset = offset + width taken ∧ Settled last rest ∧
      Token.nestAll (marks modes) (scan modes offset cs).tokens = some (marks last) ∧ Halts last rest e.cause := by
  induction modes, offset, cs using scan.induct with
  | case1 modes offset =>
    rw [scan] at failed ⊢
    simp only at failed
    split at failed
    · cases failed
    · rename_i opened
      cases failed
      exact ⟨[], [], modes, rfl, rfl, settled, rfl, .ended (by simpa using opened)⟩
  | case2 modes offset c cs cause refused =>
    rw [scan, refused] at failed ⊢
    cases failed
    exact ⟨[], c :: cs, modes, rfl, rfl, settled, rfl, .refused (step_refuses refused) cs⟩
  | case3 modes offset c cs s read text stop ih =>
    have move := step_moves read
    have whole : c :: s.cut.taken ++ s.cut.rest = c :: cs := by rw [List.cons_append, s.cut.whole]
    rw [← whole] at settled
    rw [scan, read] at failed ⊢
    obtain ⟨taken, rest, last, split, at_, ahead, nests, halts⟩ := ih (move.settled settled) failed
    refine ⟨text ++ taken, rest, last, ?_, ?_, ahead, ?_, halts⟩
    · rw [List.append_assoc, ← split, whole]
    · rw [at_, width_append, Nat.add_assoc]
    · rw [Token.nestAll, move.nest offset stop]
      exact nests

/-- Something is open wherever the modes say so at the end of a text. -/
theorem marks_ne_nil (settled : Settled modes []) (opened : modes ≠ []) : marks modes ≠ [] := by
  rcases settled with nameless | ⟨_, _, _, _, _, more, _⟩
  · cases modes with
    | nil => exact absurd rfl opened
    | cons m outer =>
      cases m with
      | name => exact absurd rfl (nameless .name (List.mem_cons_self ..))
      | quoted raw => simp [marks, Mode.mark?]
      | template n => simp [marks, Mode.mark?]
  · cases more

/-- The first character behind a text is at the width of the text. -/
theorem units_getElem?_width (taken rest : List Char) :
    ((taken ++ rest).flatMap charUnits)[width taken]? = (rest.flatMap charUnits)[0]? := by
  rw [List.flatMap_append, List.getElem?_append_right (by rw [length_flatMap_charUnits]), length_flatMap_charUnits,
    Nat.sub_self]

/-- No other words begin as those for an unexpected character do. -/
theorem unexpected_ne {d : Char} {words : String} (other : ¬ ['u', 'n', 'e'] <+: words.toList) :
    (LexCause.unexpected d).description ≠ words := by
  intro same
  have spelled : "unexpected character '" ++ String.singleton (edge d) ++ "'" = words := same
  have start : ['u', 'n', 'e'] <+: "unexpected character '".toList := by decide
  refine other (start.trans ?_)
  rw [← spelled, String.append_assoc, String.toList_append]
  exact List.prefix_append _ _

theorem cause_of_unterminated (h : cause.description = "unterminated string literal") :
    cause = .unterminatedString ∨ cause = .strayInString := by
  cases cause with
  | unexpected d => exact absurd h (unexpected_ne (by decide))
  | unterminatedString => exact .inl rfl
  | strayInString => exact .inr rfl
  | _ => exact absurd h (by decide)

theorem cause_of_malformed (h : cause.description = "malformed number") : cause = .malformedNumber := by
  cases cause with
  | unexpected d => exact absurd h (unexpected_ne (by decide))
  | malformedNumber => rfl
  | _ => exact absurd h (by decide)

/-- Neither a number nor a character of a string is ever what stops the lexer. A string is unterminated only at the
end of the source, with a string or a template still open, or at a line end that stands directly in a plain string. -/
theorem unterminated_where_open (source : String) (e : LexError) (failed : tokenize source = .error e) :
    e.cause ≠ .malformedNumber ∧ e.cause.description ≠ "malformed number" ∧ e.cause ≠ .strayInString ∧
    (e.cause.description = "unterminated string literal" →
      ∃ opened, Token.nestAll [] (lex source).tokens = some opened ∧
        (e.offset = (units source).length ∧ opened ≠ [] ∨
          (∃ outer, opened = .quote "\"" :: outer) ∧ ((units source)[e.offset]? = some 10 ∨
            (units source)[e.offset]? = some 13))) := by
  have stopped : (lex source).failure = some e := by
    unfold tokenize at failed
    split at failed <;> cases failed
    assumption
  obtain ⟨taken, rest, last, split, at_, settled, nests, halts⟩ :=
    scan_halts [] 0 source.toList (.inl (by simp [Nameless])) stopped
  have number : e.cause ≠ .malformedNumber := by
    rintro cause
    rw [cause] at halts
    cases halts with
    | refused refuses => cases refuses
  have stray : e.cause ≠ .strayInString := by
    rintro cause
    rw [cause] at halts
    cases halts with
    | refused refuses => cases refuses
  refine ⟨number, fun words => number (cause_of_malformed words), stray, fun words => ⟨marks last, nests, ?_⟩⟩
  have cause := (cause_of_unterminated words).resolve_right stray
  have here : (units source)[e.offset]? = (rest.flatMap charUnits)[0]? := by
    rw [units, split, at_, Nat.zero_add, units_getElem?_width]
  rw [cause] at halts
  cases halts with
  | ended opened =>
    refine .inl ⟨?_, marks_ne_nil settled opened⟩
    rw [at_, Nat.zero_add, units, length_flatMap_charUnits, split, List.append_nil]
  | refused refuses cs =>
    cases refuses with
    | lineEnd outer c ends =>
      refine .inr ⟨⟨marks outer, rfl⟩, ?_⟩
      rw [here]
      rcases ends with rfl | rfl
      · exact .inl rfl
      · exact .inr rfl

/-- A line end in a plain string inside a template of a raw string. -/
theorem unterminated_where_open_in_template :
    tokenize "\"\"\"$\x7b\"a\n" = .error ⟨.unterminatedString, 7⟩ ∧
      ∃ opened, Token.nestAll [] (lex "\"\"\"$\x7b\"a\n").tokens = some opened ∧
        (7 = (units "\"\"\"$\x7b\"a\n").length ∧ opened ≠ [] ∨
          (∃ outer, opened = .quote "\"" :: outer) ∧ ((units "\"\"\"$\x7b\"a\n")[7]? = some 10 ∨
            (units "\"\"\"$\x7b\"a\n")[7]? = some 13)) := by
  have failed : tokenize "\"\"\"$\x7b\"a\n" = .error ⟨.unterminatedString, 7⟩ := by decide +kernel
  exact ⟨failed, (unterminated_where_open _ _ failed).2.2.2 rfl⟩

end Lexer

end KotlinSyntax
