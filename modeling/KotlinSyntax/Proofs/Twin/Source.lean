import KotlinSyntax.Proofs.Refusal
import KotlinSyntax.Proofs.Twin.Expression

/-! Whole sources. Trivia does not interfere with what the grammar reads: of two sources that differ in trivia
only, it makes the same tree but for trivia, and it finds fault with the same parts. -/
namespace KotlinSyntax

open RawElement

/-! A comment, a blank or a semicolon does not begin with a letter. -/

theorem Lexer.not_isTrivia_of_letter {modes : List Lexer.Mode} {cs : List Char} {s : Lexer.Step cs}
    (h : Lexer.step modes 'e' cs = .ok s) : s.kind.isTrivia = false := by
  have word : ∀ cs, (Lexer.wordKind cs).isTrivia = false := by
    intro cs
    rcases Lexer.wordKind_eq cs with kind | kind <;> rw [kind] <;> rfl
  have code : ∀ modes, Lexer.code modes 'e' cs = .ok s → s.kind.isTrivia = false := by
    intro modes h
    have reads : Lexer.code modes 'e' cs = .ok ⟨Lexer.wordKind ('e' :: (Cut.span Text.continuesName cs).taken),
        Cut.span Text.continuesName cs, modes⟩ := rfl
    rw [reads] at h
    cases h
    exact word _
  have text : ∀ raw modes, Lexer.stringPart raw modes 'e' cs = .ok s → s.kind.isTrivia = false := by
    intro raw modes h
    unfold Lexer.stringPart at h
    split at h
    · rename_i template
      cases template
    · split at h <;> cases h
      rfl
  unfold Lexer.step at h
  split at h
  · exact text true _ h
  · exact text false _ h
  · cases h
    exact word _
  · exact code _ h

theorem Lexer.Lexes.calm {modes : List Lexer.Mode} {cs : List Char} {ts : List Token} (h : Lexer.Lexes modes cs ts) :
    ∀ t ∈ ts, t.Calm := by
  induction h with
  | nil => simp
  | @cons modes c cs s ts start stop read tail ih =>
    intro t member
    rcases List.mem_cons.mp member with rfl | member
    · intro blank spelled
      have letters : c :: s.cut.taken = "enum".toList := by
        rw [← spelled, String.toList_ofList]
      obtain ⟨rfl, _⟩ := List.cons.inj letters
      rw [Lexer.not_isTrivia_of_letter read] at blank
      cases blank
    · exact ih t member

namespace Grammar

variable {w : Twins}

theorem rule_steady (depth : Nat) (r : Rule) : Steady w (rule depth r) := by
  induction depth generalizing r with
  | zero => exact .exhausted
  | succ depth ih =>
    cases r with
    | expression => exact expression_steady ih
    | unary => exact unary_steady ih
    | typeReference receiver => exact typeReference_steady ih receiver
    | annotationSet => exact annotationSet_steady ih
    | statement => exact statement_steady ih
    | classBody isEnum => exact classBody_steady ih isEnum

theorem apply_steady (r : Rule) : Steady w (apply r) := by
  refine .look fun at_ => ?_
  rw [at_.significant]
  exact rule_steady _ r

/-! The header. -/

theorem packageDirective_steady : Steady w packageDirective := by
  refine .bind (.advance .start) fun h => .bind (.bind (.expectName h) fun h => ?_) fun h => .done h _ _
  refine .iterateWhile h (fun at_ => ?_) fun h => .advanceTwice h
  rw [at_.sees, at_.seesName, at_.newlineBefore]

theorem importAliasInto_carries : Carries w importAliasInto := by
  intro m n h
  refine .look fun at_ => .ite (by rw [at_.sees, at_.newlineBefore]) ?_ (.pure h)
  refine .bind (.advance .start) fun k => .bind (.expectName k) fun k => ?_
  exact .bind (.done k _ _) fun aliased => .pure (h.add aliased)

theorem importDirective_steady : Steady w importDirective := by
  refine .bind (.advance .start) fun h => .bind (.expectName h) fun h => ?_
  refine .bind (.iterate h fun h => ?_) fun h => .bind (importAliasInto_carries h) fun h => .done h _ _
  refine .look fun at_ => .ite (by rw [at_.sees, at_.newlineBefore]) ?_ (.pure (.stop h))
  refine .bind (.advance h) fun h => .look fun at_ => .ite (at_.sees "*" 0) ?_ ?_
  · exact .bind (.advance h) fun h => .pure (.stop h)
  · exact .bind (.expectName h) fun h => .pure (.again h)

theorem importList_steady : Steady w importList := by
  refine .bind (.iterateWhile .start (fun at_ => at_.sees "import" 0) fun h => ?_) fun h => .done h _ _
  exact .bind importDirective_steady fun directive => .pure (h.add directive)

theorem headerInto_carries : Carries w headerInto := by
  intro m n h
  have packages : Carries w packageInto := fun _ _ h => .look fun at_ =>
    .ite (at_.sees "package" 0) (.recovering h packageDirective_steady) (.pure h)
  have imports : Carries w importsInto := fun _ _ h => .look fun at_ =>
    .ite (at_.sees "import" 0) (.recovering h importList_steady) (.pure h)
  refine .bind (.iterateWhile h (fun at_ => ?_) fun h => .recovering h (apply_steady _)) fun h => ?_
  · simp only [atFileAnnotations, at_.sees, at_.adjacent]
  · exact .bind (packages h) fun h => imports h

/-! The root. -/

theorem bareAll_tokens (ts : List Token) :
    bareAll ((ts.map Leaf.ofToken).map leaf) = ((Token.parts ts).map Token.bare).map fun t => leaf ⟨t, false⟩ := by
  induction ts with
  | nil => rfl
  | cons t ts ih =>
    rw [List.map_cons, List.map_cons, bareAll, ih]
    cases blank : t.kind.isTrivia with
    | true => simp [isBlank, Leaf.ofToken, blank, Token.parts, Token.isPart]
    | false => simp [isBlank, Leaf.ofToken, blank, Token.parts, Token.isPart, RawElement.bare]

/-- The root holds what the marker holds and the parts that are left. -/
theorem bareAll_finish {m : Marker} (neat : m.Neat) (ts : List Token) :
    bareAll ((m.addTrivia (ts.map Leaf.ofToken)).leading.map leaf ++
      (m.addTrivia (ts.map Leaf.ofToken)).children.toList) =
    bareAll m.children.toList ++ ((Token.parts ts).map Token.bare).map fun t => leaf ⟨t, false⟩ := by
  unfold Marker.addTrivia
  split
  · rename_i empty
    rw [Array.isEmpty_iff.mp empty, List.map_append, bareAll_append, bareAll_append, bareAll_leaves neat.leading,
      bareAll_tokens]
    simp [bareAll]
  · rw [bareAll_append, bareAll_leaves neat.leading, ← bareAll_tokens, ← bareAll_append, List.nil_append]
    simp

theorem finish_alike {m n : Marker} {b c : Builder} (h : m.Alike n) (at_ : b.Alike w c) (kind : RawKind)
    (scope : Scope) : (finish m kind scope b).Alike w (fun root root' => root.bare = root'.bare) (fun _ _ => True)
      (finish n kind scope c) := by
  obtain ⟨b', one⟩ := b.finish_eq m kind
  obtain ⟨c', two⟩ := c.finish_eq n kind
  have ran : finish m kind scope b = ⟨[], [], .ok ((b.finish m kind).2.2, (b.finish m kind).1)⟩ := rfl
  have ran' : finish n kind scope c = ⟨[], [], .ok ((c.finish n kind).2.2, (c.finish n kind).1)⟩ := rfl
  rw [ran, ran', one, two]
  refine ⟨.nil, .ok ?_ trivial⟩
  have rest := at_.ahead
  rw [← at_.one.parts_left, ← at_.two.parts_left] at rest
  rw [RawElement.bare, RawElement.bare, bareAll_finish h.neat, bareAll_finish h.neat', h.bare, rest]

theorem source_alike (form : Form) {b c : Builder} (at_ : b.Alike w c) (scope : Scope) :
    (Grammar.source form scope b).Alike w (fun root root' => root.bare = root'.bare) (fun _ _ => True)
      (Grammar.source form scope c) := by
  cases form with
  | file =>
    refine .bind (headerInto_carries .start at_ scope) fun h at_ => .look ?_
    rw [at_.significant]
    refine .bind (Like.iterateWhile h (fun at_ => by rw [at_.atEnd]) (fun h => ?_) at_ scope)
      fun h at_ => finish_alike h at_ _ _
    exact .recovering h (declarationOnly_steady (rule_steady _) _ _)
  | script =>
    refine .bind (headerInto_carries .start at_ scope) fun h at_ => .look ?_
    rw [at_.significant]
    exact .bind (statementsInto_carries (rule_steady _) (fun _ => rfl) h at_ scope)
      fun h at_ => finish_alike h at_ _ _

/-- What a run gives is what the rule answers. -/
theorem run_eq_ok {α : Type} {g : Grammar α} {ts : List Token} {a : α} {s : State} (h : run g ts = .ok a s) :
    ∃ b, (g {} (.ofTokens ts)).result = .ok (a, b) ∧ (g {} (.ofTokens ts)).faults = s.faults := by
  unfold run at h
  generalize g {} (.ofTokens ts) = answer at h ⊢
  obtain ⟨faults, log, result⟩ := answer
  cases result with
  | ok found =>
    cases h
    exact ⟨found.2, rfl, rfl⟩
  | error e => cases h

/-- Two similar sources run alike. -/
theorem run_alike {source source' : String} {form : Form} {ts us : List Token} {root root' : RawElement}
    {s s' : State} (one : Lexer.tokenize source = .ok ts) (two : Lexer.tokenize source' = .ok us)
    (similar : Token.Similar ts us) (ran : run (Grammar.source form) ts = .ok root s)
    (ran' : run (Grammar.source form) us = .ok root' s') :
    root.bare = root'.bare ∧ List.Forall₂ (Fault.Alike ts us) s.faults s'.faults := by
  let w : Twins := ⟨ts, us, similar, (Lexer.tokenize_lexes one).calm, (Lexer.tokenize_lexes two).calm⟩
  have at_ : Builder.Alike w (.ofTokens ts) (.ofTokens us) :=
    ⟨Builder.ofTokens_over (Lexer.tokenize_proper one) (Lexer.tokenize_named one),
      Builder.ofTokens_over (Lexer.tokenize_proper two) (Lexer.tokenize_named two), rfl⟩
  obtain ⟨faults, ends⟩ := source_alike form at_ {}
  obtain ⟨b, result, found⟩ := run_eq_ok ran
  obtain ⟨c, result', found'⟩ := run_eq_ok ran'
  rw [result, result'] at ends
  rw [found, found'] at faults
  cases ends with
  | ok same _ => exact ⟨same, faults⟩

/-- Trivia does not interfere: two sources whose parts are spelled alike, and whose gaps a glimpse does not tell
apart, give the same tree beside trivia and places, with the same complaints about the same parts. -/
theorem trivia_does_not_interfere (source source' : String) (form : Form) (ts us : List Token)
    (one : Lexer.tokenize source = .ok ts) (two : Lexer.tokenize source' = .ok us) (similar : Token.Similar ts us) :
    ∃ root s root' s', run (Grammar.source form) ts = .ok root s ∧ run (Grammar.source form) us = .ok root' s' ∧
      root.bare = root'.bare ∧ List.Forall₂ (Fault.Alike ts us) s.faults s'.faults := by
  obtain ⟨root, s, ran, _⟩ := run_source form one
  obtain ⟨root', s', ran', _⟩ := run_source form two
  obtain ⟨same, faults⟩ := run_alike one two similar ran ran'
  exact ⟨root, s, root', s', ran, ran', same, faults⟩

/-- A comment in place of a blank, where a name is missing. -/
theorem trivia_does_not_interfere_nameless : ∃ root s root' s',
    run (Grammar.source .script) [⟨.keyword, 0, 3, "val"⟩, ⟨.whitespace, 3, 4, " "⟩, ⟨.operator, 4, 5, "="⟩] =
      .ok root s ∧
    run (Grammar.source .script) [⟨.keyword, 0, 3, "val"⟩, ⟨.blockComment, 3, 7, "/**/"⟩, ⟨.operator, 7, 8, "="⟩] =
      .ok root' s' ∧ root.bare = root'.bare ∧ List.Forall₂ (Fault.Alike
        [⟨.keyword, 0, 3, "val"⟩, ⟨.whitespace, 3, 4, " "⟩, ⟨.operator, 4, 5, "="⟩]
        [⟨.keyword, 0, 3, "val"⟩, ⟨.blockComment, 3, 7, "/**/"⟩, ⟨.operator, 7, 8, "="⟩]) s.faults s'.faults :=
  trivia_does_not_interfere "val =" "val/**/=" .script _ _ (by decide +kernel) (by decide +kernel)
    ⟨by decide +kernel, by decide +kernel⟩

end Grammar

/-- A source for which a reader reports faults has at least one, and each of them stands where a part of the source
begins or where the source ends. -/
theorem Source.faults_stand_at_parts {form : Form} {o : Source.Options} {source : String} {faults : List Fault}
    {fileName : Option String} (h : (Source.parse form o source).result = .error (.faults faults fileName)) :
    faults ≠ [] ∧ ∃ ts, Lexer.tokenize source = .ok ts ∧ ∀ f ∈ faults, f.offset ∈ Token.places ts := by
  have stopped : (raw form o.fileName source).result = .error (.faults faults fileName) := by
    rcases parse_stopped h with stopped | ⟨_, _, ⟨_, _, _, ⟨⟩⟩ | ⟨_, _, _, _, _, ⟨⟩⟩⟩
    exact stopped
  cases lexed : Lexer.tokenize source with
  | error e =>
    rw [raw_of_lex_error form o.fileName lexed] at stopped
    cases stopped
  | ok ts =>
    obtain ⟨root, s, ran, -⟩ := Grammar.run_source form lexed
    rw [raw_of_run o.fileName lexed ran] at stopped
    split at stopped
    · cases stopped
    · rename_i some
      cases stopped
      refine ⟨some, ts, rfl, fun f member => ?_⟩
      -- The source is its own twin, and the twin of a fault stands at a part.
      obtain ⟨-, twins⟩ := Grammar.run_alike lexed lexed ⟨rfl, rfl⟩ ran ran
      obtain ⟨k, inside, rfl⟩ := List.getElem_of_mem member
      obtain ⟨i, place, -⟩ := (List.forall₂_iff_get.mp twins).2 k inside inside |>.place
      exact List.mem_of_getElem? place

end KotlinSyntax
