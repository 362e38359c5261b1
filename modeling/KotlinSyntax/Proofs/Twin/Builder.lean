import KotlinSyntax.Proofs.Grammar.Combinator
import KotlinSyntax.Proofs.Twin.Raw

/-! Two builders at the same part of twin sources. They see the same, and what they take differs in trivia only. -/
namespace KotlinSyntax

/-- The tokens of two sources that differ in trivia only. -/
structure Twins where
  one : List Token
  two : List Token
  similar : Token.Similar one two
  calm : ∀ t ∈ one, t.Calm
  calm' : ∀ t ∈ two, t.Calm

namespace Grammar

theorem headSpells_map_bare (text : String) (ts : List Token) :
    headSpells text (ts.map Token.bare) = headSpells text ts := by
  cases ts <;> rfl

theorem startsDeclaration_map_bare (ts : List Token) :
    startsDeclaration (ts.map Token.bare) = startsDeclaration ts := by
  induction ts with
  | nil => rfl
  | cons t ts ih => simp [startsDeclaration, headSpells_map_bare, ih]

theorem modifiesAccessor_map_bare (ts : List Token) :
    modifiesAccessor (ts.map Token.bare) = modifiesAccessor ts := by
  induction ts with
  | nil => rfl
  | cons t ts ih => simp [modifiesAccessor, headSpells_map_bare, ih]

theorem atModifier_map_bare (place : ModifierPlace) (ts : List Token) :
    atModifier place (ts.map Token.bare) = atModifier place ts := by
  match ts with
  | [] => rfl
  | [_] => rfl
  | t :: next :: rest =>
    have declared := startsDeclaration_map_bare (next :: rest)
    have accessed := modifiesAccessor_map_bare (t :: next :: rest)
    simp only [List.map_cons] at declared accessed ⊢
    cases place <;> simp [atModifier, declared, accessed]

end Grammar

namespace Builder

theorem closingParen?_map_bare (n depth : Nat) (ts : List Token) :
    closingParen? n depth (ts.map Token.bare) = closingParen? n depth ts := by
  induction ts generalizing n depth with
  | nil => rfl
  | cons t ts ih => simp [closingParen?, ih]

/-- Both builders stand at the same part. -/
structure Alike (w : Twins) (b c : Builder) : Prop where
  one : b.Over w.one
  two : c.Over w.two
  cursor : b.cursor = c.cursor

namespace Alike

variable {w : Twins} {b c : Builder}

theorem peek (h : Alike w b c) (n : Int) : (b.peek n).map Token.bare = (c.peek n).map Token.bare := by
  rw [h.one.peek, h.two.peek, h.cursor]
  split
  · rfl
  · rw [← List.getElem?_map, ← List.getElem?_map, w.similar.parts]

theorem any_peek (h : Alike w b c) {test : Token → Bool} (blind : ∀ t, test t.bare = test t) (n : Int) :
    (b.peek n).any test = (c.peek n).any test := by
  have same := congrArg (Option.any test) (h.peek n)
  simpa only [Option.any_map, blind] using same

theorem sees (h : Alike w b c) (text : String) (n : Int) : b.sees text n = c.sees text n :=
  h.any_peek (fun _ => rfl) n

theorem seesAny (h : Alike w b c) (texts : List String) : b.seesAny texts = c.seesAny texts :=
  congrArg texts.any (funext fun text => h.sees text 0)

theorem seesKind (h : Alike w b c) (kind : TokenKind) (n : Int) : b.seesKind kind n = c.seesKind kind n :=
  h.any_peek (fun _ => rfl) n

theorem seesName (h : Alike w b c) (n : Int) : b.seesName n = c.seesName n := h.seesKind .identifier n

theorem atEnd (h : Alike w b c) : b.atEnd = c.atEnd := by
  have same := congrArg Option.isNone (h.peek 0)
  rwa [Option.isNone_map, Option.isNone_map] at same

theorem glimpse (h : Alike w b c) (n : Int) : Token.glimpse (b.gap n) = Token.glimpse (c.gap n) := by
  rw [h.one.gap, h.two.gap, h.cursor]
  split
  · exact w.similar.whole
  · exact w.similar.gap _

theorem adjacent (h : Alike w b c) (n : Int) : b.adjacent n = c.adjacent n :=
  congrArg (·.1) (h.glimpse n)

theorem newlineBefore (h : Alike w b c) : b.newlineBefore = c.newlineBefore :=
  congrArg (·.2.1) (h.glimpse 0)

theorem semicolonBefore (h : Alike w b c) : b.semicolonBefore = c.semicolonBefore :=
  congrArg (·.2.2) (h.glimpse 0)

theorem separatedBefore (h : Alike w b c) : b.separatedBefore = c.separatedBefore := by
  rw [Builder.separatedBefore, Builder.separatedBefore, h.newlineBefore, h.semicolonBefore]

theorem operatorsCount (h : Alike w b c) (ops : List String) : b.operatorsCount ops = c.operatorsCount ops := by
  have each : b.operatorCount = c.operatorCount := by
    funext op
    simp only [Builder.operatorCount, h.sees, h.adjacent]
  rw [Builder.operatorsCount, Builder.operatorsCount, each]

theorem ahead (h : Alike w b c) : b.ahead.map Token.bare = c.ahead.map Token.bare := by
  rw [h.one.ahead, h.two.ahead, h.cursor, List.map_drop, List.map_drop, w.similar.parts]

theorem startsFunctionType (h : Alike w b c) (n : Nat) : b.startsFunctionType n = c.startsFunctionType n := by
  have close : closingParen? n 0 (b.ahead.drop n) = closingParen? n 0 (c.ahead.drop n) := by
    rw [← closingParen?_map_bare n 0 (b.ahead.drop n), ← closingParen?_map_bare n 0 (c.ahead.drop n),
      List.map_drop, List.map_drop, h.ahead]
  rw [Builder.startsFunctionType, Builder.startsFunctionType, h.sees, close]
  cases closingParen? n 0 (c.ahead.drop n) with
  | none => rfl
  | some close => simp only [h.sees]

theorem standsModifier (h : Alike w b c) (place : Grammar.ModifierPlace) :
    Grammar.standsModifier place b = Grammar.standsModifier place c := by
  have stands : Grammar.atModifier place b.ahead = Grammar.atModifier place c.ahead := by
    rw [← Grammar.atModifier_map_bare place b.ahead, ← Grammar.atModifier_map_bare place c.ahead, h.ahead]
  rw [Grammar.standsModifier, Grammar.standsModifier, stands, h.any_peek (fun _ => rfl)]

theorem remaining (h : Alike w b c) : b.remaining = c.remaining := by
  rw [h.one.remaining, h.two.remaining, h.cursor, w.similar.length]

theorem significant (h : Alike w b c) : b.significant.size = c.significant.size := by
  rw [← Array.length_toList, ← Array.length_toList, h.one.significant, h.two.significant, indicesFrom_length,
    indicesFrom_length, w.similar.length]

/-! Taking tokens. -/

theorem peek_cases (h : Alike w b c) : (b.index? 0 = none ∧ c.index? 0 = none) ∨
    ∃ t u gap gap', Placed.Next b t gap ∧ Placed.Next c u gap' ∧ t.bare = u.bare := by
  have same := h.peek 0
  cases one : b.peek with
  | none =>
    have ended : c.peek = none := by simpa [one] using same.symm
    exact .inl ⟨h.one.index?_of_peek one, h.two.index?_of_peek ended⟩
  | some t =>
    rw [one] at same
    obtain ⟨u, two, bare⟩ := Option.map_eq_some_iff.mp same.symm
    obtain ⟨gap, next⟩ := h.one.placed.next one
    obtain ⟨gap', next'⟩ := h.two.placed.next two
    exact .inr ⟨t, u, gap, gap', next, next', bare.symm⟩

variable {t u : Token} {gap gap' : List Token}

theorem behind (h : Alike w b c) (one : Placed.Next b t gap) (two : Placed.Next c u gap') :
    Alike w (b.behind 1 (b.pos + gap.length)) (c.behind 1 (c.pos + gap'.length)) where
  one := ⟨h.one.tokens, h.one.significant, one.placed⟩
  two := ⟨h.two.tokens, h.two.significant, two.placed⟩
  cursor := congrArg (· + 1) h.cursor

end Alike

def parsed (gap : List Token) (t : Token) (trivia : Bool) : Parsed := ⟨gap.map Leaf.ofToken, .leaf ⟨t, trivia⟩⟩

namespace Over

variable {ts : List Token} {b : Builder} {t u : Token} {gap run rest : List Token}

theorem mem_of_left (h : b.Over ts) (member : t ∈ b.left) : t ∈ ts := by
  rw [← h.tokens]
  exact List.mem_of_mem_drop member

theorem trivia_neat (h : b.Over ts) (calm : ∀ t ∈ ts, t.Calm) (split : b.left = run ++ rest)
    (blank : ∀ u ∈ run, u.kind.isTrivia = true) : Marker.Neat ⟨run.map Leaf.ofToken, #[]⟩ where
  leading := by
    intro l member
    obtain ⟨u, inside, rfl⟩ := List.mem_map.mp member
    exact blank u inside
  calm := by
    intro l member
    rw [Marker.leaves, List.mem_append] at member
    rcases member with member | member
    · obtain ⟨u, inside, rfl⟩ := List.mem_map.mp member
      exact calm u (h.mem_of_left (by rw [split]; exact List.mem_append_left rest inside))
    · cases member

theorem parsed_neat (h : b.Over ts) (calm : ∀ t ∈ ts, t.Calm) (next : Placed.Next b t gap) {op : Token}
    (part : op.kind.isTrivia = false) (trivia : Bool) : (Marker.ofParsed (parsed gap op trivia)).Neat := by
  have front := h.trivia_neat calm next.split next.blank
  refine ⟨front.leading, ?_⟩
  intro l member
  rw [Marker.leaves_ofParsed, Parsed.leaves, List.mem_append] at member
  rcases member with member | member
  · exact front.calm l (List.mem_append_left _ member)
  · intro blank
    rw [List.mem_singleton.mp member, part] at blank
    cases blank

end Over

namespace Alike

variable {w : Twins} {b c : Builder} {t u : Token} {gap gap' : List Token}

/-- Leaves of the same kind and text are alike, whatever stands in front of them. -/
theorem parsed (h : Alike w b c) (one : Placed.Next b t gap) (two : Placed.Next c u gap') {op op' : Token}
    (same : op.bare = op'.bare) (part : op.kind.isTrivia = false) (trivia : Bool) :
    (Builder.parsed gap op trivia).Alike (Builder.parsed gap' op' trivia) where
  bare := by
    simp only [Builder.parsed, Marker.ofParsed, RawElement.bareAll, RawElement.bare, RawElement.isBlank, same,
      Token.kind_of_bare same]
    rfl
  isEmpty := rfl
  neat := h.one.parsed_neat w.calm one part trivia
  neat' := h.two.parsed_neat w.calm' two (Token.kind_of_bare same ▸ part) trivia

end Alike

end Builder

end KotlinSyntax
