import KotlinSyntax.Grammar.Type
import KotlinSyntax.Proofs.Grammar.Combinator

/-! Types. Each rule gives an element that holds the tokens it took, provided that the rules it calls do so
wherever they are called: at fewer tokens, or at as many if they rank lower. -/
namespace KotlinSyntax.Grammar

open Builder RawElement

/-- A rule calls at the same token only rules of a lower rank. -/
def Rule.rank : Rule → Nat
  | annotationSet | classBody _ => 0
  | typeReference _ | unary => 1
  | expression => 2
  | statement => 3

/-- Where the rule may be called at all. -/
def Rule.Applies (b : Builder) : Rule → Prop
  | annotationSet => b.sees "@" = true
  | _ => True

/-- The rules do their work below the limit, which counts four for each token. -/
def Serves (recur : Recur) (limit : Nat) : Prop :=
  ∀ r scope b, b.Placed → Rule.Applies b r → 4 * b.remaining + r.rank < limit →
    Ensures scope (recur r) b (Gives Ordinary b)

variable {recur : Recur} {limit : Nat} {scope : Scope} {b₀ b : Builder} {m : Marker} {o : Outline}
  {place : ModifierPlace}

namespace Serves

theorem annotationSet (serves : Serves recur limit) (placed : b.Placed) (seen : b.sees "@" = true)
    (room : 4 * b.remaining < limit) : Ensures scope (recur .annotationSet) b (Gives Ordinary b) :=
  serves .annotationSet scope b placed seen room

theorem type (serves : Serves recur limit) (placed : b.Placed) (receiver : Bool)
    (room : 4 * b.remaining + 1 < limit) :
    Ensures scope (recur (.typeReference receiver)) b (Gives Ordinary b) :=
  serves (.typeReference receiver) scope b placed trivial room

theorem unary (serves : Serves recur limit) (placed : b.Placed) (room : 4 * b.remaining + 1 < limit) :
    Ensures scope (recur .unary) b (Gives Ordinary b) :=
  serves .unary scope b placed trivial room

theorem expression (serves : Serves recur limit) (placed : b.Placed) (room : 4 * b.remaining + 2 < limit) :
    Ensures scope (recur .expression) b (Gives Ordinary b) :=
  serves .expression scope b placed trivial room

theorem statement (serves : Serves recur limit) (placed : b.Placed) (room : 4 * b.remaining + 3 < limit) :
    Ensures scope (recur .statement) b (Gives Ordinary b) :=
  serves .statement scope b placed trivial room

theorem classBody (serves : Serves recur limit) (placed : b.Placed) (isEnum : Bool)
    (room : 4 * b.remaining < limit) : Ensures scope (recur (.classBody isEnum)) b (Gives Ordinary b) :=
  serves (.classBody isEnum) scope b placed trivial room

end Serves

theorem Holds.plain (placed : b.Placed) : Holds Outline.plain.holds b .empty b :=
  .start placed (by simp [Outline.plain])

theorem Holds.plainOf {p : Parsed} (given : Gives Ordinary b₀ p b) : Holds Outline.plain.holds b₀ (.ofParsed p) b :=
  .ofParsed given (by simpa [Outline.plain] using not_isMark_of_isOrdinary given.holds)

/-! Modifiers. -/

theorem ahead_of_standsModifier (placed : b.Placed) (h : standsModifier place b = true) : Ahead b := by
  simp only [standsModifier, Bool.and_eq_true] at h
  cases seen : b.peek with
  | none => simp [seen] at h
  | some t =>
    have modifier : t.text ∈ Keyword.modifiers := by simpa [seen] using h.1
    have proper := proper_of_peek placed seen
    refine ⟨t, seen, ?_⟩
    have noComma : t.text ≠ "," := by
      intro is
      rw [is] at modifier
      exact absurd modifier (by decide)
    have unmarked : t.kind.isMark = false := by
      cases kind : t.kind <;> first
        | rfl
        | (simp [Token.isProper, kind] at proper
           rcases proper with is | is <;> rw [is] at modifier <;> exact absurd modifier (by decide))
        | (simp [Token.isProper, kind] at proper
           rw [proper] at modifier
           exact absurd modifier (by decide))
    simp [Ordinary, isOrdinary, noComma, unmarked]

theorem modifierTurn_turns (serves : Serves recur limit) (h : Holds o.holds b₀ m b)
    (room : 4 * b.remaining < limit) :
    Ensures scope (modifierTurn recur place m) b (Turning (Took o.holds b₀ b) (Kept o.holds b₀ b)) := by
  refine .look (.ite ?_ ?_)
  · intro seen
    refine .bind (serves.annotationSet h.placed seen room) ?_
    intro p b' given
    exact .pure (h.took given)
  · intro _
    refine .ite ?_ ?_
    · intro stands
      exact .bind (h.advance (ahead_of_standsModifier h.placed stands)) fun m' b' took => .pure took
    · intro _
      exact .pure ⟨h, Nat.le_refl _⟩

theorem modifierList_perhaps (serves : Serves recur limit) (placed : b.Placed) (room : 4 * b.remaining < limit) :
    Ensures scope (modifierList recur place) b (Perhaps Ordinary b) := by
  refine .bind ((Holds.plain placed).iterate fun m b' holds le =>
    modifierTurn_turns serves holds (by omega)) ?_
  rintro m b' ⟨holds, _⟩
  exact holds.doneUnlessEmpty (fun es unmarked => fits_of_isPlain rfl unmarked) (fun _ => rfl)

theorem modified_kept (serves : Serves recur limit) (h : Holds o.holds b₀ m b) (room : 4 * b.remaining < limit) :
    Ensures scope (modified recur place m) b (Kept o.holds b₀ b) :=
  .bind (modifierList_perhaps serves h.placed room) fun _ _ given => .pure (h.add? given)

/-! References to types. -/

theorem typeSuffix_kept (serves : Serves recur limit) (h : Holds o.holds b₀ m b) (near : 4 * b.remaining ≤ limit) :
    Ensures scope (typeSuffix recur m) b (Kept o.holds b₀ b) := by
  refine .look (.ite ?_ ?_)
  · intro seen
    refine .bind (h.advance (ahead_of_sees seen (by decide))) ?_
    rintro m b' ⟨h, less⟩
    refine .bind (serves.type h.placed false (by omega)) ?_
    intro p b'' given
    have := given.lt
    exact .pure ⟨h.add given, by omega⟩
  · intro _
    exact .pure ⟨h, Nat.le_refl _⟩

theorem typeArgument_gives (serves : Serves recur limit) (placed : b.Placed) (free : 4 * b.remaining + 4 ≤ limit) :
    Ensures scope (typeArgument recur) b (Gives (fun e => e.isOf .typeProjection = true) b) := by
  refine .look (.ite ?_ ?_)
  · intro seen
    refine .bind ((Holds.plain placed).advance (ahead_of_sees seen (by decide))) ?_
    rintro m b' ⟨h, less⟩
    exact h.donePlain less rfl (fun _ => rfl)
  · intro _
    refine .bind (modified_kept serves (Holds.plain placed) (by omega)) ?_
    rintro m b' ⟨h, le⟩
    refine .bind (serves.type h.placed false (by omega)) ?_
    intro p b'' given
    have := given.lt
    exact (h.add given).donePlain (by omega) rfl (fun _ => rfl)

theorem typeArguments_gives (serves : Serves recur limit) (placed : b.Placed) (near : 4 * b.remaining ≤ limit) :
    Ensures scope (typeArguments recur) b (Gives Ordinary b) :=
  bracketed_gives rfl rfl (fun _ => trivial) (by decide) rfl placed fun _ placed less =>
    typeArgument_gives serves placed (by omega)

theorem typeSegment_took (serves : Serves recur limit) (placed : b.Placed) (near : 4 * b.remaining ≤ limit) :
    Ensures scope (typeSegment recur) b (Took Outline.plain.holds b b) := by
  refine .bind (Holds.plain placed).expectName ?_
  rintro m b' ⟨h, less⟩
  refine (h.addIf fun _ => typeArguments_gives serves h.placed (by omega)).mono ?_
  rintro m' b'' ⟨h, le⟩
  exact ⟨h, by omega⟩

/-- Qualifiers and the segment behind them, which is not closed yet. -/
def Qualified (b₀ : Builder) (state : Marker × Marker) (b : Builder) : Prop :=
  ∃ b₁, Holds Outline.plain.holds b₀ state.1 b₁ ∧ Took Outline.plain.holds b₁ b₁ state.2 b

theorem qualifierTurn_ensures (serves : Serves recur limit) (state : Marker × Marker)
    (h : Qualified b₀ state b) (dot : b.sees "." = true) (near : 4 * b.remaining ≤ limit) :
    Ensures scope (qualifierTurn recur state) b fun state' b' =>
      Qualified b₀ state' b' ∧ b'.remaining < b.remaining := by
  obtain ⟨b₁, qualifiers, segment, moved⟩ := h
  refine .bind (segment.doneHere (P := Ordinary) moved (fun _ unmarked => fits_of_isPlain rfl unmarked)
    (fun _ => rfl)) ?_
  rintro p _ ⟨given, rfl⟩
  refine .bind ((qualifiers.add given).advance (ahead_of_sees dot (by decide))) ?_
  rintro m b₂ ⟨h, less⟩
  refine .bind (typeSegment_took serves h.placed (by omega)) ?_
  intro next b₃ took
  exact .pure ⟨⟨b₂, h, took⟩, by have := took.2; omega⟩

theorem userType_gives (serves : Serves recur limit) (placed : b.Placed) (near : 4 * b.remaining ≤ limit)
    (receiver : Bool) : Ensures scope (userType recur receiver) b (Gives Ordinary b) := by
  refine .bind (typeSegment_took serves placed near) ?_
  intro first b₁ took
  have less := took.2
  refine .bind (.iterateWhile (fun state b' => Qualified b state b' ∧ b'.remaining < b.remaining) ?_
    ⟨⟨b, .plain placed, took⟩, less⟩) ?_
  · rintro state b' ⟨h, less⟩ goesOn
    simp only [Bool.and_eq_true] at goesOn
    refine (qualifierTurn_ensures serves state h goesOn.1.1 (by omega)).mono ?_
    rintro state' b'' ⟨h, less'⟩
    exact ⟨⟨h, by omega⟩, less'⟩
  · rintro ⟨m, segment⟩ b' ⟨⟨⟨b₂, ⟨es, built, unmarked⟩, ⟨fs, built', unmarked'⟩, _⟩, less⟩, _⟩
    have holds : Holds Outline.plain.holds b (m.absorb segment) b' := by
      refine ⟨es ++ fs, built.absorb built', ?_⟩
      intro e member
      exact (List.mem_append.mp member).elim (unmarked e) (unmarked' e)
    exact holds.donePlain less rfl (fun _ => rfl)

theorem nullableSuffix_gives {type : Parsed} (h : Gives Ordinary b₀ type b) :
    Ensures scope (nullableSuffix type) b (Gives Ordinary b₀) := by
  refine .look (.ite ?_ ?_)
  · intro _
    refine .bind ((Holds.plainOf h).iterateWhile fun m b' holds le again => ?_) ?_
    · simp only [Bool.and_eq_true] at again
      exact holds.advance (ahead_of_sees again.1 (by decide))
    · rintro m b' ⟨⟨holds, le⟩, _⟩
      have := h.lt
      exact holds.donePlain (by omega) rfl (fun _ => rfl)
  · intro _
    exact .pure h

theorem functionTypeParameter_gives (serves : Serves recur limit) (placed : b.Placed)
    (free : 4 * b.remaining + 4 ≤ limit) :
    Ensures scope (functionTypeParameter recur) b (Gives (fun e => e.isOf .functionTypeParameter = true) b) := by
  refine .bind ((Holds.plain placed).advanceTwiceIf ?_) ?_
  · intro named
    simp only [Bool.and_eq_true] at named
    obtain ⟨u, seen, spelled⟩ := peek_of_sees named.2
    exact ⟨ahead_of_seesName placed named.1, u, seen, ordinary_of_spells spelled (by decide)⟩
  · rintro m b' ⟨h, le⟩
    refine .bind (serves.type h.placed false (by omega)) ?_
    intro p b'' given
    have := given.lt
    exact (h.add given).donePlain (by omega) rfl (fun _ => rfl)

theorem functionType_gives (serves : Serves recur limit) (h : Holds Outline.plain.holds b₀ m b)
    (near : 4 * b.remaining ≤ limit) : Ensures scope (functionType recur m) b (Gives Ordinary b₀) := by
  have le := h.le
  refine .bind (bracketed_gives rfl rfl (fun _ => trivial) (by decide) rfl h.placed fun _ placed less =>
    functionTypeParameter_gives serves placed (by omega)) ?_
  intro params b₁ given
  have less := given.lt
  refine .bind ((h.add given).expect (by decide)) ?_
  rintro m b₂ ⟨h, less'⟩
  refine .bind (serves.type h.placed false (by omega)) ?_
  intro result b₃ given
  have := given.lt
  exact (h.add given).donePlain (by omega) rfl (fun _ => rfl)

theorem contextReceiver_gives (serves : Serves recur limit) (placed : b.Placed)
    (free : 4 * b.remaining + 4 ≤ limit) :
    Ensures scope (contextReceiver recur) b (Gives (fun e => e.isOf .contextReceiver = true) b) := by
  refine .bind (serves.type placed false (by omega)) ?_
  intro p b' given
  exact ((Holds.plain placed).add given).donePlain given.lt rfl (fun _ => rfl)

theorem contextReceivers_gives (serves : Serves recur limit) (placed : b.Placed) (near : 4 * b.remaining ≤ limit)
    (ahead : Ahead b) : Ensures scope (contextReceivers recur) b (Gives Ordinary b) := by
  have start : Holds (Outline.list .contextReceiver rfl).holds b .empty b := .start placed Open.nil.list
  refine .bind (start.advance ahead) ?_
  rintro m b₁ ⟨h, less⟩
  refine .bind (h.expectOpening (by decide)) ?_
  rintro m b₂ ⟨h, less'⟩
  refine .bind (h.commaList rfl fun b' placed le => contextReceiver_gives serves placed (by omega)) ?_
  rintro m b₃ ⟨⟨h, le⟩, _⟩
  refine .bind (h.expect (by decide)) ?_
  rintro m b₄ ⟨h, less''⟩
  exact h.done (by omega) (fun es listed => fits_of_item rfl trivial listed.1 listed.2) (fun _ => rfl)

theorem namedType_gives (serves : Serves recur limit) (placed : b.Placed) (near : 4 * b.remaining ≤ limit)
    (receiver : Bool) : Ensures scope (namedType recur receiver) b (Gives Ordinary b) := by
  refine .look (.ite ?_ ?_)
  · intro dynamic
    simp only [Bool.and_eq_true] at dynamic
    obtain ⟨t, seen, spelled⟩ := peek_of_sees dynamic.1
    have start : Holds (· = []) b .empty b := .start placed rfl
    refine .bind (start.advanceWith (J := (· = [.leaf ⟨t, false⟩])) seen (by rintro _ rfl; rfl)) ?_
    rintro m b' ⟨⟨h, less⟩, _⟩
    refine h.done less ?_ (fun _ => rfl)
    rintro _ rfl
    have unmarked := not_isMark_of_isOrdinary (ordinary_of_spells spelled (by decide))
    exact ⟨by simpa using unmarked, nofun, ⟨t, false⟩, rfl, Token.text_of_spells spelled⟩
  · intro _
    exact userType_gives serves placed near receiver

theorem nullableIf_gives {type : Parsed} (h : Gives Ordinary b₀ type b) :
    Ensures scope (nullableIf type) b (Gives Ordinary b₀) := by
  refine .look (.ite ?_ ?_)
  · intro nullable
    simp only [Bool.and_eq_true] at nullable
    refine .bind ((Holds.plainOf h).advance (ahead_of_sees nullable.1 (by decide))) ?_
    rintro m b' ⟨holds, less⟩
    have := h.lt
    exact .bind (holds.donePlain (by omega) rfl (fun _ => rfl)) fun _ _ => nullableSuffix_gives
  · intro _
    exact .pure h

theorem receiverOf_gives (serves : Serves recur limit) {named : Parsed} (h : Gives Ordinary b₀ named b)
    (near : 4 * b₀.remaining ≤ limit) : Ensures scope (receiverOf recur named) b (Gives Ordinary b₀) := by
  refine .look (.ite ?_ ?_)
  · intro dot
    simp only [Bool.and_eq_true] at dot
    refine .bind ((Holds.plainOf h).doneHere (P := Ordinary) h.lt
      (fun _ unmarked => fits_of_isPlain rfl unmarked) (fun _ => rfl)) ?_
    rintro reference _ ⟨given, rfl⟩
    have := given.lt
    refine .bind ((Holds.plainOf given).advance (ahead_of_sees dot.1 (by decide))) ?_
    rintro m b₁ ⟨holds, less⟩
    refine .bind (holds.donePlain (P := Ordinary) (by omega) rfl (fun _ => rfl)) ?_
    intro receiver b₂ given
    have := given.lt
    exact functionType_gives serves ((Holds.plain h.built.origin).add given) (by omega)
  · intro _
    exact .pure h

/-- A parenthesis that begins no function type is left to the rule, which needs more room. -/
theorem typeBody_gives (serves : Serves recur limit) (placed : b.Placed) (near : 4 * b.remaining ≤ limit)
    (room : b.sees "(" = true → b.startsFunctionType = false → 4 * b.remaining + 4 ≤ limit) (receiver : Bool) :
    Ensures scope (typeBody recur receiver) b (Gives Ordinary b) := by
  refine .look (.ite ?_ ?_)
  · intro paren
    refine .ite ?_ ?_
    · intro _
      exact functionType_gives serves (Holds.plain placed) near
    · intro grouped
      have free := room paren (by simpa using grouped)
      refine .bind (serves.type placed false (by omega)) ?_
      intro p b' given
      exact ((Holds.plain placed).add given).donePlain given.lt rfl (fun _ => rfl)
  · intro _
    refine .ite ?_ ?_
    · intro context
      simp only [Bool.and_eq_true] at context
      refine .bind (contextReceivers_gives serves placed near (ahead_of_sees context.1 (by decide))) ?_
      intro contexts b' given
      have := given.lt
      exact functionType_gives serves ((Holds.plain placed).add given) (by omega)
    · intro _
      refine .bind (namedType_gives serves placed near receiver) ?_
      intro named b₁ given
      refine .bind (nullableIf_gives given) ?_
      intro named b₂ given
      exact receiverOf_gives serves given near

theorem groupedType_gives (serves : Serves recur limit) (placed : b.Placed) (near : 4 * b.remaining ≤ limit)
    (ahead : Ahead b) : Ensures scope (groupedType recur) b (Gives Ordinary b) := by
  refine .bind ((Holds.plain placed).advance ahead) ?_
  rintro m b₁ ⟨h, less⟩
  refine .bind (modified_kept serves h (by omega)) ?_
  rintro m b₂ ⟨h, le⟩
  refine .bind (typeBody_gives serves h.placed (by omega) (fun _ _ => by omega) false) ?_
  intro type b₃ given
  have := given.lt
  refine .bind ((h.add given).expect (by decide)) ?_
  rintro m b₄ ⟨h, less'⟩
  refine .look (.ite ?_ ?_)
  · intro nullable
    simp only [Bool.and_eq_true] at nullable
    refine .bind (h.advance (ahead_of_sees nullable.1 (by decide))) ?_
    rintro m b₅ ⟨h, less''⟩
    refine .bind (h.donePlain (P := Ordinary) (by omega) rfl (fun _ => rfl)) ?_
    intro nullable b₆ given
    refine .bind (nullableSuffix_gives given) ?_
    intro type b₇ given
    exact ((Holds.plain placed).add given).donePlain given.lt rfl (fun _ => rfl)
  · intro _
    exact h.donePlain (by omega) rfl (fun _ => rfl)

theorem typeReference_gives (serves : Serves recur limit) (placed : b.Placed) (room : 4 * b.remaining < limit)
    (receiver : Bool) : Ensures scope (typeReference recur receiver) b (Gives Ordinary b) := by
  refine .look (.ite ?_ ?_)
  · intro grouped
    simp only [Bool.and_eq_true] at grouped
    exact groupedType_gives serves placed (by omega) (ahead_of_sees grouped.1 (by decide))
  · intro plain
    refine .bind (modified_kept serves (Holds.plain placed) room) ?_
    rintro m b' ⟨h, le⟩
    have body : Ensures scope (typeBody recur receiver) b' (Gives Ordinary b') := by
      refine typeBody_gives serves h.placed (by omega) ?_ receiver
      intro paren notFunction
      rcases h.eq_or_lt with rfl | less
      · rw [paren, notFunction] at plain
        exact absurd rfl plain
      · omega
    refine .bind body ?_
    intro type b'' given
    have := given.lt
    exact (h.add given).donePlain (by omega) rfl (fun _ => rfl)

/-! Type parameters and constraints. -/

theorem typeParameter_gives (serves : Serves recur limit) (placed : b.Placed) (free : 4 * b.remaining + 4 ≤ limit) :
    Ensures scope (typeParameter recur) b (Gives (fun e => e.isOf .typeParameter = true) b) := by
  refine .bind (modified_kept serves (Holds.plain placed) (by omega)) ?_
  rintro m b₁ ⟨h, le⟩
  refine .bind h.expectName ?_
  rintro m b₂ ⟨h, less⟩
  refine .bind (typeSuffix_kept serves h (by omega)) ?_
  rintro m b₃ ⟨h, le'⟩
  exact h.donePlain (by omega) rfl (fun _ => rfl)

theorem typeParametersInto_kept (serves : Serves recur limit) (h : Holds o.holds b₀ m b)
    (near : 4 * b.remaining ≤ limit) : Ensures scope (typeParametersInto recur m) b (Kept o.holds b₀ b) :=
  h.addIf fun _ => bracketed_gives rfl rfl (fun _ => trivial) (by decide) rfl h.placed fun _ placed less =>
    typeParameter_gives serves placed (by omega)

theorem annotationSetsInto_kept (serves : Serves recur limit) (h : Holds o.holds b₀ m b)
    (room : 4 * b.remaining < limit) :
    Ensures scope (annotationSetsInto recur m) b fun m' b' => Kept o.holds b₀ b m' b' ∧ b'.sees "@" = false := by
  refine h.iterateWhile ?_
  intro m' b' holds le seen
  exact .bind (serves.annotationSet holds.placed seen (by omega)) fun p b'' given => .pure (holds.took given)

theorem typeConstraint_gives (serves : Serves recur limit) (placed : b.Placed)
    (free : 4 * b.remaining + 4 ≤ limit) :
    Ensures scope (typeConstraint recur) b (Gives (fun e => e.isOf .typeConstraint = true) b) := by
  refine .bind (annotationSetsInto_kept serves (Holds.plain placed) (by omega)) ?_
  rintro m b₁ ⟨⟨h, le⟩, _⟩
  refine .bind h.expectName ?_
  rintro m b₂ ⟨h, less⟩
  refine .bind (h.expect (by decide)) ?_
  rintro m b₃ ⟨h, less'⟩
  refine .bind (serves.type h.placed false (by omega)) ?_
  intro p b₄ given
  have := given.lt
  exact (h.add given).donePlain (by omega) rfl (fun _ => rfl)

def Constraints (es : List RawElement) : Prop :=
  (Outline.list .typeConstraint rfl).holds es ∧ ∃ e, es.getLast? = some e ∧ e.isOf .typeConstraint = true

theorem Constraints.append {es : List RawElement} {e : RawElement} (h : Open .typeConstraint es)
    (is : e.isOf .typeConstraint = true) : Constraints (es ++ [e]) :=
  ⟨h.append is rfl, e, List.getLast?_concat, is⟩

theorem Constraints.comma {es : List RawElement} {t : Token} (h : Constraints es) (word : t.isWord = true) :
    Open .typeConstraint (es ++ [.leaf ⟨t, false⟩]) := by
  refine Open.word h.1 word ?_
  intro _ x last
  obtain ⟨_, e, ends, is⟩ := h
  rw [List.getLast?_cons, ends] at last
  cases last
  exact is

theorem Constraints.fits {es : List RawElement} (h : Constraints es) : Fits .typeConstraintList es := by
  obtain ⟨listed, e, ends, is⟩ := h
  refine fits_of_item rfl ?_ listed.1 listed.2
  intro x last
  rw [ends] at last
  cases last
  cases e with
  | leaf => cases is
  | node => rfl

theorem typeConstraintSet_gives (serves : Serves recur limit) (placed : b.Placed) (near : 4 * b.remaining ≤ limit)
    (ahead : Ahead b) : Ensures scope (typeConstraintSet recur) b (Gives Ordinary b) := by
  refine .bind ((Holds.plain placed).advance ahead) ?_
  rintro m b₁ ⟨h, less⟩
  refine .bind (typeConstraint_gives serves h.placed (by omega)) ?_
  intro first b₂ given
  have := given.lt
  have start : Holds Constraints b₁ (Marker.empty.add first) b₂ :=
    Holds.addWith (.start h.placed Open.nil) given fun _ opened => .append opened given.holds
  refine .bind (start.iterateWhile ?_) ?_
  · intro list b₃ list_holds le seen
    obtain ⟨t, peeked, spelled⟩ := peek_of_sees seen
    refine .bind (list_holds.advanceWith (J := Open .typeConstraint) peeked
      fun es listed => listed.comma (Token.isWord_of_spells spelled)) ?_
    rintro list b₄ ⟨⟨opened, less'⟩, _⟩
    refine .bind (typeConstraint_gives serves opened.placed (by omega)) ?_
    intro next b₅ given
    have := given.lt
    exact .pure ⟨opened.addWith given fun es opened => .append opened given.holds, by omega⟩
  · rintro list b₃ ⟨⟨list_holds, le⟩, _⟩
    refine .bind (list_holds.done (P := Ordinary) (by omega) (fun es listed => listed.fits) (fun _ => rfl)) ?_
    intro constraints b₄ given
    have := given.lt
    exact (h.add given).donePlain (by omega) rfl (fun _ => rfl)

theorem constraintsInto_kept (serves : Serves recur limit) (h : Holds o.holds b₀ m b)
    (near : 4 * b.remaining ≤ limit) : Ensures scope (constraintsInto recur m) b (Kept o.holds b₀ b) :=
  h.addIf fun seen => typeConstraintSet_gives serves h.placed near (ahead_of_sees seen (by decide))

end KotlinSyntax.Grammar
