import KotlinSyntax.Proofs.Grammar.File

/-! Progress. What the grammar calls and what it repeats leaves the cursor further behind in the same tokens,
whatever the node under construction holds so far. -/
namespace KotlinSyntax

namespace Builder

structure Reaches (b b' : Builder) : Prop where
  placed : b'.Placed
  tokens : b'.tokens = b.tokens
  significant : b'.significant = b.significant
  le : b.cursor ≤ b'.cursor

/-- The second builder stands in the same tokens, behind at least one more significant token. -/
structure Passes (b b' : Builder) : Prop extends Reaches b b' where
  lt : b.cursor < b'.cursor

variable {b b' b'' : Builder} {t : Token} {gap : List Token}

theorem Reaches.refl (placed : b.Placed) : Reaches b b := ⟨placed, rfl, rfl, Nat.le_refl _⟩

theorem Reaches.trans (first : Reaches b b') (second : Reaches b' b'') : Reaches b b'' :=
  ⟨second.placed, second.tokens.trans first.tokens, second.significant.trans first.significant,
    Nat.le_trans first.le second.le⟩

theorem Reaches.passes (first : Reaches b b') (second : Passes b' b'') : Passes b b'' :=
  ⟨first.trans second.toReaches, Nat.lt_of_le_of_lt first.le second.lt⟩

theorem Passes.reaches (first : Passes b b') (second : Reaches b' b'') : Passes b b'' :=
  ⟨first.toReaches.trans second, Nat.lt_of_lt_of_le first.lt second.le⟩

theorem Reaches.remaining (h : Reaches b b') : b'.remaining ≤ b.remaining := by
  have := h.le
  simp only [Builder.remaining, h.significant]
  omega

theorem Passes.remaining (h : Passes b b') : b'.remaining < b.remaining := by
  have := h.lt
  have bound := h.placed.bound
  rw [h.significant] at bound
  simp only [Builder.remaining, h.significant]
  omega

theorem Placed.Next.passes (next : Placed.Next b t gap) : Passes b (b.behind 1 (b.pos + gap.length)) :=
  ⟨⟨next.placed, rfl, rfl, Nat.le_succ _⟩, Nat.lt_succ_self _⟩

end Builder

namespace Grammar

open Builder RawElement

variable {α : Type} {may : Prop} {recur : Recur} {limit : Nat} {scope : Scope} {b₀ b b₁ : Builder} {m : Marker}
  {P : RawElement → Prop} {p : Parsed} {item operand : Grammar Parsed}

abbrev Advances (scope : Scope) (g : Grammar α) (b : Builder) : Prop := Ensures scope g b fun _ => Passes b

abbrev Continues (scope : Scope) (turn : Grammar (Turn α)) (b : Builder) : Prop :=
  Ensures scope turn b (Turning (fun _ => Passes b) fun _ _ => True)

theorem Gives.passes (h : Gives P b₀ p b) : Passes b₀ b := by
  have less := h.lt
  have bound := h.built.origin.bound
  simp only [Builder.remaining, h.built.significant] at less
  exact ⟨⟨h.placed, h.built.tokens, h.built.significant, by omega⟩, by omega⟩

theorem Perhaps.passes {p : Option Parsed} (h : Perhaps P b₀ p b) :
    (p = none ∧ b = b₀) ∨ Passes b₀ b := by
  cases p with
  | none => exact .inl ⟨rfl, h⟩
  | some p => exact .inr (Gives.passes h)

theorem Perhaps.reaches {p : Option Parsed} (h : Perhaps P b₀ p b) (placed : b₀.Placed) : Reaches b₀ b := by
  rcases h.passes with ⟨_, rfl⟩ | passes
  · exact .refl placed
  · exact passes.toReaches

theorem advances_of_gives {g : Grammar Parsed} (h : Ensures scope g b (Gives P b)) : Advances scope g b :=
  h.mono fun _ _ given => given.passes

/-! Markers. -/

def Filled (m : Marker) : Prop := m.children.isEmpty = false

theorem filled_push (m : Marker) (e : RawElement) : Filled (m.push e) := by
  simp [Filled, Marker.push]

theorem filled_add (m : Marker) (p : Parsed) : Filled (m.add p) := filled_push _ _

theorem filled_add? (filled : Filled m) (p : Option Parsed) : Filled (m.add? p) := by
  cases p with
  | none => exact filled
  | some p => exact filled_add m p

theorem filled_ofParsed (p : Parsed) : Filled (.ofParsed p) := rfl

def Feeds (b : Builder) (m : Marker) (b' : Builder) : Prop := Passes b b' ∧ Filled m

theorem done_stays (filled : Filled m) {kind : RawKind} {role : Option String} :
    Ends may scope (done m kind role) b fun _ b' => b' = b := by
  unfold Filled at filled
  simp only [Grammar.done, Marker.done, filled]
  exact .pure rfl

/-- A node that is finished behind a token. -/
theorem Feeds.done {kind : RawKind} {role : Option String} (h : Feeds b m b₁) :
    Ends may scope (done m kind role) b₁ fun _ => Passes b :=
  (done_stays h.2).mono fun _ _ same => same ▸ h.1

/-! Taking tokens. -/

theorem not_atEnd_of_seesKind {kind : TokenKind} (h : b.seesKind kind = true) : b.atEnd = false := by
  obtain ⟨t, seen, _⟩ := peek_of_seesKind h
  simp [atEnd, seen]

theorem not_atEnd_of_seesAny {texts : List String} (h : b.seesAny texts = true) : b.atEnd = false := by
  obtain ⟨text, _, seen⟩ := List.any_eq_true.mp h
  exact not_atEnd_of_sees seen

theorem advance_feeds (placed : b.Placed) (more : b.atEnd = false) : Ends may scope (advance m) b (Feeds b) := by
  obtain ⟨t, seen⟩ := peek_of_not_atEnd more
  obtain ⟨gap, next⟩ := placed.next seen
  unfold Ends
  rw [advance_gets next m scope]
  exact ⟨next.passes, filled_push _ _⟩

theorem advanceAsTrivia_passes (placed : b.Placed) (more : b.atEnd = false) :
    Ends may scope (advanceAsTrivia m) b fun _ => Passes b := by
  obtain ⟨t, seen⟩ := peek_of_not_atEnd more
  obtain ⟨gap, next⟩ := placed.next seen
  refine .look ?_
  rw [next.take]
  exact .goTo (.pure next.passes)

theorem advanceTwice_feeds (placed : b.Placed) (more : b.atEnd = false) {u : Token} (second : b.peek 1 = some u) :
    Ends may scope (advanceTwice m) b (Feeds b) := by
  obtain ⟨t, seen⟩ := peek_of_not_atEnd more
  obtain ⟨gap, next⟩ := placed.next seen
  refine .bind_gets (advance_gets next m scope) ?_
  have follows : (b.behind 1 (b.pos + gap.length)).atEnd = false := by
    have seen' := (behind_peek b (b.pos + gap.length) 0).trans second
    simp [atEnd, seen']
  refine (advance_feeds next.placed follows).mono ?_
  rintro m' b' ⟨passes, filled⟩
  exact ⟨next.passes.reaches passes.toReaches, filled⟩

/-- An operator that stands on two tokens is passed as a whole. -/
theorem advanceGlued_feeds {ops : List String} (placed : b.Placed) (stands : 0 < b.operatorsCount ops) :
    Ends may scope (advanceGlued m (b.operatorsCount ops)) b (Feeds b) := by
  obtain ⟨op, _, count⟩ := operatorsCount_mem stands
  rw [count] at stands ⊢
  rcases operatorCount_cases stands with ⟨one, seen⟩ | ⟨first, second, two, _, seen, seen', touch⟩
  · rw [one]
    exact advance_feeds placed (not_atEnd_of_sees seen)
  · rw [two]
    obtain ⟨t, u, gap, next, next', _, _⟩ := next_two placed seen seen' touch
    refine .look ?_
    rw [next.take_two next']
    have passes : Passes (b.behind 1 (b.pos + gap.length)) (b.behind 2 (b.pos + gap.length + 1)) := next'.passes
    exact .goTo (.pure ⟨next.passes.reaches passes.toReaches, filled_push _ _⟩)

theorem expect_feeds {text : String} (placed : b.Placed) : Ensures scope (expect m text) b (Feeds b) :=
  .look (.ite (fun seen => advance_feeds placed (not_atEnd_of_sees seen)) fun _ => .reject)

theorem expectName_feeds (placed : b.Placed) : Ensures scope (expectName m) b (Feeds b) :=
  .look (.ite (fun seen => advance_feeds placed (not_atEnd_of_seesKind seen)) fun _ => .reject)

/-! Loops over a marker. -/

/-- Recovery passes a token also where the rule rejects the first one: what is skipped begins with it. -/
theorem recovering_advances {rule : Grammar Parsed} (placed : b.Placed) (more : b.atEnd = false)
    (each : Advances scope rule b) : Advances scope (recovering m rule) b := by
  refine .recovering each (fun _ _ passes => passes) ?_
  refine (skipToBoundary_gives placed more).mono ?_
  rintro _ b' ⟨q, rfl, given⟩
  exact given.passes

theorem add_advances (each : Advances scope item b) : Advances scope (do return m.add (← item)) b :=
  .bind each fun _ _ passes => .pure passes

/-- Skipping ends in front of a boundary, but not before its first token. -/
theorem skipTurn_continues (placed : b.Placed) (state : Marker × Nat) : Continues scope (skipTurn state) b := by
  obtain ⟨m, depth⟩ := state
  refine .look (.ite (fun _ => .pure trivial) ?_)
  intro goesOn
  simp only [Bool.or_eq_true, not_or, Bool.not_eq_true] at goesOn
  exact .bind (advance_feeds placed goesOn.1) fun _ _ feeds => .pure feeds.1

theorem commaTurn_continues {close : String} (each : Advances scope item b) :
    Continues scope (commaTurn close item m) b := by
  refine .look (.ite (fun _ => .pure trivial) fun _ => .bind each ?_)
  intro p b₁ passes
  refine .look (.ite ?_ fun _ => .pure trivial)
  intro comma
  refine .bind (advance_feeds passes.placed (not_atEnd_of_sees comma)) ?_
  intro m b₂ feeds
  exact .pure (passes.reaches feeds.1.toReaches)

theorem commaList_reaches {close : String} (placed : b.Placed) (filled : Filled m)
    (each : ∀ b', Reaches b b' → Advances scope item b') :
    Ensures scope (commaList m close item) b fun m' b' => Reaches b b' ∧ Filled m' := by
  refine .iterate (fun m' b' => Reaches b b' ∧ Filled m') ?_ ⟨.refl placed, filled⟩
  rintro m b₁ ⟨reaches, filled⟩
  refine .look (.ite (fun _ => .pure ⟨reaches, filled⟩) fun _ => .bind (each b₁ reaches) ?_)
  intro p b₂ passes
  refine .look (.ite ?_ fun _ => .pure ⟨reaches.trans passes.toReaches, filled_add _ _⟩)
  intro comma
  refine .bind (advance_feeds passes.placed (not_atEnd_of_sees comma)) ?_
  rintro m b₃ ⟨passes', filled⟩
  have onward := passes.reaches passes'.toReaches
  exact .pure ⟨⟨reaches.trans onward.toReaches, filled⟩, onward.remaining⟩

variable (serves : Serves recur limit)

include serves

theorem modifierTurn_continues (placed : b.Placed) (room : 4 * b.remaining < limit) (place : ModifierPlace) :
    Continues scope (modifierTurn recur place m) b := by
  refine .look (.ite ?_ fun _ => .ite ?_ fun _ => .pure trivial)
  · intro annotated
    refine .bind (serves.annotationSet placed annotated room) ?_
    intro p b₁ given
    exact .pure given.passes
  · intro stands
    obtain ⟨t, seen, _⟩ := ahead_of_standsModifier placed stands
    exact .bind (advance_feeds placed (by simp [atEnd, seen])) fun _ _ feeds => .pure feeds.1

theorem stringPart_advances (placed : b.Placed) (near : 4 * b.remaining ≤ limit) :
    Advances scope (stringPart recur m) b := by
  refine .look (.ite ?_ fun _ => .ite ?_ fun _ => .ite ?_ fun _ => .reject)
  · intro short
    exact add_advances (advances_of_gives (shortTemplate_gives placed short))
  · intro long
    exact add_advances (advances_of_gives (longTemplate_gives serves placed near long))
  · intro text
    have more : b.atEnd = false := by
      rcases Bool.or_eq_true_iff.mp text with is | is
      · exact not_atEnd_of_seesKind is
      · exact not_atEnd_of_seesKind is
    exact (advance_feeds placed more).mono fun _ _ feeds => feeds.1

theorem statementTurn_advances (placed : b.Placed) (more : b.atEnd = false) (free : 4 * b.remaining + 4 ≤ limit)
    (state : Marker × Bool) : Advances scope (statementTurn recur state) b := by
  obtain ⟨m, isFirst⟩ := state
  have each : Advances scope (recur .statement) b := advances_of_gives (serves.statement placed (by omega))
  refine .look (.bind complainUnless_ensures ?_)
  rintro _ _ rfl
  exact .bind (recovering_advances placed more each) fun _ _ passes => .pure passes

/-- The entries of an enumeration: an entry is passed wherever the tokens look like one. -/
theorem entryTurn_continues (placed : b.Placed) (free : 4 * b.remaining + 4 ≤ limit) :
    Continues scope (do
      if ← atEnumEntry recur then entryCommaTurn recur (m.add (← enumEntry recur)) else return .stop m) b := by
  refine .bind (atEnumEntry_ensures serves placed (by omega)) ?_
  rintro found _ rfl
  refine .ite (fun _ => ?_) fun _ => .pure trivial
  refine .bind (advances_of_gives (enumEntry_gives serves placed free)) ?_
  intro entry b₁ passes
  have fewer := passes.remaining
  refine .look (.ite (fun _ => .pure trivial) fun comma => ?_)
  have seen : b₁.sees "," = true := by simpa using comma
  have more := not_atEnd_of_sees seen
  obtain ⟨t, seen, _⟩ := peek_of_sees seen
  obtain ⟨gap, next⟩ := passes.placed.next seen
  refine .ite (fun _ => .bind (advanceAsTrivia_passes passes.placed more) fun _ _ _ => .pure trivial) fun _ => ?_
  refine .bind (entryFollowsComma_ensures serves next (by omega)) ?_
  rintro found _ ⟨rfl, _⟩
  refine .ite (fun _ => ?_) fun _ => .bind (advanceAsTrivia_passes passes.placed more) fun _ _ _ => .pure trivial
  exact .bind (advance_feeds passes.placed more) fun _ _ feeds => .pure (passes.reaches feeds.1.toReaches)

/-! Loops over an expression. -/

omit serves in
/-- The operand behind an operator that was passed, and the node over both. -/
theorem operation_continues {kind : RawKind} (took : Feeds b m b₁) (each : Advances scope operand b₁) :
    Ensures scope (do return .again (← done (m.add (← operand)) kind)) b₁
      (Turning (fun _ => Passes b) fun _ _ => True) := by
  refine .bind each ?_
  intro p b₂ passes
  have feeds : Feeds b (m.add p) b₂ := ⟨took.1.reaches passes.toReaches, filled_add m p⟩
  exact .bind feeds.done fun _ _ passes => .pure passes

omit serves in
/-- The rule repeats a step over what the first one gives, and a turn that asks for another one has passed a
token. -/
def Chains (scope : Scope) (b : Builder) (first chain : Grammar Parsed) : Prop :=
  ∃ step : Parsed → Grammar (Turn Parsed), chain = (do iterate step (← first)) ∧ ∀ p, Continues scope (step p) b

theorem callSuffix_maybe (placed : b.Placed) (free : 4 * b.remaining + 4 ≤ limit) :
    Ensures scope (callSuffix recur p) b (Maybe (fun _ => Passes b) (· = b)) := by
  refine .look (.ite (fun _ => .pure rfl) fun _ => ?_)
  refine .bind (callTypeArguments_perhaps serves placed (by omega)) ?_
  intro typeArgs b₁ given₁
  have reaches₁ := given₁.reaches placed
  have fewer₁ := reaches₁.remaining
  refine .bind (callArguments_perhaps serves reaches₁.placed (by omega)) ?_
  intro args b₂ given₂
  have reaches₂ := given₂.reaches reaches₁.placed
  have fewer₂ := reaches₂.remaining
  refine .bind (trailingLambda_perhaps serves reaches₂.placed (by omega)) ?_
  intro lambda b₃ given₃
  have reaches₃ := given₃.reaches reaches₂.placed
  refine .ite ?_ ?_
  · intro none
    simp only [Bool.and_eq_true, Option.isNone_iff_eq_none] at none
    obtain ⟨⟨rfl, rfl⟩, rfl⟩ := none
    cases given₁
    cases given₂
    cases given₃
    exact .pure rfl
  · intro some
    have passes : Passes b b₃ := by
      rcases given₁.passes with ⟨rfl, rfl⟩ | passes
      · rcases given₂.passes with ⟨rfl, rfl⟩ | passes
        · rcases given₃.passes with ⟨rfl, rfl⟩ | passes
          · exact absurd rfl some
          · exact passes
        · exact passes.reaches reaches₃
      · exact passes.reaches (reaches₂.trans reaches₃)
    have filled := filled_add? (filled_add? (filled_add? (filled_ofParsed p) typeArgs) args) lambda
    exact .map (Feeds.done ⟨passes, filled⟩)

theorem callTurn_continues (placed : b.Placed) (free : 4 * b.remaining + 4 ≤ limit) :
    Continues scope (callTurn recur p) b := by
  refine .bind (callSuffix_maybe serves placed free) ?_
  rintro (_ | call) b₁ given
  · exact .pure trivial
  · exact .pure given

theorem arrayAccess_advances (placed : b.Placed) (more : b.atEnd = false) (free : 4 * b.remaining + 4 ≤ limit) :
    Advances scope (arrayAccess recur p) b := by
  refine .withTrailingLambdas (.bind (advance_feeds placed more) ?_)
  rintro m b₁ ⟨passes₁, filled₁⟩
  have fewer := passes₁.remaining
  have each : ∀ b', Reaches b₁ b' → Advances ⟨true⟩ (recur .expression) b' := by
    intro b' reaches
    have := reaches.remaining
    exact advances_of_gives (serves.expression reaches.placed (by omega))
  refine .bind (commaList_reaches passes₁.placed filled₁ each) ?_
  rintro m b₂ ⟨reaches₂, _⟩
  refine .bind (expect_feeds reaches₂.placed) ?_
  rintro m b₃ ⟨passes₃, filled₃⟩
  exact Feeds.done ⟨passes₁.reaches (reaches₂.passes passes₃).toReaches, filled₃⟩

omit serves in
theorem callableReference_advances (placed : b.Placed) (more : b.atEnd = false) :
    Advances scope (callableReference m) b := by
  refine .bind (advance_feeds placed more) ?_
  rintro m b₁ ⟨passes₁, _⟩
  refine .look (.ite ?_ ?_)
  · intro word
    refine .bind (advance_feeds passes₁.placed (not_atEnd_of_sees word)) ?_
    rintro m b₂ ⟨passes₂, filled⟩
    exact Feeds.done ⟨passes₁.reaches passes₂.toReaches, filled⟩
  · intro _
    refine .bind (expectName_feeds passes₁.placed) ?_
    rintro m b₂ ⟨passes₂, filled⟩
    exact Feeds.done ⟨passes₁.reaches passes₂.toReaches, filled⟩

omit serves in
theorem nullableLiteral_advances (placed : b.Placed) (question : b.sees "?" = true) (colons : b.sees "::" 1 = true) :
    Advances scope (nullableLiteral p) b := by
  obtain ⟨u, seen, _⟩ := peek_of_sees colons
  refine .bind (advanceTwice_feeds placed (not_atEnd_of_sees question) seen) ?_
  intro m b₁ feeds
  refine .bind (R := Feeds b) (.look (.ite ?_ fun _ => .pure feeds)) fun _ _ feeds => feeds.done
  intro word
  have more : b₁.atEnd = false := by
    rcases Bool.or_eq_true_iff.mp word with is | is
    · exact not_atEnd_of_sees is
    · exact not_atEnd_of_seesKind is
  refine (advance_feeds feeds.1.placed more).mono ?_
  rintro m b₂ ⟨passes, filled⟩
  exact ⟨feeds.1.reaches passes.toReaches, filled⟩

theorem postfixTurn_continues (placed : b.Placed) (free : 4 * b.remaining + 4 ≤ limit) :
    Continues scope (postfixTurn recur p) b := by
  refine .look (.ite ?_ fun _ => .ite ?_ fun _ => .ite ?_ fun _ => .ite ?_ fun _ =>
    callTurn_continues serves placed free)
  · intro operator
    refine .bind (advance_feeds placed (not_atEnd_of_seesAny operator)) ?_
    intro m b₁ feeds
    exact .bind feeds.done fun _ _ passes => .pure passes
  · intro bracket
    refine .bind (arrayAccess_advances serves placed (not_atEnd_of_sees bracket) free) ?_
    exact fun _ _ passes => .pure passes
  · intro colons
    refine .bind (callableReference_advances placed (not_atEnd_of_sees colons)) ?_
    exact fun _ _ passes => .pure passes
  · intro nullable
    simp only [Bool.and_eq_true] at nullable
    refine .bind (nullableLiteral_advances placed nullable.1.1 nullable.2) ?_
    exact fun _ _ passes => .pure passes

theorem memberSelector_chains (placed : b.Placed) (free : 4 * b.remaining + 4 ≤ limit) :
    Chains scope b memberName (memberSelector recur) := by
  refine ⟨_, rfl, fun p => ?_⟩
  exact .look (.ite (fun _ => .pure trivial) fun _ => callTurn_continues serves placed free)

theorem postfixChain_chains (placed : b.Placed) (free : 4 * b.remaining + 4 ≤ limit) :
    Chains scope b (primary recur) (postfixChain recur) := by
  refine ⟨_, rfl, fun p => ?_⟩
  refine .look (.ite (fun _ => .pure trivial) fun _ => .ite ?_ fun _ =>
    .ite (fun _ => .pure trivial) fun _ => postfixTurn_continues serves placed free)
  intro dot
  refine .bind (advanceGlued_feeds placed dot) ?_
  intro m b₁ feeds
  have fewer := feeds.1.remaining
  exact operation_continues feeds (advances_of_gives (memberSelector_gives serves feeds.1.placed (by omega)))

omit serves in
theorem binaryLevel_chains {ops : List String} {crossesNewline : Bool} (placed : b.Placed)
    (each : ∀ b', b'.Placed → b'.remaining ≤ b.remaining → Ensures scope operand b' (Gives Ordinary b')) :
    Chains scope b operand (binaryLevel ops crossesNewline operand) := by
  refine ⟨_, rfl, fun lhs => ?_⟩
  refine .look (.ite (fun _ => .pure trivial) ?_)
  intro goesOn
  have stands : 0 < b.operatorsCount ops := by
    simp only [Bool.or_eq_true, decide_eq_true_eq, not_or] at goesOn
    exact Nat.pos_of_ne_zero goesOn.1.1
  refine .bind (advanceGlued_feeds placed stands) ?_
  intro m b₁ feeds
  have fewer := feeds.1.remaining
  exact operation_continues feeds (advances_of_gives (each b₁ feeds.1.placed (by omega)))

theorem castLevel_chains (placed : b.Placed) (free : 4 * b.remaining + 4 ≤ limit) :
    Chains scope b (recur .unary) (castLevel recur) := by
  refine ⟨_, rfl, fun lhs => ?_⟩
  refine .look (.ite (fun _ => .pure trivial) ?_)
  intro goesOn
  have stands : 0 < b.operatorsCount ["as?", "as"] := by
    simp only [Bool.or_eq_true, decide_eq_true_eq, not_or] at goesOn
    exact Nat.pos_of_ne_zero goesOn.1
  refine .bind (advanceGlued_feeds placed stands) ?_
  intro m b₁ feeds
  have fewer := feeds.1.remaining
  exact operation_continues feeds (advances_of_gives (serves.type feeds.1.placed false (by omega)))

theorem namedLevel_chains (placed : b.Placed) (free : 4 * b.remaining + 4 ≤ limit) :
    Chains scope b (range recur) (namedLevel recur) := by
  refine ⟨_, rfl, fun lhs => ?_⟩
  refine .look (.ite ?_ fun _ => .pure trivial)
  intro name
  simp only [Bool.and_eq_true] at name
  refine .bind (R := fun _ => Passes b) (.bind (advance_feeds placed (not_atEnd_of_seesKind name.1)) ?_) ?_
  · rintro m b₁ ⟨passes₁, _⟩
    have fewer := passes₁.remaining
    refine .bind (range_gives serves passes₁.placed (by omega)) ?_
    intro rhs b₂ given
    exact Feeds.done ⟨passes₁.reaches given.passes.toReaches, filled_add m rhs⟩
  · exact fun _ _ passes => .pure passes

theorem testLevel_chains (placed : b.Placed) (free : 4 * b.remaining + 4 ≤ limit) :
    Chains scope b (elvis recur) (testLevel recur) := by
  refine ⟨_, rfl, fun lhs => ?_⟩
  refine .look (.ite (fun _ => .pure trivial) fun _ => .ite ?_ fun _ => .ite ?_ fun _ => .pure trivial)
  · intro test
    refine .bind (advance_feeds placed (not_atEnd_of_seesAny test)) ?_
    intro m b₁ feeds
    have fewer := feeds.1.remaining
    exact operation_continues feeds (advances_of_gives (serves.type feeds.1.placed false (by omega)))
  · intro test
    refine .bind (advance_feeds placed (not_atEnd_of_seesAny test)) ?_
    intro m b₁ feeds
    have fewer := feeds.1.remaining
    exact operation_continues feeds (advances_of_gives (elvis_gives serves feeds.1.placed (by omega)))

end Grammar

end KotlinSyntax
