import KotlinSyntax.Grammar.Expression
import KotlinSyntax.Proofs.Grammar.Primary

/-! Expressions by level, and statements. -/
namespace KotlinSyntax.Grammar

open Builder RawElement

variable {recur : Recur} {limit : Nat} {scope : Scope} {b₀ b : Builder} {m : Marker} {p : Parsed}

/-! Elements that grow. -/

def Onward (b₀ b : Builder) : Turn Parsed → Builder → Prop := Turning (Grown b₀ b) (Gives Ordinary b₀)

theorem Gives.iterate {step : Parsed → Grammar (Turn Parsed)} (h : Gives Ordinary b₀ p b)
    (each : ∀ p' b', Gives Ordinary b₀ p' b' → Ensures scope (step p') b' (Onward b₀ b')) :
    Ensures scope (iterate step p) b (Gives Ordinary b₀) :=
  .iterate (Gives Ordinary b₀) each h

theorem Perhaps.eq_or_lt {P : RawElement → Prop} {p : Option Parsed} (h : Perhaps P b₀ p b) :
    (p.isNone = true ∧ b = b₀) ∨ b.remaining < b₀.remaining := by
  cases p with
  | none => exact .inl ⟨rfl, h⟩
  | some p => exact .inr (Gives.lt h)

/-- The element and one more behind an operator. -/
theorem operation_onward {kind : RawKind} {b' : Builder} {operand : Grammar Parsed} (from₀ : b.remaining < b₀.remaining)
    (took : Took Outline.plain.holds b₀ b m b') (each : Ensures scope operand b' (Gives Ordinary b'))
    (plain : kind.isPlain = true) (goal : kind.isItem = false) :
    Ensures scope (do return .again (← done (m.add (← operand)) kind)) b' (Onward b₀ b) := by
  obtain ⟨h, less⟩ := took
  refine .bind each ?_
  intro e b'' given
  have := given.lt
  refine .bind ((h.add given).grown (c := b) (by omega) (by omega)
    (fun _ unmarked => fits_of_isPlain plain unmarked) goal) ?_
  exact fun _ _ grown => .pure grown

/-! Calls. -/

def BeforeLambda (recur : Recur) (scope : Scope) (b : Builder) : Prop :=
  b.sees openBrace = true ∨ (b.seesName = true ∧ b.sees "@" 1 = true) ∨
    ∃ m b', Gets scope (annotationSetsInto recur .empty) b m b' ∧ b'.sees openBrace = true

theorem atLambdaArgument_ensures (serves : Serves recur limit) (placed : b.Placed) (room : 4 * b.remaining < limit) :
    Ensures scope (atLambdaArgument recur) b fun found b' =>
      b' = b ∧ (found = true → BeforeLambda recur scope b) := by
  refine .look (.ite ?_ fun _ => .ite ?_ fun _ => .ite ?_ fun _ => .pure ⟨rfl, nofun⟩)
  · intro brace
    exact .pure ⟨rfl, fun _ => .inl brace⟩
  · intro label
    simp only [Bool.and_eq_true] at label
    exact .pure ⟨rfl, fun _ => .inr (.inl label.1)⟩
  · intro _
    have tested : Ensures scope (do
        let _ ← annotationSetsInto recur .empty
        if !(← look).sees openBrace then reject (.expectedText openBrace)) b
        fun _ _ => BeforeLambda recur scope b := by
      refine .bind (annotationSetsInto_kept serves (Holds.plain placed) room).gets ?_
      rintro m b₁ ⟨_, gets⟩
      refine .look (.ite (fun _ => .reject) ?_)
      intro brace
      exact .pure (.inr (.inr ⟨m, b₁, gets, by simpa using brace⟩))
    refine (Ends.lookahead tested).mono ?_
    rintro found b' ⟨same, gets⟩
    refine ⟨same, ?_⟩
    intro is
    obtain ⟨_, _, gets⟩ := gets is
    exact tested.of_gets gets

/-- Without annotations nothing is taken. -/
theorem annotationSetsInto_gets (none : b.sees "@" = false) : Gets scope (annotationSetsInto recur m) b m b :=
  iterateWhile_gets none

/-- The test that was made in front of a lambda still stands where the lambda is read: a name there is a label. -/
theorem BeforeLambda.labels {b₁ : Builder} (before : BeforeLambda recur scope b) (placed : b.Placed)
    (gets : Gets scope (annotationSetsInto recur .empty) b m b₁) (placed₁ : b₁.Placed) (name : b₁.seesName = true) :
    b₁.sees "@" 1 = true := by
  obtain ⟨noAt, noBrace⟩ := not_sees_of_seesName placed₁ name
  rcases before with brace | ⟨name', label⟩ | ⟨m', b₂, gets', brace⟩
  · have still : b.sees "@" = false := by
      cases at_ : b.sees "@" with
      | false => rfl
      | true =>
        obtain ⟨t, seen, spelled⟩ := peek_of_sees brace
        obtain ⟨t', seen', spelled'⟩ := peek_of_sees at_
        rw [seen] at seen'
        cases seen'
        have text := (Token.text_of_spells spelled).symm.trans (Token.text_of_spells spelled')
        exact absurd text (by decide)
    rw [((annotationSetsInto_gets still).unique gets).2, brace] at noBrace
    cases noBrace
  · have still := (not_sees_of_seesName placed name').1
    rwa [((annotationSetsInto_gets still).unique gets).2]
  · have same := gets.unique gets'
    rw [← same.2, brace] at noBrace
    cases noBrace

theorem lambdaArgument_gives (serves : Serves recur limit) (placed : b.Placed) (room : 4 * b.remaining < limit)
    (before : BeforeLambda recur scope b) : Ensures scope (lambdaArgument recur) b (Gives Ordinary b) := by
  refine .bind (annotationSetsInto_kept serves (Holds.plain placed) room).gets ?_
  rintro m b₁ ⟨⟨⟨h, le⟩, _⟩, gets⟩
  have labeled : b₁.seesName = true → Ahead b₁ ∧ ∃ u, b₁.peek 1 = some u ∧ Ordinary (.leaf ⟨u, false⟩) := by
    intro name
    obtain ⟨u, seen, spelled⟩ := peek_of_sees (before.labels placed gets h.placed name)
    exact ⟨ahead_of_seesName h.placed name, u, seen, ordinary_of_spells spelled (by decide)⟩
  refine .bind (h.advanceTwiceIf labeled) ?_
  rintro m b₂ ⟨h, le₂⟩
  refine .bind (lambda_gives serves h.placed (by omega)) ?_
  intro lambda b₃ given
  have := given.lt
  exact (h.add given).donePlain (by omega) rfl (fun _ => rfl)

theorem callTypeArguments_perhaps (serves : Serves recur limit) (placed : b.Placed) (near : 4 * b.remaining ≤ limit) :
    Ensures scope (callTypeArguments recur) b (Perhaps Ordinary b) := by
  refine .look (.ite ?_ fun _ => .pure rfl)
  intro _
  refine .speculate (.bind (typeArguments_gives serves placed near) ?_)
  intro args b₁ given
  exact .look (.ite (fun _ => .pure given) fun _ => .reject)

theorem trailingLambda_perhaps (serves : Serves recur limit) {hasArguments : Bool} (placed : b.Placed)
    (room : 4 * b.remaining < limit) :
    Ensures scope (trailingLambda recur hasArguments) b (Perhaps Ordinary b) := by
  refine .look (.surroundings (.ite ?_ fun _ => .pure rfl))
  intro _
  refine .bind (atLambdaArgument_ensures serves placed room) ?_
  rintro found _ ⟨rfl, before⟩
  refine .ite ?_ fun _ => .pure rfl
  intro is
  exact .map (lambdaArgument_gives serves placed room (before is))

theorem callArguments_perhaps (serves : Serves recur limit) (placed : b.Placed) (near : 4 * b.remaining ≤ limit) :
    Ensures scope (callArguments recur) b (Perhaps Ordinary b) := by
  refine .look (.ite ?_ fun _ => .pure rfl)
  intro _
  exact .map (valueArguments_gives serves placed near)

theorem callSuffix_ensures (serves : Serves recur limit) (callee : Gives Ordinary b₀ p b)
    (free : 4 * b.remaining + 4 ≤ limit) :
    Ensures scope (callSuffix recur p) b (Maybe (Grown b₀ b) (· = b)) := by
  have from₀ := callee.lt
  refine .look (.ite (fun _ => .pure rfl) fun _ => ?_)
  have h := Holds.plainOf callee
  refine .bind (callTypeArguments_perhaps serves h.placed (by omega)) ?_
  intro typeArgs b₁ given₁
  obtain ⟨h, le₁⟩ := h.add? given₁
  refine .bind (callArguments_perhaps serves h.placed (by omega)) ?_
  intro args b₂ given₂
  obtain ⟨h, le₂⟩ := h.add? given₂
  refine .bind (trailingLambda_perhaps serves h.placed (by omega)) ?_
  intro lambda b₃ given₃
  obtain ⟨h, le₃⟩ := h.add? given₃
  refine .ite ?_ ?_
  · intro none
    simp only [Bool.and_eq_true, Option.isNone_iff_eq_none] at none
    obtain ⟨⟨rfl, rfl⟩, rfl⟩ := none
    cases given₁
    cases given₂
    cases given₃
    exact .pure rfl
  · intro some
    have onward : b₃.remaining < b.remaining := by
      rcases given₁.eq_or_lt with ⟨none₁, rfl⟩ | less
      · rcases given₂.eq_or_lt with ⟨none₂, rfl⟩ | less
        · rcases given₃.eq_or_lt with ⟨none₃, rfl⟩ | less
          · exact absurd (by simp [none₁, none₂, none₃]) some
          · omega
        · omega
      · omega
    exact .map (h.grown (by omega) onward (fun _ unmarked => fits_of_isPlain rfl unmarked) rfl)

theorem callTurn_onward (serves : Serves recur limit) (callee : Gives Ordinary b₀ p b)
    (free : 4 * b.remaining + 4 ≤ limit) : Ensures scope (callTurn recur p) b (Onward b₀ b) := by
  refine .bind (callSuffix_ensures serves callee free) ?_
  rintro (_ | call) b₁ given
  · cases given
    exact .pure callee
  · exact .pure given

theorem memberName_gives (placed : b.Placed) : Ensures scope memberName b (Gives Ordinary b) := by
  refine .look (.ite ?_ fun _ => .reject)
  intro name
  obtain ⟨t, seen, plain⟩ := ahead_of_seesName placed name
  exact token_gives placed seen plain

theorem memberSelector_gives (serves : Serves recur limit) (placed : b.Placed) (near : 4 * b.remaining ≤ limit) :
    Ensures scope (memberSelector recur) b (Gives Ordinary b) := by
  refine .bind (memberName_gives placed) ?_
  intro name b₁ given
  refine given.iterate fun p b' callee => ?_
  refine .look (.ite (fun _ => .pure callee) fun _ => ?_)
  have := callee.lt
  exact callTurn_onward serves callee (by omega)

/-! Suffixes. -/

theorem arrayAccess_grown (serves : Serves recur limit) (target : Gives Ordinary b₀ p b)
    (free : 4 * b.remaining + 4 ≤ limit) (ahead : Ahead b) :
    Ensures scope (arrayAccess recur p) b (Grown b₀ b) := by
  have from₀ := target.lt
  obtain ⟨t, seen, plain⟩ := ahead
  have start : Holds (fun es => es = [p.element]) b₀ (.ofParsed p) b := .ofParsed target rfl
  refine .withTrailingLambdas (.bind (start.advanceWith
    (J := fun es => es = [p.element, .leaf ⟨t, false⟩] ∧ ∀ e ∈ es, e.isMark = false) seen ?_) ?_)
  · rintro _ rfl
    refine ⟨rfl, ?_⟩
    simp [not_isMark_of_isOrdinary plain, not_isMark_of_isOrdinary target.holds]
  · rintro m b₁ ⟨⟨h, less⟩, _⟩
    refine (h.expressionsInto serves (by omega) (by omega) ?_ rfl).mono ?_
    · rintro _ e ⟨inner, rfl, unmarked, spaced⟩ mark closing
      exact ⟨unmarked_append unmarked mark, nofun, _, _, inner, e, rfl, spaced, closing⟩
    · rintro q b₂ ⟨given, less'⟩
      exact ⟨given, by omega⟩

theorem nullableLiteral_grown (receiver : Gives Ordinary b₀ p b) (question : b.sees "?" = true)
    (colons : b.sees "::" 1 = true) : Ensures scope (nullableLiteral p) b (Grown b₀ b) := by
  have from₀ := receiver.lt
  obtain ⟨u, seen, spelled⟩ := peek_of_sees colons
  refine .bind ((Holds.plainOf receiver).advanceTwice (ahead_of_sees question (by decide)) seen
    (ordinary_of_spells spelled (by decide))) ?_
  rintro m b₁ ⟨h, less⟩
  refine .bind (h.advanceIf ?_) ?_
  · intro either
    rcases Bool.or_eq_true_iff.mp either with word | name
    · exact ahead_of_sees word (by decide)
    · exact ahead_of_seesName h.placed name
  · rintro m b₂ ⟨h, le⟩
    exact .mono (h.doneHere (P := Ordinary) (by omega) (fun _ unmarked => fits_of_isPlain rfl unmarked)
      (fun _ => rfl)) fun _ _ after => ⟨after.1, by rw [after.2]; omega⟩

theorem postfixTurn_onward (serves : Serves recur limit) (h : Gives Ordinary b₀ p b)
    (free : 4 * b.remaining + 4 ≤ limit) : Ensures scope (postfixTurn recur p) b (Onward b₀ b) := by
  have from₀ := h.lt
  refine .look (.ite ?_ fun _ => .ite ?_ fun _ => .ite ?_ fun _ => .ite ?_ fun _ => ?_)
  · intro operator
    refine .bind ((Holds.plainOf h).advance (ahead_of_seesAny operator (by decide))) ?_
    rintro m b₁ ⟨h, less⟩
    exact .bind (h.grown (by omega) less (fun _ unmarked => fits_of_isPlain rfl unmarked) rfl) fun _ _ grown =>
      .pure grown
  · intro bracket
    exact .bind (arrayAccess_grown serves h free (ahead_of_sees bracket (by decide))) fun _ _ grown => .pure grown
  · intro colons
    exact .bind (callableReference_grown (.plainOf h) (ahead_of_sees colons (by decide))) fun _ _ grown => .pure grown
  · intro nullable
    simp only [Bool.and_eq_true] at nullable
    exact .bind (nullableLiteral_grown h nullable.1.1 nullable.2) fun _ _ grown => .pure grown
  · exact callTurn_onward serves h free

theorem postfixChain_gives (serves : Serves recur limit) (placed : b.Placed) (near : 4 * b.remaining ≤ limit) :
    Ensures scope (postfixChain recur) b (Gives Ordinary b) := by
  refine .bind (primary_gives serves placed near) ?_
  intro first b₁ given
  refine given.iterate fun p b' h => ?_
  have from₀ := h.lt
  refine .look (.ite (fun _ => .pure h) fun _ => .ite ?_ fun _ => .ite (fun _ => .pure h) fun _ => ?_)
  · intro dot
    refine .bind ((Holds.plainOf h).advanceGlued dot (by decide)) ?_
    intro m b₂ took
    have less := took.2
    exact operation_onward from₀ took (memberSelector_gives serves took.1.placed (by omega)) rfl rfl
  · exact postfixTurn_onward serves h (by omega)

theorem unary_gives (serves : Serves recur limit) (placed : b.Placed) (room : 4 * b.remaining < limit) :
    Ensures scope (unary recur) b (Gives Ordinary b) := by
  refine .look (.ite ?_ fun _ => .ite ?_ fun _ => .ite ?_ fun _ => ?_)
  · intro operator
    refine .bind ((Holds.plain placed).advance (ahead_of_seesAny operator (by decide))) ?_
    rintro m b₁ ⟨h, less⟩
    refine .bind (serves.unary h.placed (by omega)) ?_
    intro e b₂ given
    have := given.lt
    exact (h.add given).donePlain (by omega) rfl (fun _ => rfl)
  · intro annotated
    refine .bind (annotationSetsInto_kept serves (Holds.plain placed) room) ?_
    rintro m b₁ ⟨⟨h, _⟩, none⟩
    have less : b₁.remaining < b.remaining := by
      rcases h.eq_or_lt with rfl | less
      · rw [annotated] at none
        cases none
      · exact less
    refine .bind (serves.unary h.placed (by omega)) ?_
    intro e b₂ given
    have := given.lt
    exact (h.add given).donePlain (by omega) rfl (fun _ => rfl)
  · intro label
    simp only [Bool.and_eq_true] at label
    obtain ⟨u, seen, spelled⟩ := peek_of_sees label.1.2
    refine .bind ((Holds.plain placed).advanceTwice (ahead_of_seesName placed label.1.1) seen
      (ordinary_of_spells spelled (by decide))) ?_
    rintro m b₁ ⟨h, less⟩
    refine .bind (serves.unary h.placed (by omega)) ?_
    intro e b₂ given
    have := given.lt
    exact (h.add given).donePlain (by omega) rfl (fun _ => rfl)
  · exact postfixChain_gives serves placed (by omega)

/-! Levels. -/

theorem binaryLevel_gives {ops : List String} {crossesNewline : Bool} {operand : Grammar Parsed} (placed : b.Placed)
    (noComma : "," ∉ ops)
    (each : ∀ b', b'.Placed → b'.remaining ≤ b.remaining → Ensures scope operand b' (Gives Ordinary b')) :
    Ensures scope (binaryLevel ops crossesNewline operand) b (Gives Ordinary b) := by
  refine .bind (each b placed (Nat.le_refl _)) ?_
  intro first b₁ given
  refine given.iterate fun lhs b' h => ?_
  have from₀ := h.lt
  refine .look (.ite (fun _ => .pure h) ?_)
  intro goesOn
  have stands : 0 < b'.operatorsCount ops := by
    simp only [Bool.or_eq_true, decide_eq_true_eq, not_or] at goesOn
    exact Nat.pos_of_ne_zero goesOn.1.1
  refine .bind ((Holds.plainOf h).advanceGlued stands noComma) ?_
  intro m b₂ took
  have less := took.2
  exact operation_onward from₀ took (each b₂ took.1.placed (by omega)) rfl rfl

theorem castLevel_gives (serves : Serves recur limit) (placed : b.Placed) (room : 4 * b.remaining + 2 ≤ limit) :
    Ensures scope (castLevel recur) b (Gives Ordinary b) := by
  refine .bind (serves.unary placed (by omega)) ?_
  intro first b₁ given
  refine given.iterate fun lhs b' h => ?_
  have from₀ := h.lt
  refine .look (.ite (fun _ => .pure h) ?_)
  intro goesOn
  have stands : 0 < b'.operatorsCount ["as?", "as"] := by
    simp only [Bool.or_eq_true, decide_eq_true_eq, not_or] at goesOn
    exact Nat.pos_of_ne_zero goesOn.1
  refine .bind ((Holds.plainOf h).advanceGlued stands (by decide)) ?_
  intro m b₂ took
  have less := took.2
  exact operation_onward from₀ took (serves.type took.1.placed false (by omega)) rfl rfl

theorem multiplicative_gives (serves : Serves recur limit) (placed : b.Placed) (room : 4 * b.remaining + 2 ≤ limit) :
    Ensures scope (multiplicative recur) b (Gives Ordinary b) :=
  binaryLevel_gives placed (by decide) fun _ placed le => castLevel_gives serves placed (by omega)

theorem additive_gives (serves : Serves recur limit) (placed : b.Placed) (room : 4 * b.remaining + 2 ≤ limit) :
    Ensures scope (additive recur) b (Gives Ordinary b) :=
  binaryLevel_gives placed (by decide) fun _ placed le => multiplicative_gives serves placed (by omega)

theorem range_gives (serves : Serves recur limit) (placed : b.Placed) (room : 4 * b.remaining + 2 ≤ limit) :
    Ensures scope (range recur) b (Gives Ordinary b) :=
  binaryLevel_gives placed (by decide) fun _ placed le => additive_gives serves placed (by omega)

theorem namedLevel_gives (serves : Serves recur limit) (placed : b.Placed) (room : 4 * b.remaining + 2 ≤ limit) :
    Ensures scope (namedLevel recur) b (Gives Ordinary b) := by
  refine .bind (range_gives serves placed room) ?_
  intro first b₁ given
  refine (Ends.iterateWhile (Gives Ordinary b) ?_ given).mono fun _ _ after => after.1
  intro lhs b' h goesOn
  have from₀ := h.lt
  simp only [Bool.and_eq_true] at goesOn
  refine .bind ((Holds.plainOf h).advance (ahead_of_seesName h.placed goesOn.1)) ?_
  rintro m b₂ ⟨h, less⟩
  refine .bind (range_gives serves h.placed (by omega)) ?_
  intro rhs b₃ given
  have := given.lt
  exact (h.add given).grown (by omega) (by omega) (fun _ unmarked => fits_of_isPlain rfl unmarked) rfl

theorem elvis_gives (serves : Serves recur limit) (placed : b.Placed) (room : 4 * b.remaining + 2 ≤ limit) :
    Ensures scope (elvis recur) b (Gives Ordinary b) :=
  binaryLevel_gives placed (by decide) fun _ placed le => namedLevel_gives serves placed (by omega)

theorem testLevel_gives (serves : Serves recur limit) (placed : b.Placed) (room : 4 * b.remaining + 2 ≤ limit) :
    Ensures scope (testLevel recur) b (Gives Ordinary b) := by
  refine .bind (elvis_gives serves placed room) ?_
  intro first b₁ given
  refine given.iterate fun lhs b' h => ?_
  have from₀ := h.lt
  refine .look (.ite (fun _ => .pure h) fun _ => .ite ?_ fun _ => .ite ?_ fun _ => .pure h)
  · intro test
    refine .bind ((Holds.plainOf h).advance (ahead_of_seesAny test (by decide))) ?_
    intro m b₂ took
    have less := took.2
    exact operation_onward from₀ took (serves.type took.1.placed false (by omega)) rfl rfl
  · intro test
    refine .bind ((Holds.plainOf h).advance (ahead_of_seesAny test (by decide))) ?_
    intro m b₂ took
    have less := took.2
    exact operation_onward from₀ took (elvis_gives serves took.1.placed (by omega)) rfl rfl

theorem comparison_gives (serves : Serves recur limit) (placed : b.Placed) (room : 4 * b.remaining + 2 ≤ limit) :
    Ensures scope (comparison recur) b (Gives Ordinary b) :=
  binaryLevel_gives placed (by decide) fun _ placed le => testLevel_gives serves placed (by omega)

theorem equality_gives (serves : Serves recur limit) (placed : b.Placed) (room : 4 * b.remaining + 2 ≤ limit) :
    Ensures scope (equality recur) b (Gives Ordinary b) :=
  binaryLevel_gives placed (by decide) fun _ placed le => comparison_gives serves placed (by omega)

theorem conjunction_gives (serves : Serves recur limit) (placed : b.Placed) (room : 4 * b.remaining + 2 ≤ limit) :
    Ensures scope (conjunction recur) b (Gives Ordinary b) :=
  binaryLevel_gives placed (by decide) fun _ placed le => equality_gives serves placed (by omega)

theorem disjunction_gives (serves : Serves recur limit) (placed : b.Placed) (room : 4 * b.remaining + 2 ≤ limit) :
    Ensures scope (disjunction recur) b (Gives Ordinary b) :=
  binaryLevel_gives placed (by decide) fun _ placed le => conjunction_gives serves placed (by omega)

theorem expression_gives (serves : Serves recur limit) (placed : b.Placed) (room : 4 * b.remaining + 2 ≤ limit) :
    Ensures scope (expression recur) b (Gives Ordinary b) := by
  refine .bind (disjunction_gives serves placed room) ?_
  intro lhs b₁ given
  have less := given.lt
  refine .look (.ite (fun _ => .pure given) ?_)
  intro assigns
  have stands : 0 < b₁.operatorsCount ["=", "+=", "-=", "*=", "/=", "%="] := by
    simp only [Bool.or_eq_true, decide_eq_true_eq, not_or] at assigns
    exact Nat.pos_of_ne_zero assigns.1
  refine .bind ((Holds.plainOf given).advanceGlued stands (by decide)) ?_
  rintro m b₂ ⟨h, less'⟩
  refine .bind (serves.expression h.placed (by omega)) ?_
  intro rhs b₃ given
  have := given.lt
  exact (h.add given).donePlain (by omega) rfl (fun _ => rfl)

/-! Statements. -/

theorem annotatedStatement_gives (serves : Serves recur limit) (placed : b.Placed)
    (room : 4 * b.remaining + 3 ≤ limit) : Ensures scope (annotatedStatement recur) b (Gives Ordinary b) := by
  refine .bind (annotationSetsInto_kept serves (Holds.plain placed) (by omega)) ?_
  rintro m b₁ ⟨⟨h, le⟩, _⟩
  refine .look (.ite ?_ fun _ => .reject)
  intro _
  refine .bind (serves.expression h.placed (by omega)) ?_
  intro e b₂ given
  have := given.lt
  exact (h.add given).donePlain (by omega) rfl (fun _ => rfl)

theorem expressionStatement_gives (serves : Serves recur limit) (placed : b.Placed)
    (room : 4 * b.remaining + 3 ≤ limit) : Ensures scope (expressionStatement recur) b (Gives Ordinary b) := by
  refine .look (.ite ?_ fun _ => serves.expression placed (by omega))
  intro _
  refine .bind (.speculate (annotatedStatement_gives serves placed room)) ?_
  rintro (_ | p) b₁ given
  · cases given
    exact serves.expression placed (by omega)
  · exact .pure given

theorem statement_gives (serves : Serves recur limit) (placed : b.Placed) (room : 4 * b.remaining + 3 ≤ limit) :
    Ensures scope (statement recur) b (Gives Ordinary b) := by
  refine .bind (declaration_perhaps serves placed (by omega)) ?_
  rintro (_ | p) b₁ given
  · cases given
    exact expressionStatement_gives serves placed room
  · exact .pure given

end KotlinSyntax.Grammar
