import KotlinSyntax.Grammar.Expression
import KotlinSyntax.Proofs.Apart.Declaration
import KotlinSyntax.Proofs.Plan.Building.Expression

/-! The rules of expressions and statements build lawful nodes. -/
namespace KotlinSyntax.Grammar

open Builder

variable {scope : Scope} {ts : List Token} {b₀ b : Builder} {m : Marker} {p : Parsed} {recur : Recur}

/-! Branches, loops and jumps. -/

theorem labelInto_extends (h : Covers ts b₀ b m) : Extends ts scope (labelInto m) b₀ b :=
  .look <| .ite (fun _ => .bind h.advance fun _ _ on => on.expectName) fun _ => .pure h

theorem jump_finds {kind : RawKind} (sited : b.Over ts) (free : kind.isFree = true) : Finds ts scope (jump kind) b b :=
  .bind (Covers.start sited).advance fun _ _ on => .bind (labelInto_extends on) fun _ _ on => on.done free

theorem superExpression_finds (abides : Abides ts recur) (sited : b.Over ts) :
    Finds ts scope (superExpression recur) b b := by
  have type {m : Marker} {b₁ : Builder} (on : Covers ts b b₁ m) : Extends ts scope (superTypeInto recur m) b b₁ :=
    .look <| .ite
      (fun _ => .bind on.advance fun _ _ on => .bind (abides _ _ _ on.sited) fun _ _ given => (on.add given).expect)
      fun _ => .pure on
  exact .bind (Covers.start sited).advance fun _ _ on =>
    .bind (type on) fun _ _ on => .bind (labelInto_extends on) fun _ _ on => on.done rfl

theorem throwExpression_finds (abides : Abides ts recur) (sited : b.Over ts) :
    Finds ts scope (throwExpression recur) b b :=
  .bind (Covers.start sited).advance fun _ _ on =>
  .bind (abides _ _ _ on.sited) fun _ _ given => (on.add given).done rfl

theorem returnExpression_finds (abides : Abides ts recur) (sited : b.Over ts) :
    Finds ts scope (returnExpression recur) b b :=
  .bind (Covers.start sited).advance fun _ _ on =>
  .bind (labelInto_extends on) fun _ _ on =>
  .look <| .ite (fun _ => .bind (abides _ _ _ on.sited) fun _ _ given => (on.add given).done rfl) fun _ => on.done rfl

/-- Without a body nothing is taken. -/
theorem emptyBody_finds {what : String} (h : Covers ts b₀ b m) : Yields scope (emptyBody m what) b
    (Maybe (Held ts b₀) fun b' => b' = b) :=
  .look <| .ite (fun _ => .note (.map (h.done rfl))) fun _ => .pure rfl

/-- The body of a branch or a loop ends it. -/
theorem loopBody_finds (abides : Abides ts recur) {what : String} {kind : RawKind} (h : Covers ts b₀ b m)
    (free : kind.isFree = true) : Finds ts scope (loopBody recur m what kind) b₀ b := by
  refine .bind (emptyBody_finds h) ?_
  rintro (_ | empty) b' given
  · obtain rfl : b' = b := given
    exact .bind (controlBody_finds abides h.sited) fun _ _ given => (h.add given).done free
  · exact .pure given

theorem conditionInto_extends (abides : Abides ts recur) (h : Covers ts b₀ b m) :
    Extends ts scope (conditionInto recur m) b₀ b :=
  .withTrailingLambdas <| .bind h.expect fun _ _ on =>
    .bind (abides _ _ _ on.sited) fun _ _ given => (on.add given).expect

theorem ifExpression_finds (abides : Abides ts recur) (sited : b.Over ts) :
    Finds ts scope (ifExpression recur) b b := by
  refine .bind (Covers.start sited).advance fun _ _ on =>
    .bind (conditionInto_extends abides on) fun m b₁ on => .bind (emptyBody_finds on) ?_
  rintro (_ | empty) b₂ given
  · obtain rfl : b₂ = b₁ := given
    refine .bind (controlBody_finds abides on.sited) fun _ _ given => .look (.ite (fun _ => ?_) fun _ => ?_)
    · exact .bind (on.add given).advance fun _ _ on => loopBody_finds abides on rfl
    · exact (on.add given).done rfl
  · exact .pure given

theorem whenCondition_finds (abides : Abides ts recur) (sited : b.Over ts) :
    Finds ts scope (whenCondition recur) b b := by
  refine .look (.ite (fun _ => ?_) fun _ => .ite (fun _ => ?_) fun _ => ?_)
  · exact .bind (Covers.start sited).advance fun _ _ on =>
      .bind (abides _ _ _ on.sited) fun _ _ given => (on.add given).done rfl
  · exact .bind (Covers.start sited).advance fun _ _ on =>
      .bind (abides _ _ _ on.sited) fun _ _ given => (on.add given).done rfl
  · exact .bind (abides _ _ _ sited) fun _ _ given => ((Covers.start sited).add given).done rfl

theorem whenEntry_finds (abides : Abides ts recur) (sited : b.Over ts) : Finds ts scope (whenEntry recur) b b := by
  have conditions : Extends ts scope (whenConditions recur) b b :=
    .look <| .ite (fun _ => (Covers.start sited).advance) fun _ =>
      (Covers.start sited).commaList fun _ sited => whenCondition_finds abides sited
  exact .bind conditions fun _ _ on =>
    .bind on.expect fun _ _ on =>
    .bind (controlBody_finds abides on.sited) fun _ _ given => (on.add given).done rfl

theorem whenExpression_finds (abides : Abides ts recur) (sited : b.Over ts) :
    Finds ts scope (whenExpression recur) b b := by
  have subject (b : Builder) (sited : b.Over ts) : Finds ts scope (whenSubject recur) b b :=
    .look <| .ite (fun _ => propertyDeclaration_finds abides (.start sited)) fun _ => abides _ _ _ sited
  refine .bind (Covers.start sited).advance fun _ _ on =>
    .bind (R := fun m b₁ => Covers ts b b₁ m) (.look (.ite (fun _ => ?_) fun _ => .pure on)) fun _ _ on =>
    .bind on.expect fun _ _ on =>
    .bind (on.iterateWhile fun _ _ on => on.recovering (whenEntry_finds abides on.sited)) fun _ _ on =>
    .bind on.expect fun _ _ on => on.done rfl
  exact .bind on.advance fun _ _ on => .bind (subject _ on.sited) fun _ _ given => (on.add given).expect

theorem tryExpression_finds (abides : Abides ts recur) (sited : b.Over ts) :
    Finds ts scope (tryExpression recur) b b := by
  have clause (b : Builder) (sited : b.Over ts) : Finds ts scope (catchClause recur) b b :=
    .bind (Covers.start sited).advance fun _ _ on =>
    .bind (valueParameters_finds abides on.sited) fun _ _ given =>
    .bind (block_finds abides given.sited) fun _ _ body => ((on.add given).add body).done rfl
  exact .bind (Covers.start sited).advance fun _ _ on =>
    .bind (block_finds abides on.sited) fun _ _ given =>
    .bind ((on.add given).iterateWhile fun _ _ on => on.addRule (clause _ on.sited)) fun _ _ on =>
    .look <| .ite
      (fun _ => .bind on.advance fun _ _ on =>
        .bind (block_finds abides on.sited) fun _ _ given => (on.add given).done rfl)
      fun _ => on.done rfl

theorem forLoop_finds (abides : Abides ts recur) (sited : b.Over ts) : Finds ts scope (forLoop recur) b b :=
  .bind (Covers.start sited).advance fun _ _ on =>
  .bind on.expect fun _ _ on =>
  .bind (lambdaParameter_finds abides on.sited) fun _ _ given =>
  .bind (on.add given).expect fun _ _ on =>
  .bind (abides _ _ _ on.sited) fun _ _ given =>
  .bind (on.add given).expect fun _ _ on => loopBody_finds abides on rfl

theorem whileLoop_finds (abides : Abides ts recur) (sited : b.Over ts) : Finds ts scope (whileLoop recur) b b :=
  .bind (Covers.start sited).advance fun _ _ on =>
  .bind (conditionInto_extends abides on) fun _ _ on => loopBody_finds abides on rfl

theorem doWhileLoop_finds (abides : Abides ts recur) (sited : b.Over ts) : Finds ts scope (doWhileLoop recur) b b :=
  .bind (Covers.start sited).advance fun _ _ on =>
  .bind (controlBody_finds abides on.sited) fun _ _ given =>
  .bind (on.add given).expect fun _ _ on =>
  .bind (conditionInto_extends abides on) fun _ _ on => on.done rfl

theorem keywordExpression_finds (abides : Abides ts recur) (word : String) (sited : b.Over ts) :
    Finds ts scope (keywordExpression recur word) b b := by
  unfold keywordExpression
  split
  · exact token_finds sited
  · exact token_finds sited
  · exact token_finds sited
  · exact jump_finds sited rfl
  · exact superExpression_finds abides sited
  · exact ifExpression_finds abides sited
  · exact whenExpression_finds abides sited
  · exact tryExpression_finds abides sited
  · exact forLoop_finds abides sited
  · exact whileLoop_finds abides sited
  · exact doWhileLoop_finds abides sited
  · exact throwExpression_finds abides sited
  · exact returnExpression_finds abides sited
  · exact jump_finds sited rfl
  · exact jump_finds sited rfl
  · exact classDeclaration_finds abides (.start sited)
  · exact functionDeclaration_finds abides (.start sited)
  · exact .reject

/-! Primary expressions. -/

theorem stringPart_extends (abides : Abides ts recur) (h : Covers ts b₀ b m) :
    Extends ts scope (stringPart recur m) b₀ b := by
  have short : Finds ts scope shortTemplate b b := .bind (Covers.start h.sited).advanceTwice fun _ _ on => on.done rfl
  have long : Finds ts scope (longTemplate recur) b b :=
    .bind (Covers.start h.sited).advance fun _ _ on =>
    .bind (.withTrailingLambdas (abides _ _ _ on.sited)) fun _ _ given =>
    .bind (on.add given).expectKind fun _ _ on => on.done rfl
  exact .look <| .ite (fun _ => h.addRule short) fun _ => .ite (fun _ => h.addRule long) fun _ =>
    .ite (fun _ => h.advance) fun _ => .reject

theorem stringTemplate_finds (abides : Abides ts recur) (sited : b.Over ts) :
    Finds ts scope (stringTemplate recur) b b :=
  .bind (Covers.start sited).advance fun _ _ on =>
  .bind (on.iterateWhile fun _ _ on => stringPart_extends abides on) fun _ _ on =>
  .bind on.advance fun _ _ on => on.done rfl

theorem callableReference_finds (h : Covers ts b₀ b m) : Finds ts scope (callableReference m) b₀ b :=
  .bind h.advance fun _ _ on =>
  .look <| .ite (fun _ => .bind on.advance fun _ _ on => on.done rfl) fun _ =>
    .bind on.expectName fun _ _ on => on.done rfl

theorem nameExpression_finds (abides : Abides ts recur) (sited : b.Over ts) :
    Finds ts scope (nameExpression recur) b b := by
  have receiver : Finds ts scope (typeReceiver recur) b b :=
    .bind (userType_finds abides sited) fun _ _ given => .look <| .ite (fun _ => .pure given) fun _ => .reject
  refine .look (.ite (fun _ => .bind (.speculate receiver) ?_) fun _ => token_finds sited)
  rintro (_ | type) b' given
  · obtain rfl : b' = b := given
    exact token_finds sited
  · exact callableReference_finds given

theorem collectionLiteral_finds (abides : Abides ts recur) (sited : b.Over ts) :
    Finds ts scope (collectionLiteral recur) b b :=
  .withTrailingLambdas <|
  .bind (Covers.start sited).advance fun _ _ on =>
  .bind (on.commaList fun _ sited => abides _ _ _ sited) fun _ _ on =>
  .bind on.expect fun _ _ on => on.done rfl

theorem bracketExpression_finds (abides : Abides ts recur) (text : String) (sited : b.Over ts) :
    Finds ts scope (bracketExpression recur text) b b := by
  have parenthesized : Finds ts scope (parenthesized recur) b b :=
    .withTrailingLambdas <| .bind (Covers.start sited).advance fun _ _ on =>
      .bind (abides _ _ _ on.sited) fun _ _ given => .bind (on.add given).expect fun _ _ on => on.done rfl
  have number : Finds ts scope dotNumber b b :=
    .look <| .ite (fun _ => .bind (Covers.start sited).advanceTwice fun _ _ on => on.done rfl) fun _ => .reject
  exact .ite (fun _ => parenthesized) fun _ => .ite (fun _ => lambda_finds abides sited) fun _ =>
    .ite (fun _ => collectionLiteral_finds abides sited) fun _ =>
    .ite (fun _ => callableReference_finds (.start sited)) fun _ => .ite (fun _ => number) fun _ => .reject

theorem primary_finds (abides : Abides ts recur) (sited : b.Over ts) : Finds ts scope (primary recur) b b := by
  refine .look ?_
  split
  · exact .reject
  · split
    · exact nameExpression_finds abides sited
    · exact token_finds sited
    · exact token_finds sited
    · exact token_finds sited
    · exact stringTemplate_finds abides sited
    · exact keywordExpression_finds abides _ sited
    · exact bracketExpression_finds abides _ sited
    · exact .reject

/-! Suffixes. -/

abbrev Goes (ts : List Token) (scope : Scope) (g : Grammar (Turn Parsed)) (b₀ b : Builder) : Prop :=
  Yields scope g b (Turning (Held ts b₀) (Held ts b₀))

theorem again_goes {g : Grammar Parsed} (h : Finds ts scope g b₀ b) : Goes ts scope (do return .again (← g)) b₀ b :=
  .bind h fun _ _ given => .pure given

/-- A loop over operands gives an operand. -/
theorem operands_find {step : Parsed → Grammar (Turn Parsed)} (start : Held ts b₀ p b)
    (each : ∀ p b, Held ts b₀ p b → Goes ts scope (step p) b₀ b) : Finds ts scope (iterate step p) b₀ b :=
  .iterate (I := Held ts b₀) start each

theorem semicolonBefore_of_unbroken (unbroken : b.separatedBefore = false) : b.semicolonBefore = false :=
  (Bool.or_eq_false_iff.mp unbroken).2

/-- On the line of the operand every operator may stand. -/
theorem leads_of_unbroken {P : Prop} (unbroken : b.separatedBefore = false) : b.newlineBefore = true → P :=
  fun ends => absurd ends (by rw [(Bool.or_eq_false_iff.mp unbroken).1]; decide)

/-- The next token is joined to the operand on its line. -/
theorem take_operates (given : Held ts b₀ p b) (unbroken : b.separatedBefore = false) :
    Yields scope (advance (.ofParsed p)) b fun m b' => Operates ts b₀ b' m :=
  (take_gains given.sited).mono fun _ _ after =>
    .ofGains given after (semicolonBefore_of_unbroken unbroken) (leads_of_unbroken unbroken)

/-- The operator is joined to the operand where it may stand behind what separates the two. -/
theorem advanceGlued_operates {ops : List String} (given : Held ts b₀ p b) (stands : 0 < b.operatorsCount ops)
    (whole : b.semicolonBefore = false) (leads : b.newlineBefore = true → ∀ op ∈ ops, op ∈ lineOperators) :
    Yields scope (advanceGlued (.ofParsed p) (b.operatorsCount ops)) b fun m b' => Operates ts b₀ b' m :=
  (advanceGlued_gains given.sited stands).mono fun _ _ after =>
    .ofGains given after whole fun ends t member => leads ends t.text member

theorem trailingLambda_offers (abides : Abides ts recur) {hasArguments : Bool} (sited : b.Over ts) :
    Yields scope (trailingLambda recur hasArguments) b (Offered ts b) := by
  have argument : Finds ts scope (lambdaArgument recur) b b :=
    .bind (annotationSetsInto_extends abides (.start sited)) fun _ _ on =>
    .bind on.advanceTwiceIf fun _ _ on =>
    .bind (lambda_finds abides on.sited) fun _ _ given => (on.add given).done rfl
  refine .look (.surroundings fun _ => .ite (fun _ => .bind atLambdaArgument_yields ?_) fun _ => none_offers sited)
  rintro found _ ⟨rfl, _⟩
  exact .ite (fun _ => some_offers argument) fun _ => none_offers sited

theorem callTypeArguments_offers (abides : Abides ts recur) (sited : b.Over ts) :
    Yields scope (callTypeArguments recur) b (Offered ts b) :=
  .look <| .ite
    (fun _ => speculate_offers sited <| .bind (typeArguments_finds abides sited) fun _ _ given =>
      .look <| .ite (fun _ => .pure given) fun _ => .reject)
    fun _ => none_offers sited

theorem callArguments_offers (abides : Abides ts recur) (sited : b.Over ts) :
    Yields scope (callArguments recur) b (Offered ts b) :=
  .look <| .ite (fun _ => some_offers (valueArguments_finds abides sited)) fun _ => none_offers sited

inductive Suffixed (ts : List Token) (b₀ : Builder) (p : Parsed) : Bool → Builder → Marker → Prop
  | callee {b : Builder} (operand : Held ts b₀ p b) (unbroken : b.separatedBefore = false) :
      Suffixed ts b₀ p false b (.ofParsed p)
  | call {b : Builder} {m : Marker} (on : Operates ts b₀ b m) : Suffixed ts b₀ p true b m

theorem Suffixed.covers {called : Bool} (h : Suffixed ts b₀ p called b m) : Covers ts b₀ b m := by
  cases h with
  | callee operand => exact operand
  | call on => exact on.toCovers

/-- What is added first makes the call. -/
theorem Suffixed.add? {called : Bool} {x : Option Parsed} {b' : Builder} (h : Suffixed ts b₀ p called b m)
    (given : Offered ts b x b') : Suffixed ts b₀ p (called || x.isSome) b' (m.add? x) := by
  cases h with
  | call on => exact .call (on.add? given)
  | callee operand unbroken =>
    cases x with
    | none =>
      have same : b'.separatedBefore = b.separatedBefore := by
        rw [separatedBefore_eq, separatedBefore_eq, operand.sited.gap_of_left given.1 given.2]
      exact .callee (operand.move given.1 given.2) (same.trans unbroken)
    | some q =>
      exact .call (.start operand given (semicolonBefore_of_unbroken unbroken) (leads_of_unbroken unbroken))

/-- Without a suffix the callee is all there is. -/
theorem callSuffix_offers (abides : Abides ts recur) (callee : Held ts b₀ p b) : Yields scope (callSuffix recur p) b
    (Maybe (Held ts b₀) (Held ts b₀ p)) := by
  refine .look (.ite (fun _ => .pure callee) fun whole => ?_)
  have on : Suffixed ts b₀ p false b (.ofParsed p) := .callee callee (by simpa using whole)
  refine .bind (callTypeArguments_offers abides callee.sited) fun types b₁ given => ?_
  have on := on.add? given
  refine .bind (callArguments_offers abides on.covers.sited) fun args b₂ given => ?_
  have on := on.add? given
  refine .bind (trailingLambda_offers abides on.covers.sited) fun lambda b₃ given => ?_
  have on := on.add? given
  refine .ite (fun bare => ?_) fun some => ?_
  · simp only [Bool.and_eq_true, Option.isNone_iff_eq_none] at bare
    obtain ⟨⟨rfl, rfl⟩, rfl⟩ := bare
    exact .pure on.covers
  · have called : (false || types.isSome || args.isSome || lambda.isSome) = true := by
      cases types <;> cases args <;> cases lambda <;> first | rfl | exact absurd rfl some
    rw [called] at on
    cases on with
    | call on => exact .map (on.done rfl)

theorem callTurn_goes (abides : Abides ts recur) (given : Held ts b₀ p b) : Goes ts scope (callTurn recur p) b₀ b := by
  refine .bind (callSuffix_offers abides given) ?_
  rintro (_ | call) b' after
  · exact .pure after
  · exact .pure after

theorem memberSelector_finds (abides : Abides ts recur) (sited : b.Over ts) :
    Finds ts scope (memberSelector recur) b b := by
  have name : Finds ts scope memberName b b := .look <| .ite (fun _ => token_finds sited) fun _ => .reject
  exact .bind name fun _ _ given => operands_find given fun _ _ given =>
    .look <| .ite (fun _ => .pure given) fun _ => callTurn_goes abides given

/-- The bracket stands on the line of the target. -/
theorem arrayAccess_finds (abides : Abides ts recur) (given : Held ts b₀ p b) (unbroken : b.separatedBefore = false) :
    Finds ts scope (arrayAccess recur p) b₀ b :=
  .withTrailingLambdas <|
  .bind (take_operates given unbroken) fun _ _ on =>
  .bind (on.commaList fun _ sited => abides _ _ _ sited) fun _ _ on =>
  .bind on.expect fun _ _ on => on.done rfl

theorem nullableLiteral_finds (given : Held ts b₀ p b) : Finds ts scope (nullableLiteral p) b₀ b :=
  .bind given.advanceTwice fun _ _ on => .bind on.advanceIf fun _ _ on => on.done rfl

theorem postfixTurn_goes (abides : Abides ts recur) (given : Held ts b₀ p b) (unbroken : b.separatedBefore = false) :
    Goes ts scope (postfixTurn recur p) b₀ b := by
  refine .look (.ite (fun _ => ?_) fun _ => .ite (fun _ => ?_) fun _ => .ite (fun _ => ?_) fun _ =>
    .ite (fun _ => ?_) fun _ => callTurn_goes abides given)
  · exact .bind (take_operates given unbroken) fun _ _ on => again_goes (on.done rfl)
  · exact again_goes (arrayAccess_finds abides given unbroken)
  · exact again_goes (callableReference_finds given)
  · exact again_goes (nullableLiteral_finds given)

/-- An operator between two operands. -/
theorem operation_goes {ops : List String} {kind : RawKind} {operand : Grammar Parsed} (given : Held ts b₀ p b)
    (stands : 0 < b.operatorsCount ops) (whole : b.semicolonBefore = false)
    (leads : b.newlineBefore = true → ∀ op ∈ ops, op ∈ lineOperators) (operation : kind.isOperation = true)
    (each : ∀ b, b.Over ts → Finds ts scope operand b b) : Goes ts scope (do
      let m ← advanceGlued (.ofParsed p) (b.operatorsCount ops)
      return .again (← done (m.add (← operand)) kind)) b₀ b :=
  .bind (advanceGlued_operates given stands whole leads) fun _ _ on =>
  .bind (each _ on.sited) fun _ _ given => again_goes ((on.add given).done operation)

theorem postfixChain_finds (abides : Abides ts recur) (sited : b.Over ts) :
    Finds ts scope (postfixChain recur) b b := by
  refine .bind (primary_finds abides sited) fun _ _ given => operands_find given fun _ _ given => ?_
  refine .look (.ite (fun _ => .pure given) fun whole => .ite (fun dot => ?_) fun _ => .ite (fun _ => .pure given)
    fun line => postfixTurn_goes abides given ?_)
  · exact operation_goes given dot (by simpa using whole) (fun _ => by decide) rfl fun _ sited =>
      memberSelector_finds abides sited
  · exact Bool.or_eq_false_iff.mpr ⟨by simpa using line, by simpa using whole⟩

/-! Levels. -/

theorem unary_finds (abides : Abides ts recur) (sited : b.Over ts) : Finds ts scope (unary recur) b b := by
  refine .look (.ite (fun _ => ?_) fun _ => .ite (fun _ => ?_) fun _ => .ite (fun _ => ?_) fun _ =>
    postfixChain_finds abides sited)
  · exact .bind (Covers.start sited).advance fun _ _ on =>
      .bind (abides _ _ _ on.sited) fun _ _ given => (on.add given).done rfl
  · exact .bind (annotationSetsInto_extends abides (.start sited)) fun _ _ on =>
      .bind (abides _ _ _ on.sited) fun _ _ given => (on.add given).done rfl
  · exact .bind (Covers.start sited).advanceTwice fun _ _ on =>
      .bind (abides _ _ _ on.sited) fun _ _ given => (on.add given).done rfl

/-- Only operators that may begin a line are looked for across its end. -/
theorem binaryLevel_finds {ops : List String} {crossesNewline : Bool} {operand : Grammar Parsed}
    (line : crossesNewline = true → ∀ op ∈ ops, op ∈ lineOperators)
    (each : ∀ b, b.Over ts → Finds ts scope operand b b) (sited : b.Over ts) :
    Finds ts scope (binaryLevel ops crossesNewline operand) b b := by
  refine .bind (each b sited) fun _ b' given => operands_find given fun _ b' given => ?_
  refine .look (.ite (fun _ => .pure given) fun stands => ?_)
  simp only [Bool.or_eq_true, Bool.and_eq_true, Bool.not_eq_true', decide_eq_true_eq, not_or, not_and,
    Bool.not_eq_true] at stands
  obtain ⟨⟨stands, whole⟩, apart⟩ := stands
  refine operation_goes given (Nat.pos_of_ne_zero stands) whole (fun ends => line ?_) rfl each
  by_contra same
  rw [apart (by simpa using same)] at ends
  cases ends

theorem castLevel_finds (abides : Abides ts recur) (sited : b.Over ts) : Finds ts scope (castLevel recur) b b := by
  refine .bind (abides _ _ _ sited) fun _ _ given => operands_find given fun _ _ given => ?_
  refine .look (.ite (fun _ => .pure given) fun stands => ?_)
  simp only [Bool.or_eq_true, decide_eq_true_eq, not_or, Bool.not_eq_true] at stands
  exact operation_goes given (Nat.pos_of_ne_zero stands.1) stands.2 (fun _ => by decide) rfl fun _ sited =>
    abides _ _ _ sited

theorem range_finds (abides : Abides ts recur) (sited : b.Over ts) : Finds ts scope (range recur) b b :=
  binaryLevel_finds nofun (fun _ => binaryLevel_finds nofun fun _ => binaryLevel_finds nofun fun _ =>
    castLevel_finds abides) sited

theorem elvis_finds (abides : Abides ts recur) (sited : b.Over ts) : Finds ts scope (elvis recur) b b := by
  have named (b : Builder) (sited : b.Over ts) : Finds ts scope (namedLevel recur) b b := by
    refine .bind (range_finds abides sited) fun _ _ given => (Yields.iterateWhile given fun _ _ given name => ?_).mono
      fun _ _ after => after.1
    simp only [Bool.and_eq_true, Bool.not_eq_true'] at name
    exact .bind (take_operates given name.2) fun _ _ on =>
      .bind (range_finds abides on.sited) fun _ _ given => (on.add given).done rfl
  exact binaryLevel_finds (fun _ => by decide) named sited

theorem testLevel_finds (abides : Abides ts recur) (sited : b.Over ts) : Finds ts scope (testLevel recur) b b := by
  refine .bind (elvis_finds abides sited) fun _ _ given => operands_find given fun _ _ given => ?_
  refine .look (.ite (fun _ => .pure given) fun unbroken => .ite (fun _ => ?_) fun _ => .ite (fun _ => ?_) fun _ =>
    .pure given)
  all_goals simp only [Bool.not_eq_true] at unbroken
  · exact .bind (take_operates given unbroken) fun _ _ on =>
      .bind (abides _ _ _ on.sited) fun _ _ given => again_goes ((on.add given).done rfl)
  · exact .bind (take_operates given unbroken) fun _ _ on =>
      .bind (elvis_finds abides on.sited) fun _ _ given => again_goes ((on.add given).done rfl)

theorem disjunction_finds (abides : Abides ts recur) (sited : b.Over ts) : Finds ts scope (disjunction recur) b b :=
  binaryLevel_finds (fun _ => by decide) (fun _ => binaryLevel_finds (fun _ => by decide) fun _ =>
    binaryLevel_finds nofun fun _ => binaryLevel_finds nofun fun _ => testLevel_finds abides) sited

theorem expression_finds (abides : Abides ts recur) (sited : b.Over ts) : Finds ts scope (expression recur) b b := by
  refine .bind (disjunction_finds abides sited) fun _ _ given => .look (.ite (fun _ => .pure given) fun stands => ?_)
  simp only [Bool.or_eq_true, decide_eq_true_eq, not_or, Bool.not_eq_true] at stands
  exact .bind (advanceGlued_operates given (Nat.pos_of_ne_zero stands.1) (semicolonBefore_of_unbroken stands.2)
      (leads_of_unbroken stands.2)) fun _ _ on =>
    .bind (abides _ _ _ on.sited) fun _ _ given => (on.add given).done rfl

/-! Statements. -/

theorem expressionStatement_finds (abides : Abides ts recur) (sited : b.Over ts) :
    Finds ts scope (expressionStatement recur) b b := by
  have annotated : Finds ts scope (annotatedStatement recur) b b :=
    .bind (annotationSetsInto_extends abides (.start sited)) fun _ _ on =>
    .look <| .ite (fun _ => .bind (abides _ _ _ on.sited) fun _ _ given => (on.add given).done rfl) fun _ => .reject
  refine .look (.ite (fun _ => .bind (.speculate annotated) ?_) fun _ => abides _ _ _ sited)
  rintro (_ | p) b' given
  · obtain rfl : b' = b := given
    exact abides _ _ _ sited
  · exact .pure given

theorem statement_finds (abides : Abides ts recur) (sited : b.Over ts) : Finds ts scope (statement recur) b b := by
  refine .bind (declaration_offers abides sited) ?_
  rintro (_ | p) b' given
  · exact (expressionStatement_finds abides given.1).mono fun _ _ statement => statement.moveOrigin sited given.2
  · exact .pure given

end KotlinSyntax.Grammar
