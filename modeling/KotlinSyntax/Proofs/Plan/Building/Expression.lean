import KotlinSyntax.Grammar.Expression
import KotlinSyntax.Proofs.Grammar.Expression
import KotlinSyntax.Proofs.Plan.Building.Control

/-! The rules of expressions build along the plans of their kinds. -/
namespace KotlinSyntax.Grammar

open Builder

variable {scope : Scope} {b : Builder} {m : Marker} {whole p : Plan} {t : Token} {x : Parsed} {recur : Recur}

/-! Strings. -/

/-- The marks around templates are spelled in one way each. -/
theorem faces_of_mark {kind : TokenKind} {text : String} (ready : b.Ready) (seen : b.seesKind kind = true)
    (mark : (kind, text) ∈ [(.shortTemplateStart, "$"), (.longTemplateStart, "$\x7b"), (.longTemplateEnd, "\x7d")]) :
    Faces b 0 (Plan.wordsCell [text]) := by
  obtain ⟨t, peeked, rfl⟩ := peek_of_seesKind seen
  have proper := proper_of_peek ready.placed peeked
  have spelled : t.text = text := by
    simp only [List.mem_cons, List.not_mem_nil, Prod.mk.injEq, or_false] at mark
    rcases mark with ⟨kind, rfl⟩ | ⟨kind, rfl⟩ | ⟨kind, rfl⟩ <;> simpa [Token.isProper, kind] using proper
  exact .wordOfPeek peeked (by simp [Plan.wordsCell, spelled])

theorem shortTemplate_yields (seen : b.seesKind .shortTemplateStart = true) :
    Produces scope shortTemplate b Plan.stringPartCell := by
  refine .whenReady fun ready => ?_
  obtain ⟨t, peeked, kind⟩ := peek_of_seesKind seen
  obtain ⟨u, ahead, _, word⟩ := name_of_shortTemplateStart ready.placed peeked kind
  refine .bind ((Awaits.new .shortTemplate).advanceTwice (faces_of_mark ready seen (by decide)) ⟨u, ahead, fun _ => ?_⟩)
    fun _ _ on => on.done rfl
  rcases word with is | is <;> simp [Cell.takes, is]

theorem longTemplate_yields (keeps : Keeps recur) (seen : b.seesKind .longTemplateStart = true) :
    Produces scope (longTemplate recur) b Plan.stringPartCell := by
  have closed {m : Marker} {b : Builder} (on : Awaits (Plan.ofKind .longTemplate) [Plan.word "\x7d"] m) :
      Leads scope (expectKind m .longTemplateEnd "'\x7d'") b (Plan.ofKind .longTemplate) [] :=
    .whenReady fun ready => .look <|
      .ite (fun closing => on.advance (faces_of_mark ready closing (by decide))) fun _ => .reject
  exact .whenReady fun ready =>
    .bind ((Awaits.new .longTemplate).advance (faces_of_mark ready seen (by decide))) fun _ _ on =>
    .bind (.withTrailingLambdas keeps.expression) fun _ _ fills =>
    .bind (closed (on.add fills)) fun _ _ on => on.done rfl

theorem stringPart_leads (keeps : Keeps recur) (h : Awaits whole (.cell Plan.stringPartCell :: p) m) :
    Leads scope (stringPart recur m) b whole p := by
  refine .look (.ite (fun short => ?_) fun _ => .ite (fun long => ?_) fun _ => .ite (fun text => ?_) fun _ => .reject)
  · exact .bind (shortTemplate_yields short) fun _ _ fills => .pure (h.add fills)
  · exact .bind (longTemplate_yields keeps long) fun _ _ fills => .pure (h.add fills)
  · rcases Bool.or_eq_true_iff.mp text with is | is
    · exact h.advance (.ofKind is rfl)
    · exact h.advance (.ofKind is rfl)

theorem stringTemplate_yields (keeps : Keeps recur) (seen : b.seesKind .openQuote = true) :
    Produces scope (stringTemplate recur) b Plan.operandCell := by
  refine .bind ((Awaits.new .stringTemplate).advance (.ofKind seen rfl)) fun _ _ on =>
    .bind (on.iterateWhile fun _ _ on _ => stringPart_leads keeps on) ?_
  rintro _ _ ⟨on, closing⟩
  exact .bind (on.advance (.ofKind (by simpa using closing) rfl)) fun _ _ on => on.done rfl

/-! Names. -/

/-- What follows the two colons tells which of two kinds the node is of. -/
theorem callableReference_yields
    (member : Awaits (Plan.ofKind .callableReferenceExpression) [Plan.word "::", Plan.name] m)
    (literal : Awaits (Plan.ofKind .classLiteralExpression) [Plan.word "::", Plan.word "class"] m)
    (seen : b.sees "::" = true) : Produces scope (callableReference m) b Plan.operandCell := by
  refine .bind ((member.advance (.word seen rfl)).and (literal.advance (.word seen rfl))) ?_
  rintro m b ⟨member, literal⟩
  refine .look (.ite (fun word => ?_) fun _ => ?_)
  · exact .bind (literal.advance (.word word rfl)) fun _ _ on => on.done rfl
  · exact .bind member.expectName fun _ _ on => on.done rfl

theorem referenceOf_yields (fills : Fills Plan.receiverCell x) (seen : b.sees "::" = true) :
    Produces scope (callableReference (.ofParsed x)) b Plan.operandCell :=
  callableReference_yields ((Awaits.new .callableReferenceExpression).left.begin fills)
    ((Awaits.new .classLiteralExpression).left.begin fills) seen

theorem nameExpression_yields (keeps : Keeps recur) (seen : b.peek = some t) (name : t.kind = .identifier) :
    Produces scope (nameExpression recur) b Plan.operandCell := by
  have plain : Produces scope token b Plan.operandCell := token_yields (.atom seen (by rw [name]; rfl) rfl)
  have receiver : Yields scope (speculate (typeReceiver recur)) b (Maybe (fun x b' =>
      Fills (Plan.nodesCell [.userType]) x ∧ b'.sees "::" = true) (· = b)) :=
    .speculate <| .bind (userType_yields keeps) fun _ _ fills =>
      .look <| .ite (fun colons => .pure ⟨fills, (Bool.and_eq_true_iff.mp colons).1⟩) fun _ => .reject
  refine .look (.ite (fun _ => .bind receiver ?_) fun _ => plain)
  rintro (_ | type) b' after
  · obtain rfl : b' = b := after
    exact plain
  · exact referenceOf_yields (after.1.widen (by decide)) after.2

/-! Brackets. -/

theorem parenthesized_yields (keeps : Keeps recur) (seen : b.sees "(" = true) :
    Produces scope (parenthesized recur) b Plan.operandCell :=
  .withTrailingLambdas <|
  .bind ((Awaits.new .parenthesized).advance (.word seen rfl)) fun _ _ on =>
  .bind keeps.expression fun _ _ fills =>
  .bind (on.add fills).expect fun _ _ on => on.done rfl

theorem collectionLiteral_yields (keeps : Keeps recur) (seen : b.sees "[" = true) :
    Produces scope (collectionLiteral recur) b Plan.operandCell :=
  .withTrailingLambdas <|
  .bind ((Awaits.new .collectionLiteralExpression).advance (.word seen rfl)) fun _ _ on =>
  .bind (on.commaList fun _ => keeps.expression) fun _ _ on =>
  .bind on.expect fun _ _ on => on.done rfl

theorem dotNumber_yields (seen : b.peek = some t) : Produces scope dotNumber b Plan.operandCell := by
  refine .look (.ite (fun number => ?_) fun _ => .reject)
  obtain ⟨u, second, _⟩ := peek_of_seesKind (Bool.and_eq_true_iff.mp number).1
  exact .bind (Gathered.empty.advanceTwice seen second) fun _ _ gathered => gathered.refused rfl

theorem bracketExpression_yields (keeps : Keeps recur) (peeked : b.peek = some t) (operator : t.kind = .operator) :
    Produces scope (bracketExpression recur t.text) b Plan.operandCell := by
  have sees {text : String} (same : (t.text == text) = true) : b.sees text = true := by
    simp [Builder.sees, peeked, Token.spells, operator, beq_iff_eq.mp same]
  refine .ite (fun same => ?_) fun _ => .ite (fun _ => ?_) fun _ => .ite (fun same => ?_) fun _ =>
    .ite (fun same => ?_) fun _ => .ite (fun _ => dotNumber_yields peeked) fun _ => .reject
  · exact parenthesized_yields keeps (sees same)
  · exact (lambda_yields keeps).mono fun _ _ fills => fills.widen (by decide)
  · exact collectionLiteral_yields keeps (sees same)
  · exact callableReference_yields (Awaits.new .callableReferenceExpression).right
      (Awaits.new .classLiteralExpression).right (sees same)

theorem primary_yields (keeps : Keeps recur) : Produces scope (primary recur) b Plan.operandCell := by
  refine .look ?_
  split
  · exact .reject
  rename_i t seen
  have literal (atom : t.kind.isAtom = true) : Produces scope token b Plan.operandCell :=
    token_yields (.atom seen atom rfl)
  split <;> rename_i kind
  · exact nameExpression_yields keeps seen kind
  · exact literal (by rw [kind]; rfl)
  · exact literal (by rw [kind]; rfl)
  · exact literal (by rw [kind]; rfl)
  · exact stringTemplate_yields keeps (by simp [Builder.seesKind, seen, kind])
  · exact keywordExpression_yields keeps seen kind
  · exact bracketExpression_yields keeps seen kind
  · exact .reject

/-! Calls. -/

theorem atLambdaArgument_yields : Yields scope (atLambdaArgument recur) b fun found b' =>
    b' = b ∧ (found = true → BeforeLambda recur scope b) := by
  refine .look (.ite (fun brace => .pure ⟨rfl, fun _ => .inl brace⟩) fun _ => .ite (fun label => ?_) fun _ =>
    .ite (fun _ => ?_) fun _ => .pure ⟨rfl, nofun⟩)
  · simp only [Bool.and_eq_true] at label
    exact .pure ⟨rfl, fun _ => .inr (.inl label.1)⟩
  · refine Yields.lookahead.mono ?_
    rintro found _ ⟨rfl, tested⟩
    refine ⟨rfl, fun is => .inr (.inr ?_)⟩
    obtain ⟨_, _, gets⟩ := tested is
    obtain ⟨m, b', gets, behind⟩ := gets_of_bind gets
    refine ⟨m, b', gets, ?_⟩
    obtain ⟨_, _, looked, behind⟩ := gets_of_bind behind
    cases looked
    cases brace : b'.sees openBrace with
    | true => rfl
    | false =>
      rw [brace] at behind
      cases behind

theorem lambdaArgument_yields (keeps : Keeps recur) (before : BeforeLambda recur scope b) :
    Produces scope (lambdaArgument recur) b (Plan.nodesCell [.lambdaArgument]) := by
  refine .whenReady fun ready =>
    .bind (annotationSetsInto_leads keeps (.new .lambdaArgument)).gets ?_
  rintro m b' ⟨on, gets⟩
  refine .whenReady fun ready' => .bind (on.advanceTwiceIf (fun name => .name name rfl) fun name => ?_) fun _ _ on =>
    .bind (lambda_yields keeps) fun _ _ fills => (on.add fills).done rfl
  exact .word (before.labels ready.placed gets ready'.placed name) rfl

theorem callTypeArguments_yields (keeps : Keeps recur) : Yields scope (callTypeArguments recur) b fun x _ =>
    ∀ y ∈ x, Fills (Plan.nodesCell [.typeArgumentList]) y :=
  .look <| .ite
    (fun _ => speculate_yields <| .bind (typeArguments_yields keeps) fun _ _ fills =>
      .look <| .ite (fun _ => .pure fills) fun _ => .reject)
    fun _ => .pure nofun

theorem trailingLambda_yields (keeps : Keeps recur) {hasArguments : Bool} :
    Yields scope (trailingLambda recur hasArguments) b fun x _ =>
      ∀ y ∈ x, Fills (Plan.nodesCell [.lambdaArgument]) y := by
  refine .look (.surroundings fun _ => .ite (fun _ => .bind atLambdaArgument_yields ?_) fun _ => .pure nofun)
  rintro found _ ⟨rfl, before⟩
  exact .ite (fun is => some_yields (lambdaArgument_yields keeps (before is))) fun _ => .pure nofun

theorem callArguments_yields (keeps : Keeps recur) : Yields scope (callArguments recur) b fun x _ =>
    ∀ y ∈ x, Fills (Plan.nodesCell [.valueArgumentList]) y :=
  .look <| .ite (fun _ => some_yields (valueArguments_yields keeps)) fun _ => .pure nofun

theorem callSuffix_yields (keeps : Keeps recur) (callee : Fills Plan.operandCell x) :
    Yields scope (callSuffix recur x) b fun y _ => ∀ z ∈ y, Fills Plan.operandCell z :=
  .look <| .ite (fun _ => .pure nofun) fun _ =>
    .bind (callTypeArguments_yields keeps) fun _ _ types =>
    .bind (callArguments_yields keeps) fun _ _ args =>
    .bind (trailingLambda_yields keeps) fun _ _ lambda =>
    .ite (fun _ => .pure nofun) fun _ =>
    some_yields (((((Awaits.new .callExpression).begin callee).add? types).add? args).add? lambda |>.done rfl)

abbrev Turns (scope : Scope) (g : Grammar (Turn Parsed)) (b : Builder) : Prop :=
  Yields scope g b (Turning (fun x _ => Fills Plan.operandCell x) fun x _ => Fills Plan.operandCell x)

theorem again_turns {g : Grammar Parsed} (h : Produces scope g b Plan.operandCell) :
    Turns scope (do return .again (← g)) b :=
  .bind h fun _ _ fills => .pure fills

/-- A loop over operands gives an operand. -/
theorem operands_yield {step : Parsed → Grammar (Turn Parsed)} (start : Fills Plan.operandCell x)
    (each : ∀ x b, Fills Plan.operandCell x → Turns scope (step x) b) :
    Produces scope (iterate step x) b Plan.operandCell :=
  .iterate (I := fun x _ => Fills Plan.operandCell x) start each

theorem callTurn_turns (keeps : Keeps recur) (fills : Fills Plan.operandCell x) : Turns scope (callTurn recur x) b := by
  refine .bind (callSuffix_yields keeps fills) ?_
  rintro (_ | call) _ call
  · exact .pure fills
  · exact .pure (call _ rfl)

/-! Suffixes. -/

theorem memberSelector_yields (keeps : Keeps recur) : Produces scope (memberSelector recur) b Plan.operandCell := by
  have name : Produces scope memberName b Plan.operandCell := by
    refine .look (.ite (fun name => ?_) fun _ => .reject)
    obtain ⟨t, seen, kind⟩ := peek_of_seesKind name
    exact token_yields (.atom seen (by rw [kind]; rfl) rfl)
  refine .bind name fun _ _ fills => operands_yield fills fun _ _ fills => ?_
  exact .look <| .ite (fun _ => .pure fills) fun _ => callTurn_turns keeps fills

theorem arrayAccess_yields (keeps : Keeps recur) (fills : Fills Plan.operandCell x) (seen : b.sees "[" = true) :
    Produces scope (arrayAccess recur x) b Plan.operandCell :=
  .withTrailingLambdas <|
  .bind (((Awaits.new .arrayAccessExpression).begin fills).advance (.word seen rfl)) fun _ _ on =>
  .bind (on.commaList fun _ => keeps.expression) fun _ _ on =>
  .bind on.expect fun _ _ on => on.done rfl

theorem nullableLiteral_yields (fills : Fills Plan.operandCell x) (question : b.sees "?" = true)
    (colons : b.sees "::" 1 = true) : Produces scope (nullableLiteral x) b Plan.operandCell := by
  obtain ⟨t, first, _⟩ := peek_of_sees question
  obtain ⟨u, second, _⟩ := peek_of_sees colons
  refine .bind ((Gathered.ofParsed fills).advanceTwice first second) fun _ b gathered =>
    .bind (R := fun m _ => Gathered m) (.look (.ite (fun named => ?_) fun _ => .pure gathered)) fun _ _ gathered =>
    gathered.refused rfl
  have ahead : ∃ t, b.peek = some t := by
    rcases Bool.or_eq_true_iff.mp named with is | is
    · exact (peek_of_sees is).imp fun _ found => found.1
    · exact (peek_of_seesKind is).imp fun _ found => found.1
  obtain ⟨t, seen⟩ := ahead
  exact (gathered.advance seen).mono fun _ _ after => after.1

theorem postfixTurn_turns (keeps : Keeps recur) (fills : Fills Plan.operandCell x) :
    Turns scope (postfixTurn recur x) b := by
  refine .look (.ite (fun sign => ?_) fun _ => .ite (fun bracket => ?_) fun _ => .ite (fun colons => ?_) fun _ =>
    .ite (fun nullable => ?_) fun _ => callTurn_turns keeps fills)
  · exact .bind (((Awaits.new .postfixExpression).begin fills).advance (.wordOf sign (by decide))) fun _ _ on =>
      again_turns (on.done rfl)
  · exact again_turns (arrayAccess_yields keeps fills bracket)
  · exact again_turns (referenceOf_yields (fills.widen (by decide)) colons)
  · simp only [Bool.and_eq_true] at nullable
    exact again_turns (nullableLiteral_yields fills nullable.1.1 nullable.2)

/-- An operator between two operands. -/
theorem operation_turns {ops : List String} {operand : Grammar Parsed} (fills : Fills Plan.operandCell x)
    (stands : 0 < b.operatorsCount ops) (known : ops.all (Keyword.binaryOperators.contains ·) = true)
    (each : ∀ b, Produces scope operand b Plan.operandCell) : Turns scope (do
      let m ← advanceGlued (.ofParsed x) (b.operatorsCount ops)
      return .again (← done (m.add (← operand)) .binaryExpression)) b :=
  .bind (((Awaits.new .binaryExpression).begin fills).advanceGlued stands known) fun _ _ on =>
  .bind (each _) fun _ _ fills => again_turns ((on.add fills).done rfl)

theorem postfixChain_yields (keeps : Keeps recur) : Produces scope (postfixChain recur) b Plan.operandCell := by
  refine .bind (primary_yields keeps) fun _ _ fills => operands_yield fills fun _ _ fills => ?_
  refine .look (.ite (fun _ => .pure fills) fun _ => .ite (fun dot => ?_) fun _ =>
    .ite (fun _ => .pure fills) fun _ => ?_)
  · exact operation_turns fills dot (by decide) fun _ => memberSelector_yields keeps
  · exact postfixTurn_turns keeps fills

/-! Levels. -/

theorem unary_yields (keeps : Keeps recur) : Produces scope (unary recur) b Plan.operandCell := by
  refine .look (.ite (fun sign => ?_) fun _ => .ite (fun _ => ?_) fun _ => .ite (fun label => ?_) fun _ =>
    postfixChain_yields keeps)
  · exact .bind ((Awaits.new .prefixExpression).advance (.wordOf sign (by decide))) fun _ _ on =>
      .bind keeps.unary fun _ _ fills => (on.add fills).done rfl
  · exact .bind (annotationSetsInto_leads keeps (.new .annotatedExpression)) fun _ _ on =>
      .bind keeps.unary fun _ _ fills => (on.add fills).done rfl
  · simp only [Bool.and_eq_true] at label
    exact .bind ((Awaits.new .labeledExpression).advanceTwice (.name label.1.1 rfl) (.word label.1.2 rfl)) fun _ _ on =>
      .bind keeps.unary fun _ _ fills => (on.add fills).done rfl

theorem binaryLevel_yields {ops : List String} {crossesNewline : Bool} {operand : Grammar Parsed}
    (known : ops.all (Keyword.binaryOperators.contains ·) = true)
    (each : ∀ b, Produces scope operand b Plan.operandCell) :
    Produces scope (binaryLevel ops crossesNewline operand) b Plan.operandCell := by
  refine .bind (each b) fun _ _ fills => operands_yield fills fun _ _ fills => ?_
  refine .look (.ite (fun _ => .pure fills) fun stands => operation_turns fills ?_ known each)
  simp only [Bool.or_eq_true, decide_eq_true_eq] at stands
  omega

theorem castLevel_yields (keeps : Keeps recur) : Produces scope (castLevel recur) b Plan.operandCell := by
  refine .bind keeps.unary fun _ _ fills => operands_yield fills fun _ _ fills => ?_
  refine .look (.ite (fun _ => .pure fills) fun stands => ?_)
  simp only [Bool.or_eq_true, decide_eq_true_eq] at stands
  exact .bind (((Awaits.new .binaryWithType).begin fills).advanceGlued (by omega) (by decide)) fun _ _ on =>
    .bind keeps.type fun _ _ fills => again_turns ((on.add fills).done rfl)

theorem range_yields (keeps : Keeps recur) : Produces scope (range recur) b Plan.operandCell :=
  binaryLevel_yields (by decide) fun _ =>
  binaryLevel_yields (by decide) fun _ =>
  binaryLevel_yields (by decide) fun _ => castLevel_yields keeps

theorem namedLevel_yields (keeps : Keeps recur) : Produces scope (namedLevel recur) b Plan.operandCell := by
  refine .bind (range_yields keeps) fun _ _ fills => (Yields.iterateWhile fills fun _ _ fills name => ?_).mono
    fun _ _ after => after.1
  have on := (Awaits.new .infixExpression).begin fills
  exact .bind (on.advance (.name (Bool.and_eq_true_iff.mp name).1 rfl)) fun _ _ on =>
    .bind (range_yields keeps) fun _ _ fills => (on.add fills).done rfl

theorem elvis_yields (keeps : Keeps recur) : Produces scope (elvis recur) b Plan.operandCell :=
  binaryLevel_yields (by decide) fun _ => namedLevel_yields keeps

theorem testLevel_yields (keeps : Keeps recur) : Produces scope (testLevel recur) b Plan.operandCell := by
  refine .bind (elvis_yields keeps) fun _ _ fills => operands_yield fills fun _ _ fills => ?_
  refine .look (.ite (fun _ => .pure fills) fun _ => .ite (fun typed => ?_) fun _ => .ite (fun contained => ?_) fun _ =>
    .pure fills)
  · exact .bind (((Awaits.new .binaryWithType).begin fills).advance (.wordOf typed (by decide))) fun _ _ on =>
      .bind keeps.type fun _ _ fills => again_turns ((on.add fills).done rfl)
  · exact .bind (((Awaits.new .binaryExpression).begin fills).advance (.wordOf contained (by decide))) fun _ _ on =>
      .bind (elvis_yields keeps) fun _ _ fills => again_turns ((on.add fills).done rfl)

theorem disjunction_yields (keeps : Keeps recur) : Produces scope (disjunction recur) b Plan.operandCell :=
  binaryLevel_yields (by decide) fun _ =>
  binaryLevel_yields (by decide) fun _ =>
  binaryLevel_yields (by decide) fun _ =>
  binaryLevel_yields (by decide) fun _ => testLevel_yields keeps

theorem expression_yields (keeps : Keeps recur) : Produces scope (expression recur) b Plan.operandCell := by
  refine .bind (disjunction_yields keeps) fun _ _ fills => .look (.ite (fun _ => .pure fills) fun stands => ?_)
  simp only [Bool.or_eq_true, decide_eq_true_eq] at stands
  exact .bind (((Awaits.new .binaryExpression).begin fills).advanceGlued (by omega) (by decide)) fun _ _ on =>
    .bind keeps.expression fun _ _ fills => (on.add fills).done rfl

/-! Statements. -/

theorem expressionStatement_yields (keeps : Keeps recur) :
    Produces scope (expressionStatement recur) b Plan.operandCell := by
  have annotated (b : Builder) : Produces scope (annotatedStatement recur) b Plan.operandCell :=
    .bind (annotationSetsInto_leads keeps (.new .annotatedExpression)) fun _ _ on =>
    .look <| .ite (fun _ => .bind keeps.expression fun _ _ fills => (on.add fills).done rfl) fun _ => .reject
  refine .look (.ite (fun _ => .bind (speculate_yields (annotated b)) ?_) fun _ => keeps.expression)
  rintro (_ | x) _ fills
  · exact keeps.expression
  · exact .pure (fills x rfl)

theorem statement_yields (keeps : Keeps recur) : Produces scope (statement recur) b Plan.statementCell := by
  refine .bind (declaration_yields keeps) ?_
  rintro (_ | x) _ fills
  · exact (expressionStatement_yields keeps).mono fun _ _ fills => fills.widen (by decide)
  · exact .pure (fills x rfl)

end KotlinSyntax.Grammar
