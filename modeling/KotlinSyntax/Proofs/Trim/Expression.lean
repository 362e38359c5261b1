import KotlinSyntax.Grammar.Expression
import KotlinSyntax.Proofs.Trim.Declaration

/-! The rules of expressions and statements build trimmed nodes. A loop over operands takes what is there as the first
part of the next node, so it gives a tidy element in each turn. -/
namespace KotlinSyntax.Grammar

open Marker

variable {m : Marker} {p : Parsed} {kind : RawKind} {recur : Recur}

/-! Branches, loops and jumps. -/

theorem labelInto_grows (h : m.Tidy) : Grows (labelInto m) :=
  .behind fun _ => .ite (h.advance.bind fun _ on => on.expectName) (.pure h)

theorem jump_builds : Builds (jump kind) :=
  Tidy.empty.advance.bind fun _ on => (labelInto_grows on).bind fun _ on => on.done

theorem superExpression_builds (careful : Careful recur) : Builds (superExpression recur) := by
  have type {m : Marker} (on : m.Tidy) : Grows (superTypeInto recur m) := by
    refine .behind fun _ => .ite ?_ (.pure on)
    exact on.advance.bind fun _ on => (careful _).bind fun _ given => (on.add given).expect
  exact Tidy.empty.advance.bind fun _ on => (type on).bind fun _ on => (labelInto_grows on).bind fun _ on => on.done

theorem throwExpression_builds (careful : Careful recur) : Builds (throwExpression recur) :=
  Tidy.empty.advance.bind fun _ on => on.close (careful _)

theorem returnExpression_builds (careful : Careful recur) : Builds (returnExpression recur) :=
  Tidy.empty.advance.bind fun _ on => (labelInto_grows on).bind fun _ on =>
    .behind fun _ => .ite (on.close (careful _)) on.done

theorem emptyBody_offers {what : String} (h : m.Tidy) : Always (emptyBody m what) Optional :=
  .behind fun _ => .ite (.behind fun _ => .map h.done.optional) (.pure nofun)

/-- The body of a branch or a loop ends it. -/
theorem loopBody_builds (careful : Careful recur) {what : String} (h : m.Tidy) :
    Builds (loopBody recur m what kind) := by
  refine (emptyBody_offers h).bind ?_
  rintro (_ | empty) given
  · exact h.close (controlBody_builds careful)
  · exact .pure (given empty rfl)

theorem conditionInto_grows (careful : Careful recur) (h : m.Tidy) : Grows (conditionInto recur m) :=
  .withTrailingLambdas <| h.expect.bind fun _ on => (careful _).bind fun _ given => (on.add given).expect

theorem ifExpression_builds (careful : Careful recur) : Builds (ifExpression recur) := by
  refine Tidy.empty.advance.bind fun _ on => (conditionInto_grows careful on).bind fun _ on =>
    (emptyBody_offers on).bind ?_
  rintro (_ | empty) given
  · refine (controlBody_builds careful).bind fun _ given => .behind fun _ => .ite ?_ (on.add given).done
    exact (on.add given).advance.bind fun _ on => loopBody_builds careful on
  · exact .pure (given empty rfl)

theorem whenEntry_builds (careful : Careful recur) : Builds (whenEntry recur) := by
  have word {r : Rule} : Builds (do done ((← advance .empty).add (← recur r)) .whenCondition) :=
    Tidy.empty.advance.bind fun _ on => on.close (careful r)
  have condition : Builds (whenCondition recur) :=
    .behind fun _ => .ite word (.ite word (Tidy.empty.close (careful _)))
  have conditions : Grows (whenConditions recur) :=
    .behind fun _ => .ite Tidy.empty.advance (Tidy.empty.commaList condition)
  exact conditions.bind fun _ on => on.expect.bind fun _ on => on.close (controlBody_builds careful)

theorem whenExpression_builds (careful : Careful recur) : Builds (whenExpression recur) := by
  have subject : Builds (whenSubject recur) :=
    .behind fun _ => .ite (propertyDeclaration_builds careful .empty) (careful _)
  have subjects {m : Marker} (on : m.Tidy) : Grows (whenSubjectInto recur m) := by
    refine .behind fun _ => .ite ?_ (.pure on)
    exact on.advance.bind fun _ on => subject.bind fun _ given => (on.add given).expect
  exact Tidy.empty.advance.bind fun _ on => (subjects on).bind fun _ on => on.expect.bind fun _ on =>
    (on.iterateWhile fun _ on => recovering_tidy on (whenEntry_builds careful)).bind fun _ on =>
    on.expect.bind fun _ on => on.done

theorem tryExpression_builds (careful : Careful recur) : Builds (tryExpression recur) := by
  have clause : Builds (catchClause recur) :=
    Tidy.empty.advance.bind fun _ on => (valueParameters_builds careful).bind fun _ given =>
      (on.add given).close (block_builds careful)
  refine Tidy.empty.advance.bind fun _ on => (block_builds careful).bind fun _ given =>
    ((on.add given).iterateWhile fun _ on => on.addRule clause).bind fun _ on => .behind fun _ => .ite ?_ on.done
  exact on.advance.bind fun _ on => on.close (block_builds careful)

theorem forLoop_builds (careful : Careful recur) : Builds (forLoop recur) :=
  Tidy.empty.advance.bind fun _ on => on.expect.bind fun _ on => (lambdaParameter_builds careful).bind fun _ given =>
    (on.add given).expect.bind fun _ on => (careful _).bind fun _ given => (on.add given).expect.bind fun _ on =>
    loopBody_builds careful on

theorem whileLoop_builds (careful : Careful recur) : Builds (whileLoop recur) :=
  Tidy.empty.advance.bind fun _ on => (conditionInto_grows careful on).bind fun _ on => loopBody_builds careful on

theorem doWhileLoop_builds (careful : Careful recur) : Builds (doWhileLoop recur) :=
  Tidy.empty.advance.bind fun _ on => (controlBody_builds careful).bind fun _ given =>
    (on.add given).expect.bind fun _ on => (conditionInto_grows careful on).bind fun _ on => on.done

theorem keywordExpression_builds (careful : Careful recur) (word : String) :
    Builds (keywordExpression recur word) := by
  unfold keywordExpression
  split
  · exact token_builds
  · exact token_builds
  · exact token_builds
  · exact jump_builds
  · exact superExpression_builds careful
  · exact ifExpression_builds careful
  · exact whenExpression_builds careful
  · exact tryExpression_builds careful
  · exact forLoop_builds careful
  · exact whileLoop_builds careful
  · exact doWhileLoop_builds careful
  · exact throwExpression_builds careful
  · exact returnExpression_builds careful
  · exact jump_builds
  · exact jump_builds
  · exact classDeclaration_builds careful .empty
  · exact functionDeclaration_builds careful .empty
  · exact .reject

/-! Primary expressions. -/

theorem stringTemplate_builds (careful : Careful recur) : Builds (stringTemplate recur) := by
  have short : Builds shortTemplate := Tidy.empty.advanceTwice.bind fun _ on => on.done
  have long : Builds (longTemplate recur) :=
    Tidy.empty.advance.bind fun _ on => (Always.withTrailingLambdas (careful _)).bind fun _ given =>
      (on.add given).expectKind.bind fun _ on => on.done
  refine Tidy.empty.advance.bind fun _ on => (on.iterateWhile fun _ on => .behind fun _ => ?_).bind fun _ on =>
    on.advance.bind fun _ on => on.done
  exact .ite (on.addRule short) (.ite (on.addRule long) (.ite on.advance .reject))

theorem callableReference_builds (h : m.Tidy) : Builds (callableReference m) :=
  h.advance.bind fun _ on => .behind fun _ => .ite (on.advance.bind fun _ on => on.done)
    (on.expectName.bind fun _ on => on.done)

theorem nameExpression_builds (careful : Careful recur) : Builds (nameExpression recur) := by
  have receiver : Builds (typeReceiver recur) :=
    (userType_builds careful).bind fun _ given => .behind fun _ => .ite (.pure given) .reject
  refine .behind fun _ => .ite ((Always.speculate receiver).bind ?_) token_builds
  rintro (_ | type) given
  · exact token_builds
  · exact callableReference_builds (.ofParsed (given type rfl))

theorem bracketExpression_builds (careful : Careful recur) (text : String) :
    Builds (bracketExpression recur text) := by
  have group : Builds (parenthesized recur) :=
    .withTrailingLambdas <| Tidy.empty.advance.bind fun _ on => (careful _).bind fun _ given =>
      (on.add given).expect.bind fun _ on => on.done
  have collection : Builds (collectionLiteral recur) :=
    .withTrailingLambdas <| Tidy.empty.advance.bind fun _ on => (on.commaList (careful _)).bind fun _ on =>
      on.expect.bind fun _ on => on.done
  have number : Builds dotNumber :=
    .behind fun _ => .ite (Tidy.empty.advanceTwice.bind fun _ on => on.done) .reject
  exact .ite group <| .ite (lambda_builds careful) <| .ite collection <| .ite (callableReference_builds .empty) <|
    .ite number .reject

theorem primary_builds (careful : Careful recur) : Builds (primary recur) := by
  refine .behind fun b => ?_
  cases b.peek with
  | none => exact .reject
  | some t =>
    dsimp only
    split
    · exact nameExpression_builds careful
    · exact token_builds
    · exact token_builds
    · exact token_builds
    · exact stringTemplate_builds careful
    · exact keywordExpression_builds careful _
    · exact bracketExpression_builds careful _
    · exact .reject

/-! Suffixes. -/

abbrev Rounds (g : Grammar (Turn Parsed)) : Prop := Always g (Turn.Holds Parsed.Tidy Parsed.Tidy)

theorem again_rounds {g : Grammar Parsed} (h : Builds g) : Rounds (do return .again (← g)) :=
  h.bind fun _ given => .pure given

/-- A loop over operands gives an operand. -/
theorem operands_build {step : Parsed → Grammar (Turn Parsed)} {first : Grammar Parsed} (start : Builds first)
    (each : ∀ p, p.Tidy → Rounds (step p)) : Builds (do iterate step (← first)) :=
  start.bind fun _ given => .iterate given each

theorem trailingLambda_offers_tidy (careful : Careful recur) {hasArguments : Bool} :
    Always (trailingLambda recur hasArguments) Optional := by
  have argument : Builds (lambdaArgument recur) :=
    (annotationSetsInto_grows careful .empty).bind fun _ on => on.advanceTwiceIf.bind fun _ on =>
      on.close (lambda_builds careful)
  refine .behind fun _ => .behind fun _ => .ite (.behind fun _ => ?_) (.pure nofun)
  exact .ite (.map argument.optional) (.pure nofun)

theorem callSuffix_offers_tidy (careful : Careful recur) (given : p.Tidy) :
    Always (callSuffix recur p) Optional := by
  have types : Always (callTypeArguments recur) Optional := by
    refine .behind fun _ => .ite (.speculate ?_) (.pure nofun)
    exact (typeArguments_builds careful).bind fun _ given => .behind fun _ => .ite (.pure given) .reject
  have arguments : Always (callArguments recur) Optional :=
    .behind fun _ => .ite (.map (valueArguments_builds careful).optional) (.pure nofun)
  refine .behind fun _ => .ite (.pure nofun) (types.bind fun _ types => arguments.bind fun _ arguments =>
    (trailingLambda_offers_tidy careful).bind fun _ lambda => .ite (.pure nofun) (.map ?_))
  exact (((Tidy.ofParsed given).add? types).add? arguments).add? lambda |>.done.optional

theorem callTurn_rounds (careful : Careful recur) (given : p.Tidy) : Rounds (callTurn recur p) := by
  refine (callSuffix_offers_tidy careful given).bind ?_
  rintro (_ | call) after
  · exact .pure given
  · exact .pure (after call rfl)

theorem memberSelector_builds (careful : Careful recur) : Builds (memberSelector recur) := by
  have name : Builds memberName := .behind fun _ => .ite token_builds .reject
  exact operands_build name fun _ given => .behind fun _ => .ite (.pure given) (callTurn_rounds careful given)

theorem postfixTurn_rounds (careful : Careful recur) (given : p.Tidy) : Rounds (postfixTurn recur p) := by
  have on := Tidy.ofParsed given
  have access : Builds (arrayAccess recur p) :=
    .withTrailingLambdas <| on.advance.bind fun _ on => (on.commaList (careful _)).bind fun _ on =>
      on.expect.bind fun _ on => on.done
  have literal : Builds (nullableLiteral p) :=
    on.advanceTwice.bind fun _ on => on.advanceIf.bind fun _ on => on.done
  refine .behind fun _ => .ite ?_ <| .ite (again_rounds access) <| .ite (again_rounds (callableReference_builds on)) <|
    .ite (again_rounds literal) (callTurn_rounds careful given)
  exact on.advance.bind fun _ on => again_rounds on.done

/-- An operator between two operands. -/
theorem operation_rounds {operand : Grammar Parsed} (given : p.Tidy) (count : Nat) (each : Builds operand) : Rounds (do
    let m ← advanceGlued (.ofParsed p) count
    return .again (← done (m.add (← operand)) kind)) :=
  ((Tidy.ofParsed given).advanceGlued count).bind fun _ on => each.bind fun _ given => again_rounds (on.add given).done

theorem postfixChain_builds (careful : Careful recur) : Builds (postfixChain recur) := by
  refine operands_build (primary_builds careful) fun p given => .behind fun b => .ite (.pure given) <| .ite ?_ <|
    .ite (.pure given) (postfixTurn_rounds careful given)
  exact operation_rounds given _ (memberSelector_builds careful)

/-! Levels. -/

theorem unary_builds (careful : Careful recur) : Builds (unary recur) := by
  refine .behind fun _ => .ite ?_ <| .ite ?_ <| .ite ?_ (postfixChain_builds careful)
  · exact Tidy.empty.advance.bind fun _ on => on.close (careful _)
  · exact (annotationSetsInto_grows careful .empty).bind fun _ on => on.close (careful _)
  · exact Tidy.empty.advanceTwice.bind fun _ on => on.close (careful _)

theorem binaryLevel_builds {ops : List String} {crossesNewline : Bool} {operand : Grammar Parsed}
    (each : Builds operand) : Builds (binaryLevel ops crossesNewline operand) :=
  operands_build each fun _ given => .behind fun _ => .ite (.pure given) (operation_rounds given _ each)

theorem range_builds (careful : Careful recur) : Builds (range recur) := by
  have casts : Builds (castLevel recur) := operands_build (careful _) fun _ given => .behind fun _ =>
    .ite (.pure given) (operation_rounds given _ (careful _))
  exact binaryLevel_builds (binaryLevel_builds (binaryLevel_builds casts))

theorem elvis_builds (careful : Careful recur) : Builds (elvis recur) := by
  have named : Builds (namedLevel recur) := (range_builds careful).bind fun _ given => .iterateWhile given fun _ given =>
    (Tidy.ofParsed given).advance.bind fun _ on => on.close (range_builds careful)
  exact binaryLevel_builds named

theorem testLevel_builds (careful : Careful recur) : Builds (testLevel recur) := by
  refine operands_build (elvis_builds careful) fun p given => .behind fun _ => .ite (.pure given) <| .ite ?_ <|
    .ite ?_ (.pure given)
  · exact (Tidy.ofParsed given).advance.bind fun _ on => (careful _).bind fun _ given =>
      again_rounds (on.add given).done
  · exact (Tidy.ofParsed given).advance.bind fun _ on => (elvis_builds careful).bind fun _ given =>
      again_rounds (on.add given).done

theorem disjunction_builds (careful : Careful recur) : Builds (disjunction recur) :=
  binaryLevel_builds (binaryLevel_builds (binaryLevel_builds (binaryLevel_builds (testLevel_builds careful))))

theorem expression_builds (careful : Careful recur) : Builds (expression recur) := by
  refine (disjunction_builds careful).bind fun _ given => .behind fun _ => .ite (.pure given) ?_
  exact ((Tidy.ofParsed given).advanceGlued _).bind fun _ on => on.close (careful _)

/-! Statements. -/

theorem expressionStatement_builds (careful : Careful recur) : Builds (expressionStatement recur) := by
  have annotated : Builds (annotatedStatement recur) :=
    (annotationSetsInto_grows careful .empty).bind fun _ on => .behind fun _ => .ite (on.close (careful _)) .reject
  refine .behind fun _ => .ite ((Always.speculate annotated).bind ?_) (careful _)
  rintro (_ | p) given
  · exact careful _
  · exact .pure (given p rfl)

theorem statement_builds (careful : Careful recur) : Builds (statement recur) := by
  refine (declaration_offers_tidy careful).bind ?_
  rintro (_ | p) given
  · exact expressionStatement_builds careful
  · exact .pure (given p rfl)

end KotlinSyntax.Grammar
