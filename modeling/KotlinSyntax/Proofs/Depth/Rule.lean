import KotlinSyntax.Proofs.Depth.Order

/-! Each rule of the grammar gets deeper with the rules that it calls. -/
namespace KotlinSyntax.Grammar

variable {recur recur' : Recur} {m : Marker}

def Recur.Deepens (recur recur' : Recur) : Prop := ∀ r, Grammar.Deepens (recur r) (recur' r)

variable (deeper : recur.Deepens recur')

include deeper

/-! Types. -/

theorem modifierList_deepens (place : ModifierPlace) :
    Deepens (modifierList recur place) (modifierList recur' place) := by
  refine .first (.iterate fun m => .next fun b => .ite ?_ .refl)
  exact .first (deeper .annotationSet)

theorem modified_deepens (place : ModifierPlace) : Deepens (modified recur place m) (modified recur' place m) :=
  .first (modifierList_deepens deeper place)

theorem typeSuffix_deepens : Deepens (typeSuffix recur m) (typeSuffix recur' m) :=
  .next fun _ => .ite (.next fun _ => .first (deeper _)) .refl

theorem typeArgument_deepens : Deepens (typeArgument recur) (typeArgument recur') := by
  refine .next fun _ => .ite .refl ?_
  exact .bind (modified_deepens deeper _) fun _ => .first (deeper _)

theorem typeArguments_deepens : Deepens (typeArguments recur) (typeArguments recur') :=
  .bracketed (typeArgument_deepens deeper)

theorem typeSegment_deepens : Deepens (typeSegment recur) (typeSegment recur') :=
  .next fun _ => .addIf (typeArguments_deepens deeper)

theorem userType_deepens (receiver : Bool) : Deepens (userType recur receiver) (userType recur' receiver) := by
  refine .bind (typeSegment_deepens deeper) fun _ => .first (.iterateWhile ?_)
  rintro ⟨m, segment⟩
  exact .next fun _ => .next fun _ => .first (typeSegment_deepens deeper)

theorem functionType_deepens : Deepens (functionType recur m) (functionType recur' m) := by
  have parameter : Deepens (functionTypeParameter recur) (functionTypeParameter recur') :=
    .next fun _ => .first (deeper _)
  exact .bind (.bracketed parameter) fun _ => .next fun _ => .first (deeper _)

theorem contextReceivers_deepens : Deepens (contextReceivers recur) (contextReceivers recur') := by
  have receiver : Deepens (contextReceiver recur) (contextReceiver recur') := .first (deeper _)
  exact .next fun _ => .next fun _ => .first (.commaList receiver)

theorem namedType_deepens (receiver : Bool) : Deepens (namedType recur receiver) (namedType recur' receiver) :=
  .next fun _ => .ite .refl (userType_deepens deeper receiver)

theorem receiverOf_deepens (named : Parsed) : Deepens (receiverOf recur named) (receiverOf recur' named) := by
  refine .next fun _ => .ite ?_ .refl
  exact .next fun _ => .next fun _ => .next fun _ => functionType_deepens deeper

theorem typeBody_deepens (receiver : Bool) : Deepens (typeBody recur receiver) (typeBody recur' receiver) := by
  refine .next fun _ => .ite (.ite (functionType_deepens deeper) (.first (deeper _))) (.ite ?_ ?_)
  · exact .bind (contextReceivers_deepens deeper) fun _ => functionType_deepens deeper
  · exact .bind (namedType_deepens deeper receiver) fun _ => .next fun _ => receiverOf_deepens deeper _

theorem groupedType_deepens : Deepens (groupedType recur) (groupedType recur') := by
  refine .next fun _ => .bind (modified_deepens deeper _) fun _ => ?_
  exact .first (typeBody_deepens deeper _)

theorem typeReference_deepens (receiver : Bool) :
    Deepens (typeReference recur receiver) (typeReference recur' receiver) := by
  refine .next fun _ => .ite (groupedType_deepens deeper) ?_
  exact .bind (modified_deepens deeper _) fun _ => .first (typeBody_deepens deeper receiver)

theorem typeParametersInto_deepens : Deepens (typeParametersInto recur m) (typeParametersInto recur' m) := by
  have parameter : Deepens (typeParameter recur) (typeParameter recur') :=
    .bind (modified_deepens deeper _) fun _ => .next fun _ => .first (typeSuffix_deepens deeper)
  exact .addIf (.bracketed parameter)

theorem annotationSetsInto_deepens : Deepens (annotationSetsInto recur m) (annotationSetsInto recur' m) :=
  .iterateWhile fun _ => .first (deeper _)

theorem typeConstraintSet_deepens : Deepens (typeConstraintSet recur) (typeConstraintSet recur') := by
  have constraint : Deepens (typeConstraint recur) (typeConstraint recur') :=
    .bind (annotationSetsInto_deepens deeper) fun _ => .next fun _ => .next fun _ => .first (deeper _)
  refine .next fun _ => .bind constraint fun _ => .first ?_
  exact .iterateWhile fun _ => .next fun _ => .first constraint

theorem constraintsInto_deepens : Deepens (constraintsInto recur m) (constraintsInto recur' m) :=
  .addIf (typeConstraintSet_deepens deeper)

/-! Arguments and annotations. -/

theorem valueArguments_deepens : Deepens (valueArguments recur) (valueArguments recur') := by
  have argument : Deepens (valueArgument recur) (valueArgument recur') :=
    .next fun _ => .next fun _ => .first (deeper _)
  exact .withTrailingLambdas (.bracketed argument)

theorem annotationSet_deepens : Deepens (annotationSet recur) (annotationSet recur') := by
  have entry : Deepens (annotationEntry recur) (annotationEntry recur') :=
    .bind (userType_deepens deeper _) fun _ => .first (.addIf (valueArguments_deepens deeper))
  refine .next fun _ => .next fun _ => .next fun _ => .ite ?_ (.first entry)
  exact .next fun _ => .first (.iterateWhile fun _ => .first entry)

theorem assignedInto_deepens : Deepens (assignedInto recur m) (assignedInto recur' m) :=
  .next fun _ => .ite (.next fun _ => .first (deeper _)) .refl

theorem valueParameters_deepens : Deepens (valueParameters recur) (valueParameters recur') := by
  have parameter : Deepens (valueParameter recur) (valueParameter recur') := by
    refine .bind (modified_deepens deeper _) fun _ => .next fun _ => .next fun _ => ?_
    exact .bind (typeSuffix_deepens deeper) fun _ => .first (assignedInto_deepens deeper)
  exact .withTrailingLambdas (.bracketed parameter)

/-! Statements and lambdas. -/

theorem statementsInto_deepens (stops : Builder → Bool) :
    Deepens (statementsInto recur stops m) (statementsInto recur' stops m) := by
  refine .first (.iterateWhile ?_)
  rintro ⟨m, isFirst⟩
  exact .next fun _ => .next fun _ => .first (.recovering (deeper _))

theorem block_deepens : Deepens (block recur) (block recur') :=
  .withTrailingLambdas (.next fun _ => .first (statementsInto_deepens deeper _))

theorem controlBody_deepens : Deepens (controlBody recur) (controlBody recur') :=
  .next fun _ => .ite (block_deepens deeper) (deeper _)

theorem lambdaParameter_deepens : Deepens (lambdaParameter recur) (lambdaParameter recur') := by
  have variable' : Deepens (lambdaParameterVariable recur) (lambdaParameterVariable recur') :=
    .bind (modified_deepens deeper _) fun _ => .next fun _ => .first (typeSuffix_deepens deeper)
  refine .next fun _ => .ite ?_ (.first variable')
  exact .next fun _ => .bind (.commaList variable') fun _ => .next fun _ => .first (typeSuffix_deepens deeper)

theorem lambdaParametersInto_deepens : Deepens (lambdaParametersInto recur m) (lambdaParametersInto recur' m) := by
  have parameters : Deepens (lambdaParameters recur) (lambdaParameters recur') :=
    .first (.commaList (lambdaParameter_deepens deeper))
  exact .next fun _ => .ite .refl (.first (.speculate parameters))

theorem lambda_deepens : Deepens (lambda recur) (lambda recur') := by
  have body : Deepens (lambdaBody recur) (lambdaBody recur') := .first (statementsInto_deepens deeper _)
  exact .withTrailingLambdas (.next fun _ => .bind (lambdaParametersInto_deepens deeper) fun _ => .first body)

/-! Declarations. -/

theorem primaryConstructorInto_deepens (isObject : Bool) :
    Deepens (primaryConstructorInto recur isObject m) (primaryConstructorInto recur' isObject m) := by
  refine .ite .refl (.first (.next fun _ => .ite (.first (valueParameters_deepens deeper)) (.speculate ?_)))
  exact .bind (modified_deepens deeper _) fun _ => .next fun _ => .first (valueParameters_deepens deeper)

theorem superTypes_deepens : Deepens (superTypes recur) (superTypes recur') := by
  have type : Deepens (superType recur) (superType recur') := by
    refine .bind (userType_deepens deeper _) fun _ => .next fun _ => .ite ?_ (.ite ?_ .refl)
    · exact .first (valueArguments_deepens deeper)
    · exact .next fun _ => .first (.withTrailingLambdas (deeper _))
  exact .next fun _ => .bind type fun _ => .first (.iterateWhile fun _ => .next fun _ => .first type)

theorem classDeclaration_deepens (isEnum : Bool) :
    Deepens (classDeclaration recur m isEnum) (classDeclaration recur' m isEnum) := by
  refine .next fun _ => .next fun _ => .next fun _ => .bind (typeParametersInto_deepens deeper) fun _ => ?_
  refine .bind (primaryConstructorInto_deepens deeper _) fun _ => .bind (.addIf (superTypes_deepens deeper)) fun _ => ?_
  exact .bind (constraintsInto_deepens deeper) fun _ => .first (.addIf (deeper _))

theorem initializerBlock_deepens : Deepens (initializerBlock recur m) (initializerBlock recur' m) :=
  .next fun _ => .first (block_deepens deeper)

theorem secondaryConstructor_deepens : Deepens (secondaryConstructor recur m) (secondaryConstructor recur' m) := by
  have call : Deepens (delegationCall recur) (delegationCall recur') :=
    .next fun _ => .first (valueArguments_deepens deeper)
  refine .next fun _ => .bind (valueParameters_deepens deeper) fun _ => ?_
  refine .bind (.next fun _ => .ite (.next fun _ => .first call) .refl) fun _ => ?_
  exact .first (.addIf (block_deepens deeper))

theorem receiverInto_deepens : Deepens (receiverInto recur m) (receiverInto recur' m) :=
  .first (.speculate (.first (deeper _)))

theorem postModifiersInto_deepens : Deepens (postModifiersInto recur m) (postModifiersInto recur' m) := by
  have effect : Deepens (contractEffect recur) (contractEffect recur') := .first (deeper _)
  refine .iterate fun _ => .next fun _ => .ite (.first (typeConstraintSet_deepens deeper)) (.ite ?_ .refl)
  exact .first (.next fun _ => .first (.bracketed effect))

theorem functionBodyInto_deepens : Deepens (functionBodyInto recur m) (functionBodyInto recur' m) :=
  .next fun _ => .ite (assignedInto_deepens deeper) (.ite (.first (block_deepens deeper)) .refl)

theorem functionDeclaration_deepens : Deepens (functionDeclaration recur m) (functionDeclaration recur' m) := by
  refine .next fun _ => .bind (typeParametersInto_deepens deeper) fun _ => ?_
  refine .bind (.next fun _ => .ite .refl (.first (receiverInto_deepens deeper))) fun _ => ?_
  refine .bind (valueParameters_deepens deeper) fun _ => .bind (typeSuffix_deepens deeper) fun _ => ?_
  exact .bind (postModifiersInto_deepens deeper) fun _ => .first (functionBodyInto_deepens deeper)

theorem accessorBodyInto_deepens (isGetter : Bool) :
    Deepens (accessorBodyInto recur isGetter m) (accessorBodyInto recur' isGetter m) := by
  refine .next fun _ => .ite (.bind (.ite ?_ ?_) fun _ => ?_) .refl
  · exact .next fun _ => .next fun _ => typeSuffix_deepens deeper
  · exact .first (valueParameters_deepens deeper)
  · exact .next fun _ => .ite (functionBodyInto_deepens deeper) .refl

theorem accessorsInto_deepens : Deepens (accessorsInto recur m) (accessorsInto recur' m) := by
  have one : Deepens (accessor recur) (accessor recur') := by
    refine .speculate (.bind (modified_deepens deeper _) fun _ => .next fun _ => .next fun _ => ?_)
    exact .first (accessorBodyInto_deepens deeper _)
  refine .bind one fun found => ?_
  cases found with
  | none => exact .refl
  | some first => exact .first one

theorem propertyValueInto_deepens : Deepens (propertyValueInto recur m) (propertyValueInto recur' m) := by
  refine .next fun _ => .ite (assignedInto_deepens deeper) (.ite ?_ .refl)
  exact .next fun _ => .first (deeper _)

theorem bindingsInto_deepens : Deepens (bindingsInto recur m) (bindingsInto recur' m) := by
  have entry : Deepens (destructuringEntry recur) (destructuringEntry recur') :=
    .next fun _ => .first (typeSuffix_deepens deeper)
  refine .next fun _ => .ite (.next fun _ => .first (.commaList entry)) ?_
  exact .next fun _ => typeSuffix_deepens deeper

theorem propertyDeclaration_deepens : Deepens (propertyDeclaration recur m) (propertyDeclaration recur' m) := by
  refine .next fun _ => .bind (typeParametersInto_deepens deeper) fun _ => ?_
  refine .bind (.next fun _ => .ite .refl (receiverInto_deepens deeper)) fun _ => ?_
  refine .bind (bindingsInto_deepens deeper) fun _ => .bind (constraintsInto_deepens deeper) fun _ => ?_
  exact .bind (propertyValueInto_deepens deeper) fun _ => .first (accessorsInto_deepens deeper)

theorem typeAlias_deepens : Deepens (typeAlias recur m) (typeAlias recur' m) := by
  refine .next fun _ => .next fun _ => .bind (typeParametersInto_deepens deeper) fun _ => ?_
  exact .next fun _ => .first (deeper _)

/-- Which declaration comes next does not depend on the rules that it calls. -/
theorem declarationRule?_deepens (place : DeclarationPlace) (b : Builder) (modifiers : Option Parsed) :
    Option.Rel Deepens (declarationRule? recur place b modifiers m) (declarationRule? recur' place b modifiers m) := by
  have chosen {test : Bool} {g h : Grammar Parsed} (rule : Deepens g h) :
      Option.Rel Deepens (if test then some g else none) (if test then some h else none) := by
    cases test with
    | true => exact .some rule
    | false => exact .none
  unfold declarationRule?
  split
  · split
    · split
      · exact .some (classDeclaration_deepens deeper _)
      · exact .some (classDeclaration_deepens deeper _)
      · exact chosen (classDeclaration_deepens deeper _)
      · exact chosen (functionDeclaration_deepens deeper)
      · exact chosen (propertyDeclaration_deepens deeper)
      · exact chosen (propertyDeclaration_deepens deeper)
      · exact .some (typeAlias_deepens deeper)
      · exact chosen (secondaryConstructor_deepens deeper)
      · exact chosen (initializerBlock_deepens deeper)
      · exact .none
    · exact .none
  · exact .none

theorem declaration_deepens (place : DeclarationPlace) :
    Deepens (declaration recur place) (declaration recur' place) := by
  refine .next fun start => .bind (modifierList_deepens deeper _) fun modifiers => .next fun b => ?_
  have rule := declarationRule?_deepens (m := Marker.empty.add? modifiers) deeper place b modifiers
  generalize declarationRule? recur place b modifiers _ = x at rule ⊢
  generalize declarationRule? recur' place b modifiers _ = y at rule ⊢
  cases rule with
  | none => exact .refl
  | some rule => exact .map rule

theorem declarationOnly_deepens (place : DeclarationPlace) (what : String) :
    Deepens (declarationOnly recur place what) (declarationOnly recur' place what) :=
  .first (declaration_deepens deeper place)

theorem atEnumEntry_deepens : Deepens (atEnumEntry recur) (atEnumEntry recur') :=
  .next fun _ => .ite .refl (.ite (.lookahead (.first (modifierList_deepens deeper _))) .refl)

theorem enumEntriesInto_deepens : Deepens (enumEntriesInto recur m) (enumEntriesInto recur' m) := by
  have entry : Deepens (enumEntry recur) (enumEntry recur') := by
    refine .bind (modified_deepens deeper _) fun _ => .next fun _ => ?_
    exact .bind (.addIf (valueArguments_deepens deeper)) fun _ => .first (.addIf (deeper _))
  have follows : Deepens (entryFollowsComma recur) (entryFollowsComma recur') :=
    .lookahead (.next fun _ => .first (atEnumEntry_deepens deeper))
  refine .iterate fun _ => .bind (atEnumEntry_deepens deeper) fun _ => .ite (.bind entry fun _ => ?_) .refl
  exact .next fun _ => .ite .refl (.ite .refl (.first follows))

theorem classBody_deepens (isEnum : Bool) : Deepens (classBody recur isEnum) (classBody recur' isEnum) := by
  refine .withTrailingLambdas (.next fun _ => .first ?_)
  refine .bind (.ite (enumEntriesInto_deepens deeper) .refl) fun _ => ?_
  exact .iterateWhile fun _ => .recovering (declarationOnly_deepens deeper _ _)

/-! Branches, loops and jumps. -/

theorem superExpression_deepens : Deepens (superExpression recur) (superExpression recur') := by
  refine .next fun _ => .first (.next fun _ => .ite ?_ .refl)
  exact .next fun _ => .first (deeper _)

theorem throwExpression_deepens : Deepens (throwExpression recur) (throwExpression recur') :=
  .next fun _ => .first (deeper _)

theorem returnExpression_deepens : Deepens (returnExpression recur) (returnExpression recur') :=
  .next fun _ => .next fun _ => .next fun _ => .ite (.first (deeper _)) .refl

theorem conditionInto_deepens : Deepens (conditionInto recur m) (conditionInto recur' m) :=
  .withTrailingLambdas (.next fun _ => .first (deeper _))

/-- A body that is not just a semicolon. -/
theorem unlessEmpty_deepens {what : String} {kind : RawKind} :
    Deepens
      (do match ← emptyBody m what with
          | some empty => return empty
          | none => done (m.add (← controlBody recur)) kind)
      (do match ← emptyBody m what with
          | some empty => return empty
          | none => done (m.add (← controlBody recur')) kind) := by
  refine .next fun found => ?_
  cases found with
  | none => exact .first (controlBody_deepens deeper)
  | some empty => exact .refl

theorem ifExpression_deepens : Deepens (ifExpression recur) (ifExpression recur') := by
  refine .next fun _ => .bind (conditionInto_deepens deeper) fun _ => .next fun found => ?_
  cases found with
  | some empty => exact .refl
  | none =>
    refine .bind (controlBody_deepens deeper) fun _ => .next fun _ => .ite ?_ .refl
    exact .next fun _ => unlessEmpty_deepens deeper

theorem whenExpression_deepens : Deepens (whenExpression recur) (whenExpression recur') := by
  have condition : Deepens (whenCondition recur) (whenCondition recur') := by
    refine .next fun _ => .ite ?_ (.ite ?_ (.first (deeper _)))
    · exact .next fun _ => .first (deeper _)
    · exact .next fun _ => .first (deeper _)
  have entry : Deepens (whenEntry recur) (whenEntry recur') := by
    refine .bind (.next fun _ => .ite .refl (.commaList condition)) fun _ => ?_
    exact .next fun _ => .first (controlBody_deepens deeper)
  have subject : Deepens (whenSubject recur) (whenSubject recur') :=
    .next fun _ => .ite (propertyDeclaration_deepens deeper) (deeper _)
  refine .next fun _ => .bind (.next fun _ => .ite (.next fun _ => .first subject) .refl) fun _ => ?_
  exact .next fun _ => .first (.iterateWhile fun _ => .recovering entry)

theorem tryExpression_deepens : Deepens (tryExpression recur) (tryExpression recur') := by
  have clause : Deepens (catchClause recur) (catchClause recur') :=
    .next fun _ => .bind (valueParameters_deepens deeper) fun _ => .first (block_deepens deeper)
  refine .next fun _ => .bind (block_deepens deeper) fun _ => ?_
  refine .bind (.iterateWhile fun _ => .first clause) fun _ => .next fun _ => .ite ?_ .refl
  exact .next fun _ => .first (block_deepens deeper)

theorem forLoop_deepens : Deepens (forLoop recur) (forLoop recur') := by
  refine .next fun _ => .next fun _ => .bind (lambdaParameter_deepens deeper) fun _ => .next fun _ => ?_
  exact .bind (deeper _) fun _ => .next fun _ => unlessEmpty_deepens deeper

theorem whileLoop_deepens : Deepens (whileLoop recur) (whileLoop recur') :=
  .next fun _ => .bind (conditionInto_deepens deeper) fun _ => unlessEmpty_deepens deeper

theorem doWhileLoop_deepens : Deepens (doWhileLoop recur) (doWhileLoop recur') := by
  refine .next fun _ => .bind (controlBody_deepens deeper) fun _ => ?_
  exact .next fun _ => .first (conditionInto_deepens deeper)

theorem keywordExpression_deepens (word : String) :
    Deepens (keywordExpression recur word) (keywordExpression recur' word) := by
  unfold keywordExpression
  split
  · exact .refl
  · exact .refl
  · exact .refl
  · exact .refl
  · exact superExpression_deepens deeper
  · exact ifExpression_deepens deeper
  · exact whenExpression_deepens deeper
  · exact tryExpression_deepens deeper
  · exact forLoop_deepens deeper
  · exact whileLoop_deepens deeper
  · exact doWhileLoop_deepens deeper
  · exact throwExpression_deepens deeper
  · exact returnExpression_deepens deeper
  · exact .refl
  · exact .refl
  · exact classDeclaration_deepens deeper _
  · exact functionDeclaration_deepens deeper
  · exact .refl

/-! Primary expressions. -/

theorem stringTemplate_deepens : Deepens (stringTemplate recur) (stringTemplate recur') := by
  have template : Deepens (longTemplate recur) (longTemplate recur') :=
    .next fun _ => .first (.withTrailingLambdas (deeper _))
  refine .next fun _ => .first (.iterateWhile fun _ => ?_)
  exact .next fun _ => .ite .refl (.ite (.first template) .refl)

theorem nameExpression_deepens : Deepens (nameExpression recur) (nameExpression recur') := by
  have receiver : Deepens (typeReceiver recur) (typeReceiver recur') := .first (userType_deepens deeper _)
  exact .next fun _ => .ite (.first (.speculate receiver)) .refl

theorem bracketExpression_deepens (text : String) :
    Deepens (bracketExpression recur text) (bracketExpression recur' text) := by
  refine .ite ?_ (.ite (lambda_deepens deeper) (.ite ?_ .refl))
  · exact .withTrailingLambdas (.next fun _ => .first (deeper _))
  · exact .withTrailingLambdas (.next fun _ => .first (.commaList (deeper _)))

theorem primary_deepens : Deepens (primary recur) (primary recur') := by
  refine .next fun b => ?_
  split
  · exact .refl
  · split
    · exact nameExpression_deepens deeper
    · exact .refl
    · exact .refl
    · exact .refl
    · exact stringTemplate_deepens deeper
    · exact keywordExpression_deepens deeper _
    · exact bracketExpression_deepens deeper _
    · exact .refl

/-! Expressions by level. -/

theorem callSuffix_deepens (callee : Parsed) : Deepens (callSuffix recur callee) (callSuffix recur' callee) := by
  have types : Deepens (callTypeArguments recur) (callTypeArguments recur') :=
    .next fun _ => .ite (.speculate (.first (typeArguments_deepens deeper))) .refl
  have arguments : Deepens (callArguments recur) (callArguments recur') :=
    .next fun _ => .ite (.map (valueArguments_deepens deeper)) .refl
  have atLambda : Deepens (atLambdaArgument recur) (atLambdaArgument recur') :=
    .next fun _ => .ite .refl (.ite .refl (.ite (.lookahead (.first (annotationSetsInto_deepens deeper))) .refl))
  have lambdaArgument : Deepens (lambdaArgument recur) (lambdaArgument recur') :=
    .bind (annotationSetsInto_deepens deeper) fun _ => .next fun _ => .first (lambda_deepens deeper)
  have trailing (hasArguments : Bool) :
      Deepens (trailingLambda recur hasArguments) (trailingLambda recur' hasArguments) :=
    .next fun _ => .next fun _ => .ite (.bind atLambda fun _ => .ite (.map lambdaArgument) .refl) .refl
  refine .next fun _ => .ite .refl (.bind types fun _ => .bind arguments fun _ => ?_)
  exact .first (trailing _)

theorem callTurn_deepens (callee : Parsed) : Deepens (callTurn recur callee) (callTurn recur' callee) :=
  .first (callSuffix_deepens deeper callee)

theorem memberSelector_deepens : Deepens (memberSelector recur) (memberSelector recur') :=
  .next fun _ => .iterate fun _ => .next fun _ => .ite .refl (callTurn_deepens deeper _)

theorem postfixTurn_deepens (p : Parsed) : Deepens (postfixTurn recur p) (postfixTurn recur' p) := by
  refine .next fun _ => .ite .refl (.ite (.first ?_) (.ite .refl (.ite .refl (callTurn_deepens deeper p))))
  exact .withTrailingLambdas (.next fun _ => .first (.commaList (deeper _)))

theorem postfixChain_deepens : Deepens (postfixChain recur) (postfixChain recur') := by
  refine .bind (primary_deepens deeper) fun _ => .iterate fun _ => .next fun _ => ?_
  refine .ite .refl (.ite ?_ (.ite .refl (postfixTurn_deepens deeper _)))
  exact .next fun _ => .first (memberSelector_deepens deeper)

theorem unary_deepens : Deepens (unary recur) (unary recur') := by
  refine .next fun _ => .ite ?_ (.ite ?_ (.ite ?_ (postfixChain_deepens deeper)))
  · exact .next fun _ => .first (deeper _)
  · exact .bind (annotationSetsInto_deepens deeper) fun _ => .first (deeper _)
  · exact .next fun _ => .first (deeper _)

omit deeper in
theorem binaryLevel_deepens {ops : List String} {crossesNewline : Bool} {operand operand' : Grammar Parsed}
    (each : Deepens operand operand') :
    Deepens (binaryLevel ops crossesNewline operand) (binaryLevel ops crossesNewline operand') := by
  refine .bind each fun _ => .iterate fun _ => .next fun _ => .ite .refl ?_
  exact .next fun _ => .first each

theorem castLevel_deepens : Deepens (castLevel recur) (castLevel recur') := by
  refine .bind (deeper _) fun _ => .iterate fun _ => .next fun _ => .ite .refl ?_
  exact .next fun _ => .first (deeper _)

theorem namedLevel_deepens : Deepens (namedLevel recur) (namedLevel recur') := by
  have operand : Deepens (range recur) (range recur') :=
    binaryLevel_deepens (binaryLevel_deepens (binaryLevel_deepens (castLevel_deepens deeper)))
  exact .bind operand fun _ => .iterateWhile fun _ => .next fun _ => .first operand

theorem testLevel_deepens : Deepens (testLevel recur) (testLevel recur') := by
  have operand : Deepens (elvis recur) (elvis recur') := binaryLevel_deepens (namedLevel_deepens deeper)
  refine .bind operand fun _ => .iterate fun _ => .next fun _ => .ite .refl (.ite ?_ (.ite ?_ .refl))
  · exact .next fun _ => .first (deeper _)
  · exact .next fun _ => .first operand

theorem expression_deepens : Deepens (expression recur) (expression recur') := by
  have operand : Deepens (disjunction recur) (disjunction recur') := binaryLevel_deepens (binaryLevel_deepens
    (binaryLevel_deepens (binaryLevel_deepens (testLevel_deepens deeper))))
  refine .bind operand fun _ => .next fun _ => .ite .refl ?_
  exact .next fun _ => .first (deeper _)

theorem statement_deepens : Deepens (statement recur) (statement recur') := by
  have annotated : Deepens (annotatedStatement recur) (annotatedStatement recur') :=
    .bind (annotationSetsInto_deepens deeper) fun _ => .next fun _ => .ite (.first (deeper _)) .refl
  refine .bind (declaration_deepens deeper _) fun found => ?_
  cases found with
  | some p => exact .refl
  | none =>
    refine .next fun _ => .ite (.bind (.speculate annotated) fun found => ?_) (deeper _)
    cases found with
    | some p => exact .refl
    | none => exact deeper _

/-! All rules. -/

theorem body_deepens (r : Rule) : Deepens (body recur r) (body recur' r) := by
  cases r with
  | expression => exact expression_deepens deeper
  | unary => exact unary_deepens deeper
  | typeReference receiver => exact typeReference_deepens deeper receiver
  | annotationSet => exact annotationSet_deepens deeper
  | statement => exact statement_deepens deeper
  | classBody isEnum => exact classBody_deepens deeper isEnum

omit deeper in
/-- With more calls left a rule answers in the same way. -/
theorem rule_deepens {depth depth' : Nat} (le : depth ≤ depth') : Recur.Deepens (rule depth) (rule depth') := by
  induction depth generalizing depth' with
  | zero => exact fun r => .exhausted
  | succ depth ih =>
    cases depth' with
    | zero => omega
    | succ depth' => exact fun r => body_deepens (ih (by omega)) r

end KotlinSyntax.Grammar
