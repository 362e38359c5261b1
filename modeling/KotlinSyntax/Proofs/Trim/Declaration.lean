import KotlinSyntax.Grammar.Declaration
import KotlinSyntax.Proofs.Trim.Building

/-! The rules of types, statements and declarations build trimmed nodes. A declaration ends with a part or with the
comment bound to it. The comma behind the last entry of an enumeration is trivia at the end of a marker, until the
closing brace of the class comes behind it. -/
namespace KotlinSyntax.Grammar

open Marker

variable {m : Marker} {p : Parsed} {recur : Recur}

/-! Types. -/

theorem modifierList_offers_tidy (careful : Careful recur) {place : ModifierPlace} :
    Always (modifierList recur place) Optional := by
  refine .bind (R := Tidy) (.iterate Tidy.empty fun m on => .behind fun _ => ?_) fun _ on => on.doneUnlessEmpty
  refine .ite ((careful _).bind fun _ given => .pure (on.add given)) (.ite ?_ (.pure on))
  exact on.advance.bind fun _ on => .pure on

theorem modified_grows (careful : Careful recur) {place : ModifierPlace} (h : m.Tidy) :
    Grows (modified recur place m) :=
  (modifierList_offers_tidy careful).bind fun _ given => .pure (h.add? given)

theorem typeSuffix_grows (careful : Careful recur) (h : m.Tidy) : Grows (typeSuffix recur m) :=
  .behind fun _ => .ite (h.advance.bind fun _ on => on.addRule (careful _)) (.pure h)

theorem typeArguments_builds (careful : Careful recur) : Builds (typeArguments recur) := by
  have argument : Builds (typeArgument recur) :=
    .behind fun _ => .ite (Tidy.empty.advance.bind fun _ on => on.done)
      ((modified_grows careful .empty).bind fun _ on => on.close (careful _))
  exact bracketed_builds argument

/-- A segment holds its name at least. -/
theorem typeSegment_full (careful : Careful recur) : Always (typeSegment recur) Full :=
  .bind (.behind fun _ => .ite Tidy.empty.advance_full .reject) fun _ on => .behind fun _ => .ite
    ((typeArguments_builds careful).bind fun _ given => .pure (on.add_full given)) (.pure on)

theorem userType_builds (careful : Careful recur) {receiver : Bool} : Builds (userType recur receiver) := by
  refine (typeSegment_full careful).bind fun first on => .bind
    (.iterateWhile (I := fun s => s.1.Tidy ∧ s.2.Full) ⟨.empty, on⟩ ?_) fun s on => (on.1.absorb on.2).done
  rintro ⟨m, segment⟩ ⟨type, name⟩
  exact name.done.bind fun _ given => (type.add given).advance.bind fun _ type =>
    (typeSegment_full careful).bind fun _ name => .pure ⟨type, name⟩

theorem nullableSuffix_builds (given : p.Tidy) : Builds (nullableSuffix p) :=
  .behind fun _ => .ite
    (((Tidy.ofParsed given).iterateWhile fun _ on => on.advance).bind fun _ on => on.done) (.pure given)

theorem functionType_builds (careful : Careful recur) (h : m.Tidy) : Builds (functionType recur m) := by
  have parameter : Builds (functionTypeParameter recur) :=
    Tidy.empty.advanceTwiceIf.bind fun _ on => on.close (careful _)
  exact (bracketed_builds parameter).bind fun _ given => (h.add given).expect.bind fun _ on => on.close (careful _)

theorem contextReceivers_builds (careful : Careful recur) : Builds (contextReceivers recur) := by
  have receiver : Builds (contextReceiver recur) := Tidy.empty.close (careful _)
  exact Tidy.empty.advance.bind fun _ on => on.expect.bind fun _ on => (on.commaList receiver).bind fun _ on =>
    on.expect.bind fun _ on => on.done

theorem namedType_builds (careful : Careful recur) {receiver : Bool} : Builds (namedType recur receiver) :=
  .behind fun _ => .ite (Tidy.empty.advance.bind fun _ on => on.done) (userType_builds careful)

theorem nullableIf_builds (given : p.Tidy) : Builds (nullableIf p) :=
  .behind fun _ => .ite
    ((Tidy.ofParsed given).advance.bind fun _ on => on.done.bind fun _ given => nullableSuffix_builds given)
    (.pure given)

theorem receiverOf_builds (careful : Careful recur) (given : p.Tidy) : Builds (receiverOf recur p) :=
  .behind fun _ => .ite
    ((Tidy.ofParsed given).done.bind fun _ reference => (Tidy.ofParsed reference).advance.bind fun _ on =>
      on.done.bind fun _ receiver => functionType_builds careful (Tidy.empty.add receiver))
    (.pure given)

theorem typeBody_builds (careful : Careful recur) {receiver : Bool} : Builds (typeBody recur receiver) := by
  refine .behind fun _ => .ite (.ite (functionType_builds careful .empty) (Tidy.empty.close (careful _))) (.ite ?_ ?_)
  · exact (contextReceivers_builds careful).bind fun _ given => functionType_builds careful (Tidy.empty.add given)
  · exact (namedType_builds careful).bind fun _ given => (nullableIf_builds given).bind fun _ given =>
      receiverOf_builds careful given

theorem groupedType_builds (careful : Careful recur) : Builds (groupedType recur) := by
  refine Tidy.empty.advance.bind fun _ on => (modified_grows careful on).bind fun _ on =>
    (typeBody_builds careful).bind fun _ given => (on.add given).expect.bind fun _ on => .behind fun _ => .ite ?_ on.done
  exact on.advance.bind fun _ on => on.done.bind fun _ nullable => Tidy.empty.close (nullableSuffix_builds nullable)

theorem typeReference_builds (careful : Careful recur) {receiver : Bool} : Builds (typeReference recur receiver) :=
  .behind fun _ => .ite (groupedType_builds careful)
    ((modified_grows careful .empty).bind fun _ on => on.close (typeBody_builds careful))

theorem typeParametersInto_grows (careful : Careful recur) (h : m.Tidy) : Grows (typeParametersInto recur m) := by
  have parameter : Builds (typeParameter recur) :=
    (modified_grows careful .empty).bind fun _ on => on.expectName.bind fun _ on =>
      (typeSuffix_grows careful on).bind fun _ on => on.done
  exact h.addIf (bracketed_builds parameter)

theorem annotationSetsInto_grows (careful : Careful recur) (h : m.Tidy) : Grows (annotationSetsInto recur m) :=
  h.iterateWhile fun _ on => on.addRule (careful _)

theorem typeConstraintSet_builds (careful : Careful recur) : Builds (typeConstraintSet recur) := by
  have constraint : Builds (typeConstraint recur) :=
    (annotationSetsInto_grows careful .empty).bind fun _ on => on.expectName.bind fun _ on =>
      on.expect.bind fun _ on => on.close (careful _)
  refine Tidy.empty.advance.bind fun _ on => constraint.bind fun _ first =>
    ((Tidy.empty.add first).iterateWhile fun _ list => ?_).bind fun _ list => on.close list.done
  exact list.advance.bind fun _ list => list.addRule constraint

theorem constraintsInto_grows (careful : Careful recur) (h : m.Tidy) : Grows (constraintsInto recur m) :=
  h.addIf (typeConstraintSet_builds careful)

/-! Arguments, annotations and parameters. -/

theorem valueArguments_builds (careful : Careful recur) : Builds (valueArguments recur) := by
  have argument : Builds (valueArgument recur) :=
    Tidy.empty.advanceTwiceIf.bind fun _ on => on.advanceIf.bind fun _ on => on.close (careful _)
  exact .withTrailingLambdas (bracketed_builds argument)

theorem annotationEntry_builds (careful : Careful recur) : Builds (annotationEntry recur) :=
  (userType_builds careful).bind fun _ given =>
    ((Tidy.empty.add given).addIf (valueArguments_builds careful)).bind fun _ on => on.done

theorem annotationSet_builds (careful : Careful recur) : Builds (annotationSet recur) := by
  refine Tidy.empty.advance.bind fun _ on => on.advanceTwiceIf.bind fun _ on => .behind fun _ => .ite ?_
    (on.close (annotationEntry_builds careful))
  exact on.advance.bind fun _ on => (on.iterateWhile fun _ on => on.addRule (annotationEntry_builds careful)).bind
    fun _ on => on.advance.bind fun _ on => on.done

theorem assignedInto_grows (careful : Careful recur) (h : m.Tidy) : Grows (assignedInto recur m) :=
  .behind fun _ => .ite (h.advance.bind fun _ on => on.addRule (careful _)) (.pure h)

theorem valueParameters_builds (careful : Careful recur) : Builds (valueParameters recur) := by
  have parameter : Builds (valueParameter recur) :=
    (modified_grows careful .empty).bind fun _ on => on.advanceIf.bind fun _ on => on.expectName.bind fun _ on =>
      (typeSuffix_grows careful on).bind fun _ on => (assignedInto_grows careful on).bind fun _ on => on.done
  exact .withTrailingLambdas (bracketed_builds parameter)

/-! Statements. -/

/-- Skipped tokens are a node like any other. -/
theorem statementsInto_grows (careful : Careful recur) {stops : Builder → Bool} (h : m.Tidy) :
    Grows (statementsInto recur stops m) := by
  refine .bind (.iterateWhile (I := fun s => s.1.Tidy) h ?_) fun _ on => .pure on
  rintro ⟨m, isFirst⟩ on
  exact .behind fun _ => .behind fun _ => (recovering_tidy on (careful _)).bind fun _ on => .pure on

theorem block_builds (careful : Careful recur) : Builds (block recur) :=
  .withTrailingLambdas <| Tidy.empty.expect.bind fun _ on => (statementsInto_grows careful on).bind fun _ on =>
    on.expect.bind fun _ on => on.done

theorem controlBody_builds (careful : Careful recur) : Builds (controlBody recur) :=
  .behind fun _ => .ite (block_builds careful) (careful _)

/-! Lambdas. -/

theorem lambdaParameter_builds (careful : Careful recur) : Builds (lambdaParameter recur) := by
  have one : Builds (lambdaParameterVariable recur) :=
    (modified_grows careful .empty).bind fun _ on => on.expectName.bind fun _ on =>
      (typeSuffix_grows careful on).bind fun _ on => on.done
  refine .behind fun _ => .ite ?_ (Tidy.empty.close one)
  exact Tidy.empty.advance.bind fun _ on => (on.commaList one).bind fun _ on => on.expect.bind fun _ on =>
    (typeSuffix_grows careful on).bind fun _ on => on.done

theorem lambdaParametersInto_grows (careful : Careful recur) (h : m.Tidy) :
    Grows (lambdaParametersInto recur m) := by
  have parameters : Builds (lambdaParameters recur) :=
    (Tidy.empty.commaList (lambdaParameter_builds careful)).bind fun _ on => on.done.bind fun _ given =>
      .behind fun _ => .ite (.pure given) .reject
  refine .behind fun _ => .ite h.advance ((Always.speculate parameters).bind ?_)
  rintro (_ | p) given
  · exact .pure h
  · exact (h.add (given p rfl)).advance

theorem lambda_builds (careful : Careful recur) : Builds (lambda recur) := by
  have body : Always (lambdaBody recur) Optional :=
    (statementsInto_grows careful .empty).bind fun _ on => on.doneUnlessEmpty
  exact .withTrailingLambdas <| Tidy.empty.expect.bind fun _ on => (lambdaParametersInto_grows careful on).bind
    fun _ on => body.bind fun _ given => (on.add? given).expect.bind fun _ on => on.done

/-! Classes. -/

theorem primaryConstructorInto_grows (careful : Careful recur) {isObject : Bool} (h : m.Tidy) :
    Grows (primaryConstructorInto recur isObject m) := by
  have offers : Always (primaryConstructor recur) Optional := by
    refine .behind fun _ => .ite ((valueParameters_builds careful).bind fun _ given => ?_) (.speculate ?_)
    · exact .map (Tidy.empty.add given).done.optional
    · exact (modified_grows careful .empty).bind fun _ on => on.expect.bind fun _ on =>
        on.close (valueParameters_builds careful)
  exact .ite (.pure h) (offers.bind fun _ given => .pure (h.add? given))

theorem superType_builds (careful : Careful recur) : Builds (superType recur) := by
  refine (userType_builds careful).bind fun _ given => .behind fun _ => ?_
  have on := Tidy.empty.add given
  refine .ite (on.close (valueArguments_builds careful)) (.ite ?_ on.done)
  exact on.advance.bind fun _ on => on.close (.withTrailingLambdas (careful _))

theorem superTypes_builds (careful : Careful recur) : Builds (superTypes recur) := by
  refine Tidy.empty.advance.bind fun _ on => (superType_builds careful).bind fun _ given =>
    ((on.add given).iterateWhile fun _ on => ?_).bind fun _ on => on.done
  exact on.advance.bind fun _ on => on.addRule (superType_builds careful)

theorem classDeclaration_builds (careful : Careful recur) {isEnum : Bool} (h : m.Tidy) :
    Builds (classDeclaration recur m isEnum) :=
  .behind fun _ => h.advance.bind fun _ on => on.advanceIf.bind fun _ on =>
    (typeParametersInto_grows careful on).bind fun _ on =>
    (primaryConstructorInto_grows careful on).bind fun _ on =>
    (on.addIf (superTypes_builds careful)).bind fun _ on =>
    (constraintsInto_grows careful on).bind fun _ on =>
    (on.addIf (careful _)).bind fun _ on => on.doneBound rfl

theorem initializerBlock_builds (careful : Careful recur) (h : m.Tidy) : Builds (initializerBlock recur m) :=
  h.advance.bind fun _ on => (block_builds careful).bind fun _ given => (on.add given).doneBound rfl

theorem secondaryConstructor_builds (careful : Careful recur) (h : m.Tidy) :
    Builds (secondaryConstructor recur m) := by
  have call : Builds (delegationCall recur) :=
    Tidy.empty.expectAny.bind fun _ on => on.close (valueArguments_builds careful)
  have delegation {m : Marker} (on : m.Tidy) : Grows (delegationInto recur m) :=
    .behind fun _ => .ite (on.advance.bind fun _ on => on.addRule call) (.pure on)
  exact h.advance.bind fun _ on => (valueParameters_builds careful).bind fun _ given =>
    (delegation (on.add given)).bind fun _ on => (on.addIf (block_builds careful)).bind fun _ on => on.doneBound rfl

/-! Functions. -/

theorem receiverInto_grows (careful : Careful recur) (h : m.Tidy) : Grows (receiverInto recur m) := by
  have type : Always (receiverType recur) Optional :=
    .speculate ((careful _).bind fun _ given => .behind fun _ => .ite (.pure (given.withRole "receiver")) .reject)
  refine type.bind ?_
  rintro (_ | p) given
  · exact .pure h
  · exact (h.add (given p rfl)).advance

theorem postModifiersInto_grows (careful : Careful recur) (h : m.Tidy) : Grows (postModifiersInto recur m) := by
  have effect : Builds (contractEffect recur) := Tidy.empty.close (careful _)
  have contract : Builds (contract recur) := Tidy.empty.advance.bind fun _ on => on.close (bracketed_builds effect)
  refine .iterate h fun m on => .behind fun _ => .ite ?_ (.ite ?_ (.pure on))
  · exact (typeConstraintSet_builds careful).bind fun _ given => .pure (on.add given)
  · exact contract.bind fun _ given => .pure (on.add given)

theorem functionBodyInto_grows (careful : Careful recur) (h : m.Tidy) : Grows (functionBodyInto recur m) :=
  .behind fun _ => .ite (assignedInto_grows careful h) (.ite (h.addRule (block_builds careful)) (.pure h))

theorem functionDeclaration_builds (careful : Careful recur) (h : m.Tidy) :
    Builds (functionDeclaration recur m) := by
  have name {m : Marker} (on : m.Tidy) : Grows (functionNameInto recur m) :=
    .behind fun _ => .ite (.pure on) ((receiverInto_grows careful on).bind fun _ on => on.advanceIf)
  exact h.advance.bind fun _ on => (typeParametersInto_grows careful on).bind fun _ on => (name on).bind fun _ on =>
    (valueParameters_builds careful).bind fun _ given => (typeSuffix_grows careful (on.add given)).bind fun _ on =>
    (postModifiersInto_grows careful on).bind fun _ on => (functionBodyInto_grows careful on).bind fun _ on =>
    on.doneBound rfl

/-! Properties. -/

theorem accessor_offers (careful : Careful recur) : Always (accessor recur) Optional := by
  have parameters {m : Marker} {isGetter : Bool} (on : m.Tidy) : Grows (accessorParametersInto recur isGetter m) :=
    .ite (on.advance.bind fun _ on => on.expect.bind fun _ on => typeSuffix_grows careful on)
      (on.addRule (valueParameters_builds careful))
  have body {m : Marker} {isGetter : Bool} (on : m.Tidy) : Grows (accessorBodyInto recur isGetter m) := by
    refine .behind fun _ => .ite ((parameters on).bind fun _ on => .behind fun _ => ?_) (.ite .reject (.pure on))
    exact .ite (functionBodyInto_grows careful on) .reject
  exact .speculate ((modified_grows careful .empty).bind fun _ on => .behind fun _ => on.expectAny.bind fun _ on =>
    (body on).bind fun _ on => on.done)

theorem accessorsInto_grows (careful : Careful recur) (h : m.Tidy) : Grows (accessorsInto recur m) := by
  refine (accessor_offers careful).bind ?_
  rintro (_ | first) given
  · exact .pure h
  · exact (accessor_offers careful).bind fun _ second => .pure ((h.add (given first rfl)).add? second)

theorem propertyValueInto_grows (careful : Careful recur) (h : m.Tidy) : Grows (propertyValueInto recur m) := by
  refine .behind fun _ => .ite (assignedInto_grows careful h) (.ite ?_ (.pure h))
  exact Tidy.empty.advance.bind fun _ on => (careful _).bind fun _ given => h.addRule (on.add given).done

theorem bindingsInto_grows (careful : Careful recur) (h : m.Tidy) : Grows (bindingsInto recur m) := by
  have entry : Builds (destructuringEntry recur) :=
    Tidy.empty.expectName.bind fun _ on => (typeSuffix_grows careful on).bind fun _ on => on.done
  refine .behind fun _ => .ite ?_ (h.expectName.bind fun _ on => typeSuffix_grows careful on)
  exact h.advance.bind fun _ on => (on.commaList entry).bind fun _ on => on.expect

theorem propertyDeclaration_builds (careful : Careful recur) (h : m.Tidy) :
    Builds (propertyDeclaration recur m) := by
  have receiver {m : Marker} (on : m.Tidy) : Grows (propertyReceiverInto recur m) :=
    .behind fun _ => .ite (.pure on) (receiverInto_grows careful on)
  exact h.advance.bind fun _ on => (typeParametersInto_grows careful on).bind fun _ on =>
    (receiver on).bind fun _ on => (bindingsInto_grows careful on).bind fun _ on =>
    (constraintsInto_grows careful on).bind fun _ on => (propertyValueInto_grows careful on).bind fun _ on =>
    (accessorsInto_grows careful on).bind fun _ on => on.doneBound rfl

theorem typeAlias_builds (careful : Careful recur) (h : m.Tidy) : Builds (typeAlias recur m) :=
  h.advance.bind fun _ on => on.expectName.bind fun _ on => (typeParametersInto_grows careful on).bind fun _ on =>
    on.expect.bind fun _ on => (careful _).bind fun _ given => (on.add given).doneBound rfl

/-! Declarations of any sort. -/

theorem declarationRule?_builds (careful : Careful recur) {place : DeclarationPlace} {b : Builder}
    {modifiers : Option Parsed} {rule : Grammar Parsed} (h : m.Tidy)
    (found : declarationRule? recur place b modifiers m = some rule) : Builds rule := by
  unfold declarationRule? at found
  split at found
  case h_2 => cases found
  split at found
  case isFalse => cases found
  split at found
  · cases found
    exact classDeclaration_builds careful h
  · cases found
    exact classDeclaration_builds careful h
  · split at found <;> cases found
    exact classDeclaration_builds careful h
  · split at found <;> cases found
    exact functionDeclaration_builds careful h
  · split at found <;> cases found
    exact propertyDeclaration_builds careful h
  · split at found <;> cases found
    exact propertyDeclaration_builds careful h
  · cases found
    exact typeAlias_builds careful h
  · split at found <;> cases found
    exact secondaryConstructor_builds careful h
  · split at found <;> cases found
    exact initializerBlock_builds careful h
  · cases found

theorem declaration_offers_tidy (careful : Careful recur) {place : DeclarationPlace} :
    Always (declaration recur place) Optional := by
  refine .behind fun _ => (modifierList_offers_tidy careful).bind fun modifiers given => .behind fun b => ?_
  have on := Tidy.empty.add? given
  cases found : declarationRule? recur place b modifiers (Marker.empty.add? modifiers) with
  | some rule => exact .map (declarationRule?_builds careful on found).optional
  | none => exact .ite (.behind fun _ => .behind fun _ => .pure nofun) .reject

theorem declarationOnly_builds (careful : Careful recur) {place : DeclarationPlace} {what : String} :
    Builds (declarationOnly recur place what) := by
  refine (declaration_offers_tidy careful).bind ?_
  rintro (_ | p) given
  · exact .reject
  · exact .pure (given p rfl)

/-! Class bodies. -/

/-- The last entry may have a comma behind it that counts as trivia. -/
theorem enumEntriesInto_begun (careful : Careful recur) (h : m.Tidy) : Always (enumEntriesInto recur m) Begun := by
  have entry : Builds (enumEntry recur) :=
    (modified_grows careful .empty).bind fun _ on => on.expectName.bind fun _ on =>
      (on.addIf (valueArguments_builds careful)).bind fun _ on => (on.addIf (careful _)).bind fun _ on => on.done
  refine .iterate (I := Tidy) h fun m on => .behind fun _ => .ite (entry.bind fun p given => ?_) (.pure on.toBegun)
  have on := on.add_full given
  have comma : Always (do return Turn.stop (← advanceAsTrivia (m.add p))) (Turn.Holds Tidy Begun) :=
    (on.advanceAsTrivia on.filled).bind fun _ on => .pure on
  refine .behind fun _ => .ite (.pure on.toBegun) (.ite comma (.behind fun _ => .ite ?_ comma))
  exact on.advance.bind fun _ on => .pure on

theorem membersInto_begun (careful : Careful recur) {isEnum : Bool} (h : m.Tidy) :
    Always (membersInto recur isEnum m) Begun := by
  have entries : Always (entriesInto recur isEnum m) Begun :=
    .ite (enumEntriesInto_begun careful h) (.pure h.toBegun)
  refine entries.bind fun _ on => .iterateWhile on fun _ on =>
    (recovering_grows on (declarationOnly_builds careful)).mono ?_
  rintro m' (rfl | tidy)
  · exact on
  · exact tidy.toBegun

theorem classBody_builds (careful : Careful recur) {isEnum : Bool} : Builds (classBody recur isEnum) :=
  .withTrailingLambdas <| Tidy.empty.expect.bind fun _ on => (membersInto_begun careful on).bind fun _ on =>
    on.expect.bind fun _ on => on.done

end KotlinSyntax.Grammar
