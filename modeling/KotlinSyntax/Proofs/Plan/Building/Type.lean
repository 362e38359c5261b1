import KotlinSyntax.Grammar.Type
import KotlinSyntax.Proofs.Plan.Building

/-! The rules of types build along the plans of their kinds. -/
namespace KotlinSyntax.Grammar

open Builder

variable {scope : Scope} {b : Builder} {m : Marker} {whole p : Plan} {x : Parsed} {recur : Recur}

/-! Modifiers. -/

theorem faces_of_standsModifier {place : ModifierPlace} {c : Cell} (stands : standsModifier place b = true)
    (known : Keyword.modifiers.all (c.texts.contains ·) = true) : Faces b 0 c := by
  simp only [standsModifier, Bool.and_eq_true] at stands
  cases seen : b.peek with
  | none => simp [seen] at stands
  | some t =>
    refine ⟨t, seen, fun _ => ?_⟩
    have member : t.text ∈ Keyword.modifiers := by simpa [seen] using stands.1
    have takes := List.all_eq_true.mp known t.text member
    simp only [Cell.takes, takes, Bool.true_or]

theorem modifierList_yields (keeps : Keeps recur) {place : ModifierPlace} :
    Yields scope (modifierList recur place) b fun x _ => ∀ y ∈ x, Fills (Plan.nodesCell [.modifierList]) y := by
  refine .bind (.iterate (I := fun m _ => Awaits (Plan.ofKind .modifierList) (Plan.ofKind .modifierList) m)
    (Q := fun m _ => Awaits (Plan.ofKind .modifierList) [] m) (.new .modifierList) fun m b on => ?_) fun _ _ on =>
    on.doneUnlessEmpty rfl
  refine .look (.ite (fun sign => ?_) fun _ => .ite (fun stands => ?_) fun _ => .pure on.stop)
  · exact .bind (keeps.annotationSet sign) fun _ _ fills => .pure (on.more.add (fills.widen (by decide)))
  · exact .bind (on.more.advance (faces_of_standsModifier stands (by decide))) fun _ _ on => .pure on

theorem modified_leads (keeps : Keeps recur) {place : ModifierPlace} (h : Awaits whole (Plan.modifiers :: p) m) :
    Leads scope (modified recur place m) b whole p :=
  .bind (modifierList_yields keeps) fun _ _ fills => .pure (h.add? fills)

theorem typeSuffix_leads (keeps : Keeps recur) (h : Awaits whole (Plan.type :: p) m) :
    Leads scope (typeSuffix recur m) b whole p :=
  .look <| .ite
    (fun seen =>
      .bind (h.left.advance (.word seen rfl)) fun _ _ on =>
      .bind keeps.type fun _ _ fills => .pure (on.add fills))
    fun _ => .pure h.right

/-! Names. -/

theorem typeArgument_yields (keeps : Keeps recur) :
    Produces scope (typeArgument recur) b (Plan.nodesCell [.typeProjection]) := by
  have start := Awaits.new .typeProjection
  refine .look (.ite (fun star => ?_) fun _ => ?_)
  · exact .bind (start.left.advance (.word star rfl)) fun _ _ on => on.done rfl
  · exact .bind (modified_leads keeps start.right) fun _ _ on =>
      .bind keeps.type fun _ _ fills => (on.add fills).done rfl

theorem typeArguments_yields (keeps : Keeps recur) :
    Produces scope (typeArguments recur) b (Plan.nodesCell [.typeArgumentList]) :=
  bracketed_yields rfl rfl fun _ => typeArgument_yields keeps

/-- A name with its type arguments, which may become a qualifier or the end of a type. -/
theorem typeSegment_leads (keeps : Keeps recur) :
    Leads scope (typeSegment recur) b (Plan.ofKind .typeQualifier) [] := by
  have start := Awaits.new .typeQualifier
  exact .bind start.expectName fun _ _ on => on.addIf fun _ => typeArguments_yields keeps

theorem userType_yields (keeps : Keeps recur) {receiver : Bool} :
    Produces scope (userType recur receiver) b (Plan.nodesCell [.userType]) := by
  refine .bind (typeSegment_leads keeps) fun first _ on => ?_
  refine .bind (.iterateWhile (I := fun s _ => Awaits (Plan.ofKind .userType) (Plan.ofKind .userType) s.1 ∧
    Awaits (Plan.ofKind .typeQualifier) [] s.2) ⟨.new .userType, on⟩ ?_) ?_
  · rintro ⟨m, segment⟩ b ⟨type, name⟩ goesOn
    simp only [Bool.and_eq_true] at goesOn
    refine .bind (name.doneHere (c := Plan.nodesCell [.typeQualifier]) rfl) ?_
    rintro qualifier _ ⟨fills, rfl⟩
    exact .bind ((type.more.add fills).advance (.word goesOn.1.1 rfl)) fun _ _ type =>
      .bind (typeSegment_leads keeps) fun _ _ name => .pure ⟨type, name⟩
  · rintro ⟨m, segment⟩ b ⟨⟨type, name⟩, _⟩
    exact (type.stop.absorb name).done rfl

/-! Types. -/

theorem nullableSuffix_yields (fills : Fills Plan.typeCell x) :
    Produces scope (nullableSuffix x) b Plan.typeCell := by
  refine .look (.ite (fun _ => ?_) fun _ => .pure fills)
  refine .bind (.iterateWhile (I := fun m _ => Gathered m) (.ofParsed fills) fun m b gathered again => ?_) ?_
  · simp only [Bool.and_eq_true] at again
    obtain ⟨t, seen, _⟩ := peek_of_sees again.1
    exact (gathered.advance seen).mono fun _ _ after => after.1
  · exact fun m b after => after.1.refused rfl

theorem functionTypeParameter_yields (keeps : Keeps recur) :
    Produces scope (functionTypeParameter recur) b (Plan.nodesCell [.functionTypeParameter]) := by
  have start := Awaits.new .functionTypeParameter
  refine .bind (start.advanceTwiceIf (fun seen => ?_) fun seen => ?_) fun _ _ on =>
    .bind keeps.type fun _ _ fills => (on.add fills).done rfl
  · exact .name (Bool.and_eq_true_iff.mp seen).1 rfl
  · exact .word (Bool.and_eq_true_iff.mp seen).2 rfl

theorem functionType_yields (keeps : Keeps recur) (h : Awaits (Plan.ofKind .functionType)
    [Plan.node .functionTypeParameterList, Plan.word "->", Plan.node .typeReference] m) :
    Produces scope (functionType recur m) b Plan.typeCell :=
  .bind (bracketed_yields rfl rfl fun _ => functionTypeParameter_yields keeps) fun _ _ fills =>
  .bind (h.add fills).expect fun _ _ on =>
  .bind keeps.type fun _ _ fills => (on.add fills).done rfl

theorem contextReceiver_yields (keeps : Keeps recur) :
    Produces scope (contextReceiver recur) b (Plan.nodesCell [.contextReceiver]) :=
  .bind keeps.type fun _ _ fills => ((Awaits.new .contextReceiver).add fills).done rfl

theorem contextReceivers_yields (keeps : Keeps recur) (seen : b.sees "context" = true) :
    Produces scope (contextReceivers recur) b (Plan.nodesCell [.contextReceiverList]) := by
  have start := Awaits.new .contextReceiverList
  exact .bind (start.advance (.word seen rfl)) fun _ _ on =>
    .bind on.expect fun _ _ on =>
    .bind (on.commaList fun _ => contextReceiver_yields keeps) fun _ _ on =>
    .bind on.expect fun _ _ on => on.done rfl

theorem namedType_yields (keeps : Keeps recur) {receiver : Bool} :
    Produces scope (namedType recur receiver) b Plan.typeCell := by
  have start := Awaits.new .dynamicType
  refine .look (.ite (fun dynamic => ?_) fun _ => ?_)
  · exact .bind (start.advance (.word (Bool.and_eq_true_iff.mp dynamic).1 rfl)) fun _ _ on => on.done rfl
  · exact (userType_yields keeps).mono fun _ _ fills => fills.widen (by decide)

theorem nullableIf_yields (fills : Fills Plan.typeCell x) : Produces scope (nullableIf x) b Plan.typeCell := by
  have start := Awaits.new .nullableType
  have type : Awaits (Plan.ofKind .nullableType) [Plan.word "?"] (.ofParsed x) := start.right.right.begin fills
  refine .look (.ite (fun nullable => ?_) fun _ => .pure fills)
  exact .bind (type.advance (.word (Bool.and_eq_true_iff.mp nullable).1 rfl)) fun _ _ on =>
    .bind (on.done rfl) fun _ _ fills => nullableSuffix_yields fills

/-- A type without parentheses and modifiers is a reference by itself. -/
theorem typeReference_begin (fills : Fills Plan.typeCell x) : Awaits (Plan.ofKind .typeReference) [] (.ofParsed x) := by
  have start := Awaits.new .typeReference
  exact start.right.right.begin fills

theorem receiverOf_yields (keeps : Keeps recur) (fills : Fills Plan.typeCell x) :
    Produces scope (receiverOf recur x) b Plan.typeCell := by
  refine .look (.ite (fun dot => ?_) fun _ => .pure fills)
  refine .bind ((typeReference_begin fills).doneHere (c := Plan.nodesCell [.typeReference]) rfl) ?_
  rintro reference _ ⟨fills, rfl⟩
  have start := Awaits.new .functionTypeReceiver
  have type := Awaits.new .functionType
  exact .bind ((start.begin fills).advance (.word (Bool.and_eq_true_iff.mp dot).1 rfl)) fun _ _ on =>
    .bind (on.done rfl) fun _ _ fills => functionType_yields keeps (type.right.left.add fills)

theorem typeBody_yields (keeps : Keeps recur) {receiver : Bool} :
    Produces scope (typeBody recur receiver) b Plan.typeCell := by
  have start := Awaits.new .functionType
  refine .look (.ite (fun _ => .ite (fun _ => ?_) fun _ => ?_) fun _ => .ite (fun context => ?_) fun _ => ?_)
  · exact functionType_yields keeps start.right.right
  · exact .bind keeps.type fun _ _ fills => (Gathered.empty.add fills).refused rfl
  · exact .bind (contextReceivers_yields keeps (Bool.and_eq_true_iff.mp context).1) fun _ _ fills =>
      functionType_yields keeps (start.left.add fills).right
  · exact .bind (namedType_yields keeps) fun _ _ fills =>
      .bind (nullableIf_yields fills) fun _ _ fills => receiverOf_yields keeps fills

theorem groupedType_yields (keeps : Keeps recur) (seen : b.sees "(" = true) :
    Produces scope (groupedType recur) b (Plan.nodesCell [.typeReference]) := by
  have start := Awaits.new .typeReference
  refine .bind (start.left.advance (.word seen rfl)) fun _ _ on =>
    .bind (modified_leads keeps on) fun _ _ on =>
    .bind (typeBody_yields keeps) fun _ _ fills =>
    .bind (on.add fills).expect fun m _ on => .look (.ite (fun nullable => ?_) fun _ => on.done rfl)
  have whole : Awaits (Plan.ofKind .nullableType) [Plan.word "?"] m := on.goOn _
  exact .bind (whole.advance (.word (Bool.and_eq_true_iff.mp nullable).1 rfl)) fun _ _ on =>
    .bind (on.done rfl) fun _ _ fills =>
    .bind (nullableSuffix_yields fills) fun _ _ fills => (typeReference_begin fills).done rfl

theorem typeReference_yields (keeps : Keeps recur) {receiver : Bool} :
    Produces scope (typeReference recur receiver) b (Plan.nodesCell [.typeReference]) := by
  have start := Awaits.new .typeReference
  refine .look (.ite (fun grouped => ?_) fun _ => ?_)
  · exact groupedType_yields keeps (Bool.and_eq_true_iff.mp grouped).1
  · exact .bind (modified_leads keeps start.right) fun _ _ on =>
      .bind (typeBody_yields keeps) fun _ _ fills => (on.add fills).done rfl

/-! Type parameters and constraints. -/

theorem typeParameter_yields (keeps : Keeps recur) :
    Produces scope (typeParameter recur) b (Plan.nodesCell [.typeParameter]) :=
  .bind (modified_leads keeps (.new .typeParameter)) fun _ _ on =>
  .bind on.expectName fun _ _ on =>
  .bind (typeSuffix_leads keeps on) fun _ _ on => on.done rfl

theorem typeParametersInto_leads (keeps : Keeps recur) (h : Awaits whole (Plan.typeParameters :: p) m) :
    Leads scope (typeParametersInto recur m) b whole p :=
  h.addIf fun _ => bracketed_yields rfl rfl fun _ => typeParameter_yields keeps

theorem annotationSetsInto_leads (keeps : Keeps recur) (h : Awaits whole (.many [Plan.node .annotationSet] :: p) m) :
    Leads scope (annotationSetsInto recur m) b whole p :=
  (h.iterateWhile fun _ _ on seen =>
    .bind (keeps.annotationSet seen) fun _ _ fills => .pure (on.add fills)).mono fun _ _ after => after.1

theorem typeConstraint_yields (keeps : Keeps recur) :
    Produces scope (typeConstraint recur) b (Plan.nodesCell [.typeConstraint]) :=
  .bind (annotationSetsInto_leads keeps (.new .typeConstraint)) fun _ _ on =>
  .bind on.expectName fun _ _ on =>
  .bind on.expect fun _ _ on =>
  .bind keeps.type fun _ _ fills => (on.add fills).done rfl

theorem typeConstraintSet_yields (keeps : Keeps recur) (seen : b.sees "where" = true) :
    Produces scope (typeConstraintSet recur) b (Plan.nodesCell [.typeConstraintSet]) := by
  have start := Awaits.new .typeConstraintSet
  have list := Awaits.new .typeConstraintList
  refine .bind (start.advance (.word seen rfl)) fun _ _ on =>
    .bind (typeConstraint_yields keeps) fun _ _ first =>
    .bind ((list.left.add first).iterateWhile fun _ _ list comma => ?_) fun _ _ list =>
    .bind (list.1.done rfl) fun _ _ fills => (on.add fills).done rfl
  exact .bind (list.advance (.word comma rfl)) fun _ _ list =>
    .bind (typeConstraint_yields keeps) fun _ _ next => .pure (list.more.add next.orComma)

theorem constraintsInto_leads (keeps : Keeps recur)
    (h : Awaits whole (Plan.opt [Plan.node .typeConstraintSet] :: p) m) :
    Leads scope (constraintsInto recur m) b whole p :=
  h.addIf fun seen => typeConstraintSet_yields keeps seen

end KotlinSyntax.Grammar
