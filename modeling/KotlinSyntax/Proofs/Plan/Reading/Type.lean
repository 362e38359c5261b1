import KotlinSyntax.Proofs.Plan.Reading

/-! The rules of types, modifiers, annotations and arguments read along the plans of their kinds. -/
namespace KotlinSyntax.Conversion

attribute [local simp] Kind.demands Demand.pairedParentheses Demand.paired

variable {o : Owner} {items : List Item}

theorem list_accepts {k : Kind} {opening closing : String} {element : RawKind}
    (h : On (Plan.list opening closing element) items)
    (other : (Plan.Cell.orComma (Plan.nodesCell [element])).mayMeet (.text closing) = false)
    (reads : Goal.part.reads element = true) (none : k.demands = []) :
    Accepts (list k opening closing element) o items fun _ _ => True :=
  .bind (On.bracketed h other (by simp [Cell.mayMeet, Plan.nodesCell]) (.part reads)) fun _ _ on =>
    on.finish (.free none)

theorem modifierList_accepts (h : On (Plan.ofKind .modifierList) items) :
    Accepts modifierList o items fun _ _ => True := by
  refine .bind (On.untilEnd h fun p items on => ?_) fun _ _ on => on.finish (.free rfl)
  refine .rest (.ite (fun annotation => (on.ofSeenNode annotation).part rfl) fun word => ?_)
  have keyword : On (Plan.words Keyword.modifiers :: p) items := on.ofUnseenNode (by simpa using word)
  exact Takes.keywordOf (by decide) _ _ keyword

theorem annotationSet_accepts (h : On (Plan.ofKind .annotationSet) items) :
    Accepts annotationSet o items fun _ _ => True :=
  .past (On.keyword h) fun _ _ on =>
  .rest <| .bind (on.named rfl (.keywordOf (by decide))) fun _ _ on =>
  .bind (On.due on fun _ _ on => on.keyword) fun _ _ after =>
  .bind (after.2.optionalWord rfl) fun _ _ on =>
  .bind (on.nodes rfl rfl) fun _ _ on =>
  .bind (on.optionalWord rfl) fun _ _ on => on.finish (.free rfl)

theorem annotationEntry_accepts (h : On (Plan.ofKind .annotationEntry) items) :
    Accepts annotationEntry o items fun _ _ => True :=
  .past (On.part h rfl) fun _ _ on =>
  .bind (on.optionalPart rfl rfl) fun _ _ on => on.finish (.free rfl)

/-- The parts of a type. Parentheses stand on both sides of it or on none. -/
def Grouped (parts : List (Field × Node)) : Prop :=
  ∃ left mods type right, left.isSome = right.isSome ∧
    parts = opt .lPar left ++ opt .modifiers mods ++ one .type type ++ opt .rPar right

theorem Grouped.owed {k : Kind} {parts : List (Field × Node)} (h : Grouped parts)
    (demands : k.demands = [Demand.pairedParentheses]) : k.Owed [] parts := by
  obtain ⟨left, mods, type, right, both, rfl⟩ := h
  intro id d member
  rw [demands] at member
  obtain rfl := List.mem_singleton.mp member
  simp [both]

theorem groupedType_accepts {p : Plan} (h : On (Plan.grouped :: p) items)
    (other : Plan.mayBegin (.text ")") p = false) :
    Accepts groupedType o items fun parts items' => Grouped parts ∧ On p items' := by
  refine .bind (h.optionalKeyword rfl) ?_
  rintro left items' (⟨is, on⟩ | ⟨is, on⟩)
  · exact .bind (on.modifiers rfl) fun mods _ on =>
      .past (on.nextAs rfl) fun type _ on =>
      .bind on.presentKeyword fun right _ after =>
      .pure ⟨⟨left, mods, type, right, by rw [is, after.1], rfl⟩, after.2⟩
  · exact .bind (on.modifiers rfl) fun mods _ on =>
      .past (on.nextAs rfl) fun type _ on =>
      .bind (on.absentKeyword other) fun right _ after =>
      .pure ⟨⟨left, mods, type, right, by rw [is, after.1], rfl⟩, after.2⟩

theorem typeReference_accepts (h : On (Plan.ofKind .typeReference) items) :
    Accepts typeReference o items fun _ _ => True :=
  .bind (groupedType_accepts h rfl) fun _ _ after => after.2.finish (after.1.owed rfl)

theorem nullableType_accepts (h : On (Plan.ofKind .nullableType) items) :
    Accepts nullableType o items fun _ _ => True :=
  .bind (groupedType_accepts h rfl) fun _ _ after =>
  .past after.2.token fun _ _ on => on.finish (after.1.owed rfl)

theorem typeQualifier_accepts (h : On (Plan.ofKind .typeQualifier) items) :
    Accepts typeQualifier o items fun _ _ => True :=
  .past (On.name h) fun _ _ on =>
  .bind (on.optionalPart rfl rfl) fun _ _ on => on.finish (.free rfl)

theorem userType_accepts (h : On (Plan.ofKind .userType) items) : Accepts userType o items fun _ _ => True := by
  refine .bind (On.repeated h (fun _ on => on.unseenNode rfl) fun _ on => ⟨on.seenNode, ?_⟩) fun _ _ on => ?_
  · refine .bind (on.part rfl) ?_
    rintro _ _ ⟨on, shorter⟩
    refine .bind on.token ?_
    rintro _ _ ⟨on, shorter'⟩
    exact .pure ⟨on, by omega⟩
  · exact .past on.name fun _ _ on =>
      .bind (on.optionalPart rfl rfl) fun _ _ on => on.finish (.free rfl)

theorem typeProjection_accepts (h : On (Plan.ofKind .typeProjection) items) :
    Accepts typeProjection o items fun _ _ => True := by
  refine .bind (On.skipToken h rfl) ?_
  rintro _ _ (⟨rfl, on⟩ | ⟨rfl, on⟩)
  · exact on.finish fun _ => by simp [Node.flag, Node.scalars]
  · exact .bind (on.modifiers rfl) fun _ _ on =>
      .past (on.part rfl) fun _ _ on => on.finish fun _ => by simp [Node.flag, Node.scalars]

theorem contextReceiverList_accepts (h : On (Plan.ofKind .contextReceiverList) items) :
    Accepts contextReceiverList o items fun _ _ => True :=
  .past (On.token h) fun _ _ on => list_accepts on rfl rfl rfl

theorem contextReceiver_accepts (h : On (Plan.ofKind .contextReceiver) items) :
    Accepts contextReceiver o items fun _ _ => True :=
  .past (On.part h rfl) fun _ _ on => on.finish (.free rfl)

theorem functionTypeReceiver_accepts (h : On (Plan.ofKind .functionTypeReceiver) items) :
    Accepts functionTypeReceiver o items fun _ _ => True :=
  .past (On.part h rfl) fun _ _ on =>
  .past on.token fun _ _ on => on.finish (.free rfl)

theorem functionTypeParameter_accepts (h : On (Plan.ofKind .functionTypeParameter) items) :
    Accepts functionTypeParameter o items fun _ _ => True :=
  .rest <| .bind (On.named h rfl .name) fun _ _ on =>
  .bind (On.tokenIf on) fun _ _ on =>
  .past (on.part rfl) fun _ _ on => on.finish (.free rfl)

theorem functionType_accepts (h : On (Plan.ofKind .functionType) items) :
    Accepts functionType o items fun _ _ => True :=
  .bind (On.optionalPart h rfl rfl) fun _ _ on =>
  .bind (on.optionalPart rfl rfl) fun _ _ on =>
  .past (on.part rfl) fun _ _ on =>
  .past on.token fun _ _ on =>
  .past (on.part rfl) fun _ _ on => on.finish (.free rfl)

theorem valueArgument_accepts (h : On (Plan.ofKind .valueArgument) items) :
    Accepts valueArgument o items fun _ _ => True :=
  .rest <| .bind (On.named h rfl .name) fun _ _ on =>
  .bind (On.tokenIf on) fun _ _ on =>
  .bind (on.skipWord rfl) fun _ _ on =>
  .past (on.nextAs rfl) fun _ _ on => on.finish (.free rfl)

theorem typeParameter_accepts (h : On (Plan.ofKind .typeParameter) items) :
    Accepts typeParameter o items fun _ _ => True :=
  .bind (On.modifiers h rfl) fun _ _ on =>
  .past on.name fun _ _ on =>
  .bind (on.optionalType rfl) fun _ _ on => on.finish (.free rfl)

theorem typeConstraintSet_accepts (h : On (Plan.ofKind .typeConstraintSet) items) :
    Accepts typeConstraintSet o items fun _ _ => True :=
  .past (On.keyword h) fun _ _ on =>
  .bind on.node fun _ _ after =>
  .bind after.1.1.close fun _ _ _ =>
  .bind (.lift (after.2 .part rfl)) fun _ _ _ => build_accepts (.free rfl) fun _ => trivial

theorem typeConstraintList_accepts (h : On (Plan.ofKind .typeConstraintList) items) :
    Accepts typeConstraintList o items fun _ _ => True :=
  .bind (On.separatedToEnd h rfl (.part rfl)) fun _ _ on => on.finish (.free rfl)

theorem typeConstraint_accepts (h : On (Plan.ofKind .typeConstraint) items) :
    Accepts typeConstraint o items fun _ _ => True :=
  .bind (On.annotationSets h rfl) fun _ _ on =>
  .past on.name fun _ _ on =>
  .past on.token fun _ _ on =>
  .past (on.part rfl) fun _ _ on => on.finish (.free rfl)

end KotlinSyntax.Conversion
