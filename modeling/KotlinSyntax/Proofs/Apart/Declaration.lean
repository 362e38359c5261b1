import KotlinSyntax.Grammar.Declaration
import KotlinSyntax.Proofs.Apart.Building
import KotlinSyntax.Proofs.Plan.Building.Declaration

/-! The rules of types, statements and declarations build lawful nodes. A statement that is not the first one begins
where the builder sees a separator, and that is what the tree has between the two. -/
namespace KotlinSyntax.Grammar

open Builder

variable {scope : Scope} {ts : List Token} {b₀ b : Builder} {m : Marker} {p : Parsed} {recur : Recur}

/-! Types. -/

theorem modifierList_offers (abides : Abides ts recur) {place : ModifierPlace} (sited : b.Over ts) :
    Yields scope (modifierList recur place) b (Offered ts b) := by
  refine .bind (.iterate (I := fun m b' => Covers ts b b' m) (Q := fun m b' => Covers ts b b' m) (.start sited)
    fun m b' on => ?_) fun _ _ on => on.doneUnlessEmpty (.of_isFree rfl _)
  refine .look (.ite (fun _ => ?_) fun _ => .ite (fun _ => ?_) fun _ => .pure on)
  · exact .bind (abides _ _ _ on.sited) fun _ _ given => .pure (on.add given)
  · exact .bind on.advance fun _ _ on => .pure on

theorem modified_extends (abides : Abides ts recur) {place : ModifierPlace} (h : Covers ts b₀ b m) :
    Extends ts scope (modified recur place m) b₀ b :=
  .bind (modifierList_offers abides h.sited) fun _ _ given => .pure (h.add? given)

theorem typeSuffix_extends (abides : Abides ts recur) (h : Covers ts b₀ b m) :
    Extends ts scope (typeSuffix recur m) b₀ b :=
  .look <| .ite (fun _ => .bind h.advance fun _ _ on => on.addRule (abides _ _ _ on.sited)) fun _ => .pure h

theorem typeArgument_finds (abides : Abides ts recur) (sited : b.Over ts) :
    Finds ts scope (typeArgument recur) b b := by
  refine .look (.ite (fun _ => ?_) fun _ => ?_)
  · exact .bind (Covers.start sited).advance fun _ _ on => on.done rfl
  · exact .bind (modified_extends abides (.start sited)) fun _ _ on =>
      .bind (abides _ _ _ on.sited) fun _ _ given => (on.add given).done rfl

theorem typeArguments_finds (abides : Abides ts recur) (sited : b.Over ts) :
    Finds ts scope (typeArguments recur) b b :=
  bracketed_finds sited rfl fun _ sited => typeArgument_finds abides sited

theorem typeSegment_extends (abides : Abides ts recur) (sited : b.Over ts) :
    Extends ts scope (typeSegment recur) b b :=
  .bind (Covers.start sited).expectName fun _ _ on => on.addIf (typeArguments_finds abides on.sited)

/-- The marker ends where the segment begins. -/
theorem userType_finds (abides : Abides ts recur) {receiver : Bool} (sited : b.Over ts) :
    Finds ts scope (userType recur receiver) b b := by
  refine .bind (typeSegment_extends abides sited) fun first b₁ on => ?_
  refine .bind (.iterateWhile (I := fun s b' => ∃ c, Covers ts b c s.1 ∧ Covers ts c b' s.2) ⟨b, .start sited, on⟩ ?_) ?_
  · rintro ⟨m, segment⟩ b' ⟨c, type, name⟩ _
    exact .bind (name.done rfl) fun _ _ given =>
      .bind (type.add given).advance fun _ _ type =>
      .bind (typeSegment_extends abides type.sited) fun _ _ name => .pure ⟨_, type, name⟩
  · rintro ⟨m, segment⟩ b' ⟨⟨c, type, name⟩, _⟩
    exact (type.absorb name).done rfl

theorem nullableSuffix_finds (given : Held ts b₀ p b) : Finds ts scope (nullableSuffix p) b₀ b :=
  .look <| .ite
    (fun _ => .bind (given.iterateWhile fun _ _ on => on.advance) fun _ _ on => on.done rfl) fun _ => .pure given

theorem functionTypeParameter_finds (abides : Abides ts recur) (sited : b.Over ts) :
    Finds ts scope (functionTypeParameter recur) b b :=
  .bind (Covers.start sited).advanceTwiceIf fun _ _ on =>
  .bind (abides _ _ _ on.sited) fun _ _ given => (on.add given).done rfl

theorem functionType_finds (abides : Abides ts recur) (h : Covers ts b₀ b m) :
    Finds ts scope (functionType recur m) b₀ b :=
  .bind (bracketed_finds h.sited rfl fun _ sited => functionTypeParameter_finds abides sited) fun _ _ given =>
  .bind (h.add given).expect fun _ _ on =>
  .bind (abides _ _ _ on.sited) fun _ _ given => (on.add given).done rfl

theorem contextReceivers_finds (abides : Abides ts recur) (sited : b.Over ts) :
    Finds ts scope (contextReceivers recur) b b := by
  have receiver (b : Builder) (sited : b.Over ts) : Finds ts scope (contextReceiver recur) b b :=
    .bind (abides _ _ _ sited) fun _ _ given => ((Covers.start sited).add given).done rfl
  exact .bind (Covers.start sited).advance fun _ _ on =>
    .bind on.expect fun _ _ on =>
    .bind (on.commaList receiver) fun _ _ on =>
    .bind on.expect fun _ _ on => on.done rfl

theorem namedType_finds (abides : Abides ts recur) {receiver : Bool} (sited : b.Over ts) :
    Finds ts scope (namedType recur receiver) b b :=
  .look <| .ite (fun _ => .bind (Covers.start sited).advance fun _ _ on => on.done rfl) fun _ =>
    userType_finds abides sited

theorem nullableIf_finds (given : Held ts b₀ p b) : Finds ts scope (nullableIf p) b₀ b :=
  .look <| .ite
    (fun _ => .bind given.advance fun _ _ on => .bind (on.done rfl) fun _ _ given => nullableSuffix_finds given)
    fun _ => .pure given

theorem receiverOf_finds (abides : Abides ts recur) (given : Held ts b₀ p b) :
    Finds ts scope (receiverOf recur p) b₀ b :=
  .look <| .ite
    (fun _ => .bind (given.done rfl) fun _ _ reference =>
      .bind reference.advance fun _ _ on =>
      .bind (on.done rfl) fun _ _ receiver => functionType_finds abides ((Covers.start given.origin).add receiver))
    fun _ => .pure given

theorem typeBody_finds (abides : Abides ts recur) {receiver : Bool} (sited : b.Over ts) :
    Finds ts scope (typeBody recur receiver) b b := by
  refine .look (.ite (fun _ => .ite (fun _ => ?_) fun _ => ?_) fun _ => .ite (fun _ => ?_) fun _ => ?_)
  · exact functionType_finds abides (.start sited)
  · exact .bind (abides _ _ _ sited) fun _ _ given => ((Covers.start sited).add given).done rfl
  · exact .bind (contextReceivers_finds abides sited) fun _ _ given =>
      functionType_finds abides ((Covers.start sited).add given)
  · exact .bind (namedType_finds abides sited) fun _ _ given =>
      .bind (nullableIf_finds given) fun _ _ given => receiverOf_finds abides given

theorem groupedType_finds (abides : Abides ts recur) (sited : b.Over ts) :
    Finds ts scope (groupedType recur) b b :=
  .bind (Covers.start sited).advance fun _ _ on =>
  .bind (modified_extends abides on) fun _ _ on =>
  .bind (typeBody_finds abides on.sited) fun _ _ given =>
  .bind (on.add given).expect fun _ _ on =>
  .look <| .ite
    (fun _ => .bind on.advance fun _ _ on =>
      .bind (on.done rfl) fun _ _ nullable =>
      .bind (nullableSuffix_finds nullable) fun _ _ given => ((Covers.start sited).add given).done rfl)
    fun _ => on.done rfl

theorem typeReference_finds (abides : Abides ts recur) {receiver : Bool} (sited : b.Over ts) :
    Finds ts scope (typeReference recur receiver) b b :=
  .look <| .ite (fun _ => groupedType_finds abides sited) fun _ =>
    .bind (modified_extends abides (.start sited)) fun _ _ on =>
    .bind (typeBody_finds abides on.sited) fun _ _ given => (on.add given).done rfl

theorem typeParametersInto_extends (abides : Abides ts recur) (h : Covers ts b₀ b m) :
    Extends ts scope (typeParametersInto recur m) b₀ b := by
  have parameter (b : Builder) (sited : b.Over ts) : Finds ts scope (typeParameter recur) b b :=
    .bind (modified_extends abides (.start sited)) fun _ _ on =>
    .bind on.expectName fun _ _ on =>
    .bind (typeSuffix_extends abides on) fun _ _ on => on.done rfl
  exact h.addIf (bracketed_finds h.sited rfl parameter)

theorem annotationSetsInto_extends (abides : Abides ts recur) (h : Covers ts b₀ b m) :
    Extends ts scope (annotationSetsInto recur m) b₀ b :=
  h.iterateWhile fun _ _ on => on.addRule (abides _ _ _ on.sited)

theorem typeConstraint_finds (abides : Abides ts recur) (sited : b.Over ts) :
    Finds ts scope (typeConstraint recur) b b :=
  .bind (annotationSetsInto_extends abides (.start sited)) fun _ _ on =>
  .bind on.expectName fun _ _ on =>
  .bind on.expect fun _ _ on =>
  .bind (abides _ _ _ on.sited) fun _ _ given => (on.add given).done rfl

theorem typeConstraintSet_finds (abides : Abides ts recur) (sited : b.Over ts) :
    Finds ts scope (typeConstraintSet recur) b b :=
  .bind (Covers.start sited).advance fun _ _ on =>
  .bind (typeConstraint_finds abides on.sited) fun _ _ first =>
  .bind (((Covers.start on.sited).add first).iterateWhile fun _ _ list =>
    .bind list.advance fun _ _ list => list.addRule (typeConstraint_finds abides list.sited)) fun _ _ list =>
  .bind (list.done rfl) fun _ _ given => (on.add given).done rfl

theorem constraintsInto_extends (abides : Abides ts recur) (h : Covers ts b₀ b m) :
    Extends ts scope (constraintsInto recur m) b₀ b :=
  h.addIf (typeConstraintSet_finds abides h.sited)

/-! Arguments, annotations and parameters. -/

theorem valueArguments_finds (abides : Abides ts recur) (sited : b.Over ts) :
    Finds ts scope (valueArguments recur) b b :=
  .withTrailingLambdas <| bracketed_finds sited rfl fun _ sited =>
    .bind (Covers.start sited).advanceTwiceIf fun _ _ on =>
    .bind on.advanceIf fun _ _ on =>
    .bind (abides _ _ _ on.sited) fun _ _ given => (on.add given).done rfl

theorem annotationEntry_finds (abides : Abides ts recur) (sited : b.Over ts) :
    Finds ts scope (annotationEntry recur) b b :=
  .bind (userType_finds abides sited) fun _ _ given =>
  .bind (((Covers.start sited).add given).addIf (valueArguments_finds abides given.sited)) fun _ _ on => on.done rfl

theorem annotationSet_finds (abides : Abides ts recur) (sited : b.Over ts) :
    Finds ts scope (annotationSet recur) b b :=
  .bind (Covers.start sited).advance fun _ _ on =>
  .bind on.advanceTwiceIf fun _ _ on =>
  .look <| .ite
    (fun _ => .bind on.advance fun _ _ on =>
      .bind (on.iterateWhile fun _ _ on => on.addRule (annotationEntry_finds abides on.sited)) fun _ _ on =>
      .bind on.advance fun _ _ on => on.done rfl)
    fun _ => .bind (annotationEntry_finds abides on.sited) fun _ _ given => (on.add given).done rfl

theorem assignedInto_extends (abides : Abides ts recur) (h : Covers ts b₀ b m) :
    Extends ts scope (assignedInto recur m) b₀ b :=
  .look <| .ite (fun _ => .bind h.advance fun _ _ on => on.addRule (abides _ _ _ on.sited)) fun _ => .pure h

theorem valueParameters_finds (abides : Abides ts recur) (sited : b.Over ts) :
    Finds ts scope (valueParameters recur) b b :=
  .withTrailingLambdas <| bracketed_finds sited rfl fun _ sited =>
    .bind (modified_extends abides (.start sited)) fun _ _ on =>
    .bind on.advanceIf fun _ _ on =>
    .bind on.expectName fun _ _ on =>
    .bind (typeSuffix_extends abides on) fun _ _ on =>
    .bind (assignedInto_extends abides on) fun _ _ on => on.done rfl

/-! Statements. -/

/-- The body of a marker: what it got since it held the first elements, with its statements apart. -/
def Stated (front : List RawElement) (m : Marker) (body : List RawElement) : Prop :=
  m.children.toList = front ++ body ∧ RawElement.Apart body

/-- The first statement, or one in front of which the builder sees a separator. -/
theorem Stated.add {front body : List RawElement} {b' : Builder} (h : Stated front m body) (on : Covers ts b₀ b m)
    (given : Held ts b p b') (fine : body = [] ∨ b.separatedBefore = true) :
    ∃ body', Stated front (m.add p) body' := by
  obtain ⟨children, apart⟩ := h
  let trivia : List RawElement := if m.children.isEmpty then [] else p.leading.map .leaf
  have grown : RawElement.Apart (body ++ trivia) := by
    unfold trivia
    split
    · rwa [List.append_nil]
    · exact apart.append_leaves fun l member => (given.leading l member).1
  refine ⟨body ++ trivia ++ [p.element], ?_, grown.push fun _ some => ?_⟩
  · rw [children_add, children]
    simp only [trivia, List.append_assoc]
  · have blank : RawElement.significant trivia = [] := by
      unfold trivia
      split
      · rfl
      · exact significant_void given.leading
    rw [RawElement.significant_append, blank, List.append_nil] at some
    have filled : m.children.isEmpty = false := by
      cases empty : m.children.isEmpty with
      | false => rfl
      | true =>
        rw [Array.isEmpty_iff.mp empty] at children
        rw [(List.append_eq_nil_iff.mp children.symm).2] at some
        exact absurd rfl some
    have same : trivia = p.leading.map .leaf := by simp [trivia, filled]
    rw [same, on.gap_eq given children some, ← separatedBefore_eq]
    rcases fine with rfl | separated
    · exact absurd rfl some
    · exact separated

theorem statementsInto_separates (abides : Abides ts recur) {stops : Builder → Bool} (h : Covers ts b₀ b m) :
    Yields scope (statementsInto recur stops m) b fun m' b' =>
      Covers ts b₀ b' m' ∧ (∃ body, Stated m.children.toList m' body) ∧ (stops b' = false → b'.atEnd = true) := by
  refine .bind (.iterateWhile (I := fun s b' => Covers ts b₀ b' s.1 ∧
    ∃ body, Stated m.children.toList s.1 body ∧ (s.2 = true → body = [])) ⟨h, [], ⟨by simp, .nil⟩, fun _ => rfl⟩ ?_) ?_
  · rintro ⟨m', isFirst⟩ b' ⟨on, body, stated, first⟩ _
    refine .look (.complainUnless fun fine => ?_)
    have fine : body = [] ∨ b'.separatedBefore = true := by
      rcases Bool.or_eq_true_iff.mp fine with is | is
      · exact .inl (first is)
      · exact .inr is
    refine .bind (.recovering (Q := fun m'' b'' => Covers ts b₀ b'' m'' ∧ ∃ body, Stated m.children.toList m'' body)
      ((abides _ _ _ on.sited).mono fun _ _ given => ⟨on.add given, stated.add on given fine⟩)) ?_
    rintro m'' b'' ⟨on, body, stated⟩
    exact .pure ⟨on, body, stated, nofun⟩
  · rintro ⟨m', isFirst⟩ b' ⟨⟨on, body, stated, _⟩, stopped⟩
    exact .pure ⟨on, ⟨body, stated⟩, by simpa using stopped⟩

/-- The braces of a block are its first and its last child. -/
theorem block_finds (abides : Abides ts recur) (sited : b.Over ts) : Finds ts scope (block recur) b b := by
  refine .withTrailingLambdas (.bind (Covers.start sited).expectLeaf ?_)
  rintro m b₁ ⟨on, before, opening, _, bare, opened⟩
  refine .bind (statementsInto_separates abides on) ?_
  rintro m' b₂ ⟨on, ⟨body, children, apart⟩, _⟩
  refine .bind on.expectLeaf ?_
  rintro m'' b₃ ⟨on, behind, closing, void, _, closed⟩
  refine (on.doneWith (.of_statements rfl ?_)).mono fun _ _ after => after.1
  rintro es ⟨⟩
  rw [closed, children, opened, bare rfl]
  have inner : RawElement.Apart (body ++ behind.map .leaf) := apart.append_leaves fun l member => (void l member).1
  simpa [Marker.empty, ← List.append_assoc] using inner

theorem controlBody_finds (abides : Abides ts recur) (sited : b.Over ts) : Finds ts scope (controlBody recur) b b :=
  .look <| .ite (fun _ => block_finds abides sited) fun _ => abides _ _ _ sited

/-! Lambdas. -/

theorem lambdaParameterVariable_finds (abides : Abides ts recur) (sited : b.Over ts) :
    Finds ts scope (lambdaParameterVariable recur) b b :=
  .bind (modified_extends abides (.start sited)) fun _ _ on =>
  .bind on.expectName fun _ _ on =>
  .bind (typeSuffix_extends abides on) fun _ _ on => on.done rfl

theorem lambdaParameter_finds (abides : Abides ts recur) (sited : b.Over ts) :
    Finds ts scope (lambdaParameter recur) b b :=
  .look <| .ite
    (fun _ => .bind (Covers.start sited).advance fun _ _ on =>
      .bind (on.commaList fun _ sited => lambdaParameterVariable_finds abides sited) fun _ _ on =>
      .bind on.expect fun _ _ on =>
      .bind (typeSuffix_extends abides on) fun _ _ on => on.done rfl)
    fun _ => .bind (lambdaParameterVariable_finds abides sited) fun _ _ given => ((Covers.start sited).add given).done rfl

theorem lambdaParametersInto_extends (abides : Abides ts recur) (h : Covers ts b₀ b m) :
    Extends ts scope (lambdaParametersInto recur m) b₀ b := by
  have parameters : Finds ts scope (lambdaParameters recur) b b :=
    .bind ((Covers.start h.sited).commaList fun _ sited => lambdaParameter_finds abides sited) fun _ _ on =>
    .bind (on.done rfl) fun _ _ given => .look <| .ite (fun _ => .pure given) fun _ => .reject
  refine .look (.ite (fun _ => h.advance) fun _ => .bind (speculate_offers h.sited parameters) ?_)
  rintro (_ | p) b' given
  · exact .pure (h.add? given)
  · exact (h.add given).advance

theorem lambdaBody_offers (abides : Abides ts recur) (sited : b.Over ts) :
    Yields scope (lambdaBody recur) b (Offered ts b) := by
  refine .bind (statementsInto_separates abides (.start sited)) ?_
  rintro m b' ⟨on, ⟨body, children, apart⟩, _⟩
  refine on.doneUnlessEmpty (.of_statements rfl ?_)
  rintro es ⟨⟩
  simpa [children, Marker.empty] using apart

theorem lambda_finds (abides : Abides ts recur) (sited : b.Over ts) : Finds ts scope (lambda recur) b b :=
  .withTrailingLambdas <|
  .bind (Covers.start sited).expect fun _ _ on =>
  .bind (lambdaParametersInto_extends abides on) fun _ _ on =>
  .bind (lambdaBody_offers abides on.sited) fun _ _ given =>
  .bind (on.add? given).expect fun _ _ on => on.done rfl

/-! Classes. -/

theorem primaryConstructorInto_extends (abides : Abides ts recur) {isObject : Bool} (h : Covers ts b₀ b m) :
    Extends ts scope (primaryConstructorInto recur isObject m) b₀ b := by
  have offers : Yields scope (primaryConstructor recur) b (Offered ts b) := by
    refine .look (.ite (fun _ => ?_) fun _ => speculate_offers h.sited ?_)
    · exact .bind (valueParameters_finds abides h.sited) fun _ _ given =>
        some_offers (((Covers.start h.sited).add given).done rfl)
    · exact .bind (modified_extends abides (.start h.sited)) fun _ _ on =>
        .bind on.expect fun _ _ on =>
        .bind (valueParameters_finds abides on.sited) fun _ _ given => (on.add given).done rfl
  exact .ite (fun _ => .pure h) fun _ => .bind offers fun _ _ given => .pure (h.add? given)

theorem superType_finds (abides : Abides ts recur) (sited : b.Over ts) : Finds ts scope (superType recur) b b := by
  refine .bind (userType_finds abides sited) fun _ _ given => ?_
  have on := (Covers.start sited).add given
  refine .look (.ite (fun _ => ?_) fun _ => .ite (fun _ => ?_) fun _ => on.done rfl)
  · exact .bind (valueArguments_finds abides on.sited) fun _ _ given => (on.add given).done rfl
  · exact .bind on.advance fun _ _ on =>
      .bind (.withTrailingLambdas (abides _ _ _ on.sited)) fun _ _ given => (on.add given).done rfl

theorem superTypes_finds (abides : Abides ts recur) (sited : b.Over ts) : Finds ts scope (superTypes recur) b b :=
  .bind (Covers.start sited).advance fun _ _ on =>
  .bind (superType_finds abides on.sited) fun _ _ given =>
  .bind ((on.add given).iterateWhile fun _ _ on =>
    .bind on.advance fun _ _ on => on.addRule (superType_finds abides on.sited)) fun _ _ on => on.done rfl

theorem classDeclaration_finds (abides : Abides ts recur) {isEnum : Bool} (h : Covers ts b₀ b m) :
    Finds ts scope (classDeclaration recur m isEnum) b₀ b :=
  .look <|
  .bind h.advance fun _ _ on =>
  .bind on.advanceIf fun _ _ on =>
  .bind (typeParametersInto_extends abides on) fun _ _ on =>
  .bind (primaryConstructorInto_extends abides on) fun _ _ on =>
  .bind (on.addIf (superTypes_finds abides on.sited)) fun _ _ on =>
  .bind (constraintsInto_extends abides on) fun _ _ on =>
  .bind (on.addIf (abides _ _ _ on.sited)) fun _ _ on => on.doneBound rfl

theorem initializerBlock_finds (abides : Abides ts recur) (h : Covers ts b₀ b m) :
    Finds ts scope (initializerBlock recur m) b₀ b :=
  .bind h.advance fun _ _ on =>
  .bind (block_finds abides on.sited) fun _ _ given => (on.add given).doneBound rfl

theorem secondaryConstructor_finds (abides : Abides ts recur) (h : Covers ts b₀ b m) :
    Finds ts scope (secondaryConstructor recur m) b₀ b := by
  have call (b : Builder) (sited : b.Over ts) : Finds ts scope (delegationCall recur) b b :=
    .bind (Covers.start sited).expectAny fun _ _ on =>
    .bind (valueArguments_finds abides on.sited) fun _ _ given => (on.add given).done rfl
  refine .bind h.advance fun _ _ on =>
    .bind (valueParameters_finds abides on.sited) fun _ _ given =>
    .bind (R := fun m' b' => Covers ts b₀ b' m') (.look ?_) fun _ _ on =>
    .bind (on.addIf (block_finds abides on.sited)) fun _ _ on => on.doneBound rfl
  exact .ite (fun _ => .bind (on.add given).advance fun _ _ on => on.addRule (call _ on.sited)) fun _ =>
    .pure (on.add given)

/-! Functions. -/

theorem receiverInto_extends (abides : Abides ts recur) (h : Covers ts b₀ b m) :
    Extends ts scope (receiverInto recur m) b₀ b := by
  have offers : Yields scope (receiverType recur) b (Offered ts b) :=
    speculate_offers h.sited <| .bind (abides _ _ _ h.sited) fun _ _ given =>
      .look <| .ite (fun _ => .pure (given.withRole "receiver")) fun _ => .reject
  refine .bind offers ?_
  rintro (_ | p) b' given
  · exact .pure (h.add? given)
  · exact (h.add given).advance

theorem postModifiersInto_extends (abides : Abides ts recur) (h : Covers ts b₀ b m) :
    Extends ts scope (postModifiersInto recur m) b₀ b := by
  have contract (b : Builder) (sited : b.Over ts) : Finds ts scope (contract recur) b b :=
    .bind (Covers.start sited).advance fun _ _ on =>
    .bind (bracketed_finds on.sited rfl fun _ sited => .bind (abides _ _ _ sited) fun _ _ given =>
      ((Covers.start sited).add given).done rfl) fun _ _ given => (on.add given).done rfl
  refine .iterate (I := fun m b => Covers ts b₀ b m) h fun m b on => ?_
  refine .look (.ite (fun _ => ?_) fun _ => .ite (fun _ => ?_) fun _ => .pure on)
  · exact .bind (typeConstraintSet_finds abides on.sited) fun _ _ given => .pure (on.add given)
  · exact .bind (contract b on.sited) fun _ _ given => .pure (on.add given)

theorem functionBodyInto_extends (abides : Abides ts recur) (h : Covers ts b₀ b m) :
    Extends ts scope (functionBodyInto recur m) b₀ b :=
  .look <| .ite (fun _ => assignedInto_extends abides h) fun _ =>
    .ite (fun _ => h.addRule (block_finds abides h.sited)) fun _ => .pure h

theorem functionDeclaration_finds (abides : Abides ts recur) (h : Covers ts b₀ b m) :
    Finds ts scope (functionDeclaration recur m) b₀ b := by
  have name {m : Marker} {b : Builder} (on : Covers ts b₀ b m) : Extends ts scope (functionNameInto recur m) b₀ b :=
    .look <| .ite (fun _ => .pure on) fun _ =>
      .bind (receiverInto_extends abides on) fun _ _ on => on.advanceIf
  exact .bind h.advance fun _ _ on =>
    .bind (typeParametersInto_extends abides on) fun _ _ on =>
    .bind (name on) fun _ _ on =>
    .bind (valueParameters_finds abides on.sited) fun _ _ given =>
    .bind (typeSuffix_extends abides (on.add given)) fun _ _ on =>
    .bind (postModifiersInto_extends abides on) fun _ _ on =>
    .bind (functionBodyInto_extends abides on) fun _ _ on => on.doneBound rfl

/-! Properties. -/

theorem accessorsInto_extends (abides : Abides ts recur) (h : Covers ts b₀ b m) :
    Extends ts scope (accessorsInto recur m) b₀ b := by
  have parameters {m : Marker} {c b : Builder} {isGetter : Bool} (on : Covers ts c b m) :
      Extends ts scope (accessorParametersInto recur isGetter m) c b :=
    .ite (fun _ => .bind on.advance fun _ _ on => .bind on.expect fun _ _ on => typeSuffix_extends abides on) fun _ =>
      on.addRule (valueParameters_finds abides on.sited)
  have body {m : Marker} {c b : Builder} {isGetter : Bool} (on : Covers ts c b m) :
      Extends ts scope (accessorBodyInto recur isGetter m) c b :=
    .look <| .ite
      (fun _ => .bind (parameters on) fun _ _ on =>
        .look <| .ite (fun _ => functionBodyInto_extends abides on) fun _ => .reject)
      fun _ => .ite (fun _ => .reject) fun _ => .pure on
  have accessor (b : Builder) (sited : b.Over ts) : Yields scope (accessor recur) b (Offered ts b) := by
    refine speculate_offers sited ?_
    refine .bind (modified_extends abides (.start sited)) fun _ _ on => .look (.bind on.expectAny fun _ _ on =>
      .bind (body on) fun _ _ on => ?_)
    split <;> exact on.done rfl
  refine .bind (accessor b h.sited) ?_
  rintro (_ | first) b' given
  · exact .pure (h.add? given)
  · have on := h.add given
    exact .bind (accessor b' on.sited) fun _ _ given => .pure (on.add? given)

theorem propertyValueInto_extends (abides : Abides ts recur) (h : Covers ts b₀ b m) :
    Extends ts scope (propertyValueInto recur m) b₀ b :=
  .look <| .ite (fun _ => assignedInto_extends abides h) fun _ => .ite
    (fun _ => .bind (Covers.start h.sited).advance fun _ _ on =>
      .bind (abides _ _ _ on.sited) fun _ _ given => h.addRule ((on.add given).done rfl))
    fun _ => .pure h

theorem bindingsInto_extends (abides : Abides ts recur) (h : Covers ts b₀ b m) :
    Extends ts scope (bindingsInto recur m) b₀ b := by
  have entry (b : Builder) (sited : b.Over ts) : Finds ts scope (destructuringEntry recur) b b :=
    .bind (Covers.start sited).expectName fun _ _ on => .bind (typeSuffix_extends abides on) fun _ _ on => on.done rfl
  refine .look (.ite (fun _ => ?_) fun _ => ?_)
  · exact .bind h.advance fun _ _ on => .bind (on.commaList entry) fun _ _ on => on.expect
  · exact .bind h.expectName fun _ _ on => typeSuffix_extends abides on

theorem propertyDeclaration_finds (abides : Abides ts recur) (h : Covers ts b₀ b m) :
    Finds ts scope (propertyDeclaration recur m) b₀ b := by
  have receiver {m : Marker} {b : Builder} (on : Covers ts b₀ b m) :
      Extends ts scope (propertyReceiverInto recur m) b₀ b :=
    .look <| .ite (fun _ => .pure on) fun _ => receiverInto_extends abides on
  exact .bind h.advance fun _ _ on =>
    .bind (typeParametersInto_extends abides on) fun _ _ on =>
    .bind (receiver on) fun _ _ on =>
    .bind (bindingsInto_extends abides on) fun _ _ on =>
    .bind (constraintsInto_extends abides on) fun _ _ on =>
    .bind (propertyValueInto_extends abides on) fun _ _ on =>
    .bind (accessorsInto_extends abides on) fun _ _ on => on.doneBound rfl

theorem typeAlias_finds (abides : Abides ts recur) (h : Covers ts b₀ b m) :
    Finds ts scope (typeAlias recur m) b₀ b :=
  .bind h.advance fun _ _ on =>
  .bind on.expectName fun _ _ on =>
  .bind (typeParametersInto_extends abides on) fun _ _ on =>
  .bind on.expect fun _ _ on =>
  .bind (abides _ _ _ on.sited) fun _ _ given => (on.add given).doneBound rfl

/-! Declarations of any sort. -/

theorem declarationRule?_finds (abides : Abides ts recur) {place : DeclarationPlace} {modifiers : Option Parsed}
    {rule : Grammar Parsed} (h : Covers ts b₀ b m) (found : declarationRule? recur place b modifiers m = some rule) :
    Finds ts scope rule b₀ b := by
  unfold declarationRule? at found
  split at found
  case h_2 => cases found
  split at found
  case isFalse => cases found
  split at found
  · cases found
    exact classDeclaration_finds abides h
  · cases found
    exact classDeclaration_finds abides h
  · split at found <;> cases found
    exact classDeclaration_finds abides h
  · split at found <;> cases found
    exact functionDeclaration_finds abides h
  · split at found <;> cases found
    exact propertyDeclaration_finds abides h
  · split at found <;> cases found
    exact propertyDeclaration_finds abides h
  · cases found
    exact typeAlias_finds abides h
  · split at found <;> cases found
    exact secondaryConstructor_finds abides h
  · split at found <;> cases found
    exact initializerBlock_finds abides h
  · cases found

/-- Where the tokens begin no declaration, the builder goes back. -/
theorem declaration_offers (abides : Abides ts recur) {place : DeclarationPlace} (sited : b.Over ts) :
    Yields scope (declaration recur place) b (Offered ts b) := by
  refine .whenReady fun ready => .look (.bind (modifierList_offers abides sited).reached ?_)
  rintro modifiers b' ⟨given, reached⟩
  have on := (Covers.start sited).add? given
  refine .look ?_
  cases found : declarationRule? recur place b' modifiers (Marker.empty.add? modifiers) with
  | some rule => exact some_offers (declarationRule?_finds abides on found)
  | none =>
    refine .ite (fun _ => .look (.goTo (fun _ => ?_) (.pure ⟨?_, ?_⟩))) fun _ => .reject
    all_goals rw [restore_snapshot reached.tokens reached.significant]
    · exact ⟨ready, reached.tokens.symm, reached.significant.symm⟩
    · exact sited

theorem declarationOnly_finds (abides : Abides ts recur) {place : DeclarationPlace} {what : String}
    (sited : b.Over ts) : Finds ts scope (declarationOnly recur place what) b b := by
  refine .bind (declaration_offers abides sited) ?_
  rintro (_ | p) b' given
  · exact .reject
  · exact .pure given

/-! Class bodies. -/

/-- The last entry may have a comma behind it that stands as trivia. -/
theorem enumEntriesInto_gathers (abides : Abides ts recur) (h : Covers ts b₀ b m) :
    Yields scope (enumEntriesInto recur m) b fun m b => Gathers ts b₀ b m := by
  have entry (b : Builder) (sited : b.Over ts) : Finds ts scope (enumEntry recur) b b :=
    .bind (modified_extends abides (.start sited)) fun _ _ on =>
    .bind on.expectName fun _ _ on =>
    .bind (on.addIf (valueArguments_finds abides on.sited)) fun _ _ on =>
    .bind (on.addIf (abides _ _ _ on.sited)) fun _ _ on => on.done rfl
  refine .iterate (I := fun m b => Covers ts b₀ b m) h fun m b on => ?_
  refine .bind atEnumEntry_yields ?_
  rintro _ _ rfl
  refine .ite (fun _ => .bind (entry _ on.sited) fun p b given => ?_) fun _ => .pure on.toGathers
  have on := on.add given
  have comma : Yields scope (do return Turn.stop (← advanceAsTrivia (m.add p))) b
      (Turning (fun m b => Covers ts b₀ b m) fun m b => Gathers ts b₀ b m) :=
    .bind (on.advanceAsTrivia (by simp [Marker.add, Marker.push])) fun _ _ on => .pure on
  refine .look (.ite (fun _ => .pure on.toGathers) fun _ => .ite (fun _ => comma) fun _ => .bind Yields.lookahead ?_)
  rintro follows _ ⟨rfl, _⟩
  exact .ite (fun _ => .bind on.advance fun _ _ on => .pure on) fun _ => comma

theorem membersInto_gathers (abides : Abides ts recur) {isEnum : Bool} (h : Covers ts b₀ b m) :
    Yields scope (membersInto recur isEnum m) b fun m b => Gathers ts b₀ b m := by
  have entries : Yields scope (entriesInto recur isEnum m) b fun m b => Gathers ts b₀ b m :=
    .ite (fun _ => enumEntriesInto_gathers abides h) fun _ => .pure h.toGathers
  refine .bind entries fun _ _ on => (Yields.iterateWhile on fun _ _ on _ => ?_).mono fun _ _ after => after.1
  exact (on.recovering (declarationOnly_finds abides on.sited)).mono fun _ _ on => on.toGathers

/-- The closing brace is no trivia. -/
theorem classBody_finds (abides : Abides ts recur) {isEnum : Bool} (sited : b.Over ts) :
    Finds ts scope (classBody recur isEnum) b b :=
  .withTrailingLambdas <|
    .bind (Covers.start sited).expect fun _ _ on =>
    .bind (membersInto_gathers abides on) fun _ _ on =>
    .bind on.expect fun _ _ on => on.done rfl

end KotlinSyntax.Grammar
