import KotlinSyntax.Proofs.Twin.Type

/-! Declarations over twin sources. -/
namespace KotlinSyntax.Grammar

variable {w : Twins} {recur : Recur}

theorem isSome_of_rel {α : Type} {R : α → α → Prop} {x y : Option α} (h : Option.Rel R x y) :
    x.isSome = y.isSome := by
  cases h <;> rfl

theorem rel_ite {α : Type} {R : α → α → Prop} {x y : α} {test : Bool} (h : R x y) :
    Option.Rel R (if test then some x else none) (if test then some y else none) := by
  cases test with
  | true => exact .some h
  | false => exact .none

variable (recurs : ∀ r, Steady w (recur r))

include recurs

theorem primaryConstructor_steady : SteadyOpt w (primaryConstructor recur) := by
  refine .look fun at_ => .ite (at_.sees "(" 0) ?_ (.speculate ?_)
  · exact .bind (valueParameters_steady recurs) fun params => .some (.done (Marker.Alike.start.add params) _ _)
  · refine .bind (modified_carries recurs _ .start) fun h => .bind (.expect h _) fun h => ?_
    exact .bind (valueParameters_steady recurs) fun params => .done (h.add params) _ _

theorem primaryConstructorInto_carries (isObject : Bool) : Carries w (primaryConstructorInto recur isObject) := by
  intro m n h
  exact .ite rfl (.pure h) (.bind (primaryConstructor_steady recurs) fun p => .pure (h.add? p))

theorem superType_steady : Steady w (superType recur) := by
  refine .bind (userType_steady recurs _) fun type => ?_
  have h := Marker.Alike.start.add type
  refine .look fun at_ => .ite (by rw [at_.sees, at_.newlineBefore]) ?_ (.ite (at_.sees "by" 0) ?_ (.done h _ _))
  · exact .bind (valueArguments_steady recurs) fun args => .done (h.add args) _ _
  · refine .bind (.advance h) fun h => ?_
    exact .bind (.withTrailingLambdas _ (recurs _)) fun value => .done (h.add value) _ _

theorem superTypes_steady : Steady w (superTypes recur) := by
  refine .bind (.advance .start) fun h => .bind (superType_steady recurs) fun first => ?_
  refine .bind (.iterateWhile (h.add first) (fun at_ => at_.sees "," 0) fun h => ?_) fun h => .done h _ _
  refine .bind (.advance h) fun h => ?_
  exact .bind (superType_steady recurs) fun type => .pure (h.add type)

theorem classDeclaration_closes (isEnum : Bool) : Closes w (classDeclaration recur · isEnum) := by
  intro m n h
  refine .look fun {b c} at_ => ?_
  rw [at_.sees]
  refine .bind (.advance h) fun h => .bind (.advanceIf h fun at_ => at_.seesName 0) fun h => ?_
  refine .bind (typeParametersInto_carries recurs h) fun h => ?_
  refine .bind (primaryConstructorInto_carries recurs _ h) fun h => ?_
  refine .bind (.addIf h (fun at_ => at_.sees ":" 0) (superTypes_steady recurs)) fun h => ?_
  refine .bind (constraintsInto_carries recurs h) fun h => ?_
  refine .bind (.addIf h (fun at_ => at_.sees openBrace 0) (recurs _)) fun h => ?_
  exact .bind (.bindTrailingComment h) fun h => .done h _ _

theorem initializerBlock_closes : Closes w (initializerBlock recur) := by
  intro m n h
  refine .bind (.advance h) fun h => .bind (block_steady recurs) fun block => ?_
  exact .bind (.bindTrailingComment (h.add block)) fun h => .done h _ _

theorem delegationInto_carries : Carries w (delegationInto recur) := by
  intro m n h
  have call : Steady w (delegationCall recur) :=
    .bind (.expectAny .start _ _) fun h => .bind (valueArguments_steady recurs) fun args => .done (h.add args) _ _
  refine .look fun at_ => .ite (at_.sees ":" 0) ?_ (.pure h)
  exact .bind (.advance h) fun h => .bind call fun call => .pure (h.add call)

theorem secondaryConstructor_closes : Closes w (secondaryConstructor recur) := by
  intro m n h
  refine .bind (.advance h) fun h => .bind (valueParameters_steady recurs) fun params => ?_
  refine .bind (delegationInto_carries recurs (h.add params)) fun h => ?_
  refine .bind (.addIf h (fun at_ => at_.sees openBrace 0) (block_steady recurs)) fun h => ?_
  exact .bind (.bindTrailingComment h) fun h => .done h _ _

theorem receiverInto_carries : Carries w (receiverInto recur) := by
  intro m n h
  have found : SteadyOpt w (receiverType recur) := by
    refine .speculate (.bind (recurs _) fun type => ?_)
    exact .look fun at_ => .ite (at_.sees "." 0) (.pure (type.withRole _)) (.reject _)
  refine .bind found fun found => ?_
  cases found with
  | none => exact .pure h
  | some receiver => exact .advance (h.add receiver)

theorem contract_steady : Steady w (contract recur) := by
  have effect : Steady w (contractEffect recur) :=
    .bind (recurs _) fun value => .done (Marker.Alike.start.add value) _ _
  exact .bind (.advance .start) fun h => .bind (.bracketed _ _ _ effect) fun effects => .done (h.add effects) _ _

theorem postModifiersInto_carries : Carries w (postModifiersInto recur) := by
  intro m n h
  refine .iterate h fun h => .look fun at_ => .ite (at_.sees "where" 0) ?_ (.ite ?_ ?_ (.pure (.stop h)))
  · exact .bind (typeConstraintSet_steady recurs) fun set => .pure (.again (h.add set))
  · rw [at_.sees, at_.sees]
  · exact .bind (contract_steady recurs) fun contract => .pure (.again (h.add contract))

theorem functionBodyInto_carries : Carries w (functionBodyInto recur) := by
  intro m n h
  refine .look fun at_ => .ite (at_.sees "=" 0) (assignedInto_carries recurs h) ?_
  refine .ite (at_.sees openBrace 0) ?_ (.pure h)
  exact .bind (block_steady recurs) fun block => .pure (h.add block)

theorem functionDeclaration_closes : Closes w (functionDeclaration recur) := by
  intro m n h
  refine .bind (.advance h) fun h => .bind (typeParametersInto_carries recurs h) fun h => ?_
  refine .bind (.look fun at_ => .ite (at_.sees "(" 0) (.pure h) ?_) fun h => ?_
  · exact .bind (receiverInto_carries recurs h) fun h => .advanceIf h fun at_ => at_.seesName 0
  · refine .bind (valueParameters_steady recurs) fun params => ?_
    refine .bind (typeSuffix_carries recurs (h.add params)) fun h => ?_
    refine .bind (postModifiersInto_carries recurs h) fun h => ?_
    refine .bind (functionBodyInto_carries recurs h) fun h => ?_
    exact .bind (.bindTrailingComment h) fun h => .done h _ _

theorem accessorParametersInto_carries (isGetter : Bool) : Carries w (accessorParametersInto recur isGetter) := by
  intro m n h
  refine .ite rfl ?_ (.bind (valueParameters_steady recurs) fun params => .pure (h.add params))
  exact .bind (.advance h) fun h => .bind (.expect h _) fun h => typeSuffix_carries recurs h

theorem accessorBodyInto_carries (isGetter : Bool) : Carries w (accessorBodyInto recur isGetter) := by
  intro m n h
  refine .look fun at_ => .ite (at_.sees "(" 0) ?_ (.ite ?_ (.reject _) (.pure h))
  · refine .bind (accessorParametersInto_carries recurs isGetter h) fun h => ?_
    exact .look fun at_ => .ite (at_.seesAny _) (functionBodyInto_carries recurs h) (.reject _)
  · rw [at_.atEnd, at_.separatedBefore, at_.sees]

theorem accessor_steady : SteadyOpt w (accessor recur) := by
  refine .speculate (.bind (modified_carries recurs _ .start) fun h => .look fun {b c} at_ => ?_)
  rw [at_.sees]
  refine .bind (.expectAny h _ _) fun h => ?_
  exact .bind (accessorBodyInto_carries recurs _ h) fun h => .done h _ _

theorem accessorsInto_carries : Carries w (accessorsInto recur) := by
  intro m n h
  refine .bind (accessor_steady recurs) fun found => ?_
  cases found with
  | none => exact .pure h
  | some first => exact .bind (accessor_steady recurs) fun second => .pure ((h.add first).add? second)

theorem propertyValueInto_carries : Carries w (propertyValueInto recur) := by
  intro m n h
  refine .look fun at_ => .ite (at_.sees "=" 0) (assignedInto_carries recurs h) (.ite (at_.sees "by" 0) ?_ (.pure h))
  refine .bind (.advance .start) fun k => .bind (recurs _) fun value => ?_
  exact .bind (.done (k.add value) _ _) fun delegate => .pure (h.add delegate)

theorem bindingsInto_carries : Carries w (bindingsInto recur) := by
  intro m n h
  have entry : Steady w (destructuringEntry recur) :=
    .bind (.expectName .start) fun h => .bind (typeSuffix_carries recurs h) fun h => .done h _ _
  refine .look fun at_ => .ite (at_.sees "(" 0) ?_ ?_
  · exact .bind (.advance h) fun h => .bind (.commaList h _ entry) fun h => .expect h _
  · exact .bind (.expectName h) fun h => typeSuffix_carries recurs h

theorem propertyDeclaration_closes : Closes w (propertyDeclaration recur) := by
  intro m n h
  refine .bind (.advance h) fun h => .bind (typeParametersInto_carries recurs h) fun h => ?_
  refine .bind (.look fun at_ => .ite (at_.sees "(" 0) (.pure h) (receiverInto_carries recurs h)) fun h => ?_
  refine .bind (bindingsInto_carries recurs h) fun h => .bind (constraintsInto_carries recurs h) fun h => ?_
  refine .bind (propertyValueInto_carries recurs h) fun h => .bind (accessorsInto_carries recurs h) fun h => ?_
  exact .bind (.bindTrailingComment h) fun h => .done h _ _

theorem typeAlias_closes : Closes w (typeAlias recur) := by
  intro m n h
  refine .bind (.advance h) fun h => .bind (.expectName h) fun h => ?_
  refine .bind (typeParametersInto_carries recurs h) fun h => .bind (.expect h _) fun h => ?_
  refine .bind (recurs _) fun type => ?_
  exact .bind (.bindTrailingComment (h.add type)) fun h => .done h _ _

/-- The next word tells which declaration it is, and it is spelled alike on both sides. -/
theorem declarationRule?_steady {b c : Builder} (at_ : b.Alike w c) (place : DeclarationPlace) {p q : Option Parsed}
    (modifiers : Option.Rel Parsed.Alike p q) {m n : Marker} (h : m.Alike n) :
    Option.Rel (Like w Parsed.Alike) (declarationRule? recur place b p m) (declarationRule? recur place c q n) := by
  have same := at_.peek 0
  unfold declarationRule?
  simp only [hasModifier_eq modifiers, at_.seesName, at_.sees, isSome_of_rel modifiers]
  cases one : b.peek with
  | none =>
    have two : c.peek = none := by simpa [one] using same.symm
    rw [two]
    exact .none
  | some t =>
    rw [one] at same
    obtain ⟨u, two, bare⟩ := Option.map_eq_some_iff.mp same.symm
    rw [two]
    simp only [Token.kind_of_bare bare, Token.text_of_bare bare]
    split
    · split
      · exact .some (classDeclaration_closes recurs _ h)
      · exact .some (classDeclaration_closes recurs _ h)
      · exact rel_ite (classDeclaration_closes recurs _ h)
      · exact rel_ite (functionDeclaration_closes recurs h)
      · exact rel_ite (propertyDeclaration_closes recurs h)
      · exact rel_ite (propertyDeclaration_closes recurs h)
      · exact .some (typeAlias_closes recurs h)
      · exact rel_ite (secondaryConstructor_closes recurs h)
      · exact rel_ite (initializerBlock_closes recurs h)
      · exact .none
    · exact .none

theorem declaration_steady (place : DeclarationPlace) : SteadyOpt w (declaration recur place) := by
  refine .look fun {b c} start => .bind (modifierList_steady recurs _) fun {p q} modifiers => ?_
  refine .look fun {b' c'} at_ => ?_
  have rule := declarationRule?_steady recurs at_ place modifiers (Marker.Alike.start.add? modifiers)
  generalize declarationRule? recur place b' p (Marker.empty.add? p) = x at rule ⊢
  generalize declarationRule? recur place c' q (Marker.empty.add? q) = y at rule ⊢
  cases rule with
  | none =>
    refine .ite rfl (.look fun at_ => ?_) (.reject _)
    exact .bind (.goBack start at_) fun _ => .pure .none
  | some rule => exact .some rule

theorem declarationOnly_steady (place : DeclarationPlace) (what : String) :
    Steady w (declarationOnly recur place what) := by
  refine .bind (declaration_steady recurs place) fun found => ?_
  cases found with
  | none => exact .reject _
  | some p => exact .pure p

theorem atEnumEntry_like : Like w Eq (atEnumEntry recur) (atEnumEntry recur) := by
  refine .look fun at_ => .ite (at_.seesName 0) (.pure ?_) (.ite (at_.sees "@" 0) (.lookahead ?_) (.pure rfl))
  · rw [at_.standsModifier, at_.sees]
  · refine .bind (modifierList_steady recurs _) fun _ => .look fun at_ => .ite ?_ (.reject _) (.pure rfl)
    rw [at_.seesName, at_.standsModifier]

theorem enumEntry_steady : Steady w (enumEntry recur) := by
  refine .bind (modified_carries recurs _ .start) fun h => .bind (.expectName h) fun h => ?_
  refine .bind (.addIf h (fun at_ => at_.sees "(" 0) (valueArguments_steady recurs)) fun h => ?_
  exact .bind (.addIf h (fun at_ => at_.sees openBrace 0) (recurs _)) fun h => .done h _ _

theorem entryCommaTurn_like {m n : Marker} (h : m.Alike n) :
    Like w (Turn.Alike Marker.Alike) (entryCommaTurn recur m) (entryCommaTurn recur n) := by
  have follows : Like w Eq (entryFollowsComma recur) (entryFollowsComma recur) := by
    refine .lookahead (.bind (.advance .start) fun _ => .bind (atEnumEntry_like recurs) fun same => ?_)
    exact .ite (by rw [same]) (.reject _) (.pure rfl)
  refine .look fun at_ => .ite (by rw [at_.sees]) (.pure (.stop h)) (.ite (at_.sees closeBrace 1) ?_ ?_)
  · exact .bind (.advanceAsTrivia h) fun h => .pure (.stop h)
  · refine .bind follows fun same => .ite same ?_ ?_
    · exact .bind (.advance h) fun h => .pure (.again h)
    · exact .bind (.advanceAsTrivia h) fun h => .pure (.stop h)

theorem membersInto_carries (isEnum : Bool) : Carries w (membersInto recur isEnum) := by
  intro m n h
  have entries : Like w Marker.Alike (entriesInto recur isEnum m) (entriesInto recur isEnum n) := by
    refine .ite rfl (.iterate h fun h => .bind (atEnumEntry_like recurs) fun same => .ite same ?_ ?_) (.pure h)
    · exact .bind (enumEntry_steady recurs) fun entry => entryCommaTurn_like recurs (h.add entry)
    · exact .pure (.stop h)
  refine .bind entries fun h => .iterateWhile h (fun at_ => by rw [at_.sees, at_.atEnd]) fun h => ?_
  exact .recovering h (declarationOnly_steady recurs _ _)

theorem classBody_steady (isEnum : Bool) : Steady w (classBody recur isEnum) := by
  refine .withTrailingLambdas _ (.bind (.expect .start _) fun h => ?_)
  refine .bind (membersInto_carries recurs isEnum h) fun h => ?_
  exact .bind (.expect h _) fun h => .done h _ _

end KotlinSyntax.Grammar
