import KotlinSyntax.Grammar.Statement
import KotlinSyntax.Proofs.Twin.Grammar

/-! Types, arguments and statements over twin sources. -/
namespace KotlinSyntax.Grammar

variable {w : Twins} {recur : Recur}

theorem nullableSuffix_steady {p q : Parsed} (type : p.Alike q) :
    Like w Parsed.Alike (nullableSuffix p) (nullableSuffix q) := by
  refine .look fun at_ => .ite (by simp only [at_.sees, at_.adjacent]) ?_ (.pure type)
  refine .bind (.iterateWhile type (fun at_ => by simp only [at_.sees, at_.adjacent]) fun h => .advance h) fun h => ?_
  exact .done h _ _

theorem nullableIf_steady {p q : Parsed} (type : p.Alike q) : Like w Parsed.Alike (nullableIf p) (nullableIf q) := by
  refine .look fun at_ => .ite (by rw [at_.sees, at_.adjacent]) ?_ (.pure type)
  refine .bind (.advance type) fun h => .bind (.done h _ _) fun nullable => ?_
  exact nullableSuffix_steady nullable

variable (recurs : ∀ r, Steady w (recur r))

include recurs

theorem modifierList_steady (place : ModifierPlace) : SteadyOpt w (modifierList recur place) := by
  refine .bind (.iterate Marker.Alike.start fun h => ?_) fun h => .doneUnlessEmpty h _
  refine .look fun at_ => .ite (at_.sees "@" 0) ?_ (.ite (at_.standsModifier place) ?_ (.pure (.stop h)))
  · exact .bind (recurs _) fun p => .pure (.again (h.add p))
  · exact .bind (.advance h) fun h => .pure (.again h)

theorem modified_carries (place : ModifierPlace) : Carries w (modified recur place ·) := by
  intro m n h
  exact .bind (modifierList_steady recurs place) fun p => .pure (h.add? p)

theorem typeSuffix_carries : Carries w (typeSuffix recur) := by
  intro m n h
  refine .look fun at_ => .ite (at_.sees ":" 0) ?_ (.pure h)
  refine .bind (.advance h) fun h => ?_
  exact .bind (recurs _) fun type => .pure (h.add type)

theorem typeArgument_steady : Steady w (typeArgument recur) := by
  refine .look fun at_ => .ite (at_.sees "*" 0) ?_ ?_
  · exact .bind (.advance .start) fun h => .done h _ _
  · refine .bind (modified_carries recurs _ .start) fun h => ?_
    exact .bind (recurs _) fun type => .done (h.add type) _ _

theorem typeArguments_steady : Steady w (typeArguments recur) :=
  .bracketed _ _ _ (typeArgument_steady recurs)

theorem typeSegment_like : Like w Marker.Alike (typeSegment recur) (typeSegment recur) :=
  .bind (.expectName .start) fun h => .addIf h (fun at_ => at_.sees "<" 0) (typeArguments_steady recurs)

theorem userType_steady (receiver : Bool) : Steady w (userType recur receiver) := by
  refine .bind (typeSegment_like recurs) fun first => ?_
  have start : Both Marker.Alike Marker.Alike (Marker.empty, _) (Marker.empty, _) := ⟨.start, first⟩
  refine .bind (.iterateWhile start ?_ ?_) fun both => .done (both.1.absorb both.2) _ _
  · intro b c at_
    simp only [at_.sees, at_.seesName]
  · rintro ⟨m, segment⟩ ⟨n, segment'⟩ ⟨h, k⟩
    refine .bind (.done k _ _) fun qualifier => .bind (.advance (h.add qualifier)) fun h => ?_
    exact .bind (typeSegment_like recurs) fun k => .pure ⟨h, k⟩

theorem functionTypeParameter_steady : Steady w (functionTypeParameter recur) := by
  refine .bind (.advanceTwiceIf .start fun at_ => by rw [at_.seesName, at_.sees]) fun h => ?_
  exact .bind (recurs _) fun type => .done (h.add type) _ _

theorem functionType_closes : Closes w (functionType recur) := by
  intro m n h
  refine .bind (.bracketed _ _ _ (functionTypeParameter_steady recurs)) fun parameters => ?_
  refine .bind (.expect (h.add parameters) _) fun h => ?_
  exact .bind (recurs _) fun type => .done (h.add type) _ _

theorem contextReceivers_steady : Steady w (contextReceivers recur) := by
  have receiver : Steady w (contextReceiver recur) :=
    .bind (recurs _) fun type => .done (Marker.Alike.start.add type) _ _
  refine .bind (.advance .start) fun h => .bind (.expect h _) fun h => ?_
  refine .bind (.commaList h _ receiver) fun h => .bind (.expect h _) fun h => ?_
  exact .done h _ _

theorem namedType_steady (receiver : Bool) : Steady w (namedType recur receiver) := by
  refine .look fun at_ => .ite (by rw [at_.sees, at_.sees]) ?_ (userType_steady recurs receiver)
  exact .bind (.advance .start) fun h => .done h _ _

theorem receiverOf_steady {p q : Parsed} (named : p.Alike q) :
    Like w Parsed.Alike (receiverOf recur p) (receiverOf recur q) := by
  refine .look fun at_ => .ite (by rw [at_.sees, at_.startsFunctionType]) ?_ (.pure named)
  refine .bind (.done named _ _) fun reference => .bind (.advance reference) fun h => ?_
  refine .bind (.done h _ _) fun receiver => ?_
  exact functionType_closes recurs (Marker.Alike.start.add receiver)

theorem typeBody_steady (receiver : Bool) : Steady w (typeBody recur receiver) := by
  refine .look fun at_ => .ite (at_.sees "(" 0) (.ite (at_.startsFunctionType 0) ?_ ?_) (.ite ?_ ?_ ?_)
  · exact functionType_closes recurs .start
  · exact .bind (recurs _) fun type => .done (Marker.Alike.start.add type) _ _
  · rw [at_.sees, at_.sees]
  · exact .bind (contextReceivers_steady recurs) fun contexts =>
      functionType_closes recurs (Marker.Alike.start.add contexts)
  · refine .bind (namedType_steady recurs receiver) fun named => ?_
    exact .bind (nullableIf_steady named) fun named => receiverOf_steady recurs named

theorem groupedType_steady : Steady w (groupedType recur) := by
  refine .bind (.advance .start) fun h => .bind (modified_carries recurs _ h) fun h => ?_
  refine .bind (typeBody_steady recurs _) fun type => .bind (.expect (h.add type) _) fun h => ?_
  refine .look fun at_ => .ite (by rw [at_.sees, at_.adjacent]) ?_ (.done h _ _)
  refine .bind (.advance h) fun h => .bind (.done h _ _) fun nullable => ?_
  exact .bind (nullableSuffix_steady nullable) fun type => .done (Marker.Alike.start.add type) _ _

theorem typeReference_steady (receiver : Bool) : Steady w (typeReference recur receiver) := by
  refine .look fun at_ => .ite (by rw [at_.sees, at_.startsFunctionType]) (groupedType_steady recurs) ?_
  refine .bind (modified_carries recurs _ .start) fun h => ?_
  exact .bind (typeBody_steady recurs receiver) fun type => .done (h.add type) _ _

theorem typeParameter_steady : Steady w (typeParameter recur) := by
  refine .bind (modified_carries recurs _ .start) fun h => .bind (.expectName h) fun h => ?_
  exact .bind (typeSuffix_carries recurs h) fun h => .done h _ _

theorem typeParametersInto_carries : Carries w (typeParametersInto recur) := by
  intro m n h
  exact .addIf h (fun at_ => at_.sees "<" 0) (.bracketed _ _ _ (typeParameter_steady recurs))

theorem annotationSetsInto_carries : Carries w (annotationSetsInto recur) := by
  intro m n h
  refine .iterateWhile h (fun at_ => at_.sees "@" 0) fun h => ?_
  exact .bind (recurs _) fun set => .pure (h.add set)

theorem typeConstraint_steady : Steady w (typeConstraint recur) := by
  refine .bind (annotationSetsInto_carries recurs .start) fun h => ?_
  refine .bind (.expectName h) fun h => .bind (.expect h _) fun h => ?_
  exact .bind (recurs _) fun type => .done (h.add type) _ _

theorem typeConstraintSet_steady : Steady w (typeConstraintSet recur) := by
  refine .bind (.advance .start) fun h => .bind (typeConstraint_steady recurs) fun first => ?_
  refine .bind (.iterateWhile (Marker.Alike.start.add first) (fun at_ => at_.sees "," 0) fun list => ?_) fun list => ?_
  · refine .bind (.advance list) fun list => ?_
    exact .bind (typeConstraint_steady recurs) fun constraint => .pure (list.add constraint)
  · exact .bind (.done list _ _) fun list => .done (h.add list) _ _

theorem constraintsInto_carries : Carries w (constraintsInto recur) := by
  intro m n h
  exact .addIf h (fun at_ => at_.sees "where" 0) (typeConstraintSet_steady recurs)

/-! Arguments, parameters and annotations. -/

theorem valueArgument_steady : Steady w (valueArgument recur) := by
  refine .bind (.advanceTwiceIf .start fun at_ => by rw [at_.seesName, at_.sees]) fun h => ?_
  refine .bind (.advanceIf h fun at_ => at_.sees "*" 0) fun h => ?_
  exact .bind (recurs _) fun value => .done (h.add value) _ _

theorem valueArguments_steady : Steady w (valueArguments recur) :=
  .withTrailingLambdas _ (.bracketed _ _ _ (valueArgument_steady recurs))

theorem annotationEntry_steady : Steady w (annotationEntry recur) := by
  refine .bind (userType_steady recurs _) fun type => ?_
  refine .bind (.addIf (Marker.Alike.start.add type) (fun at_ => ?_) (valueArguments_steady recurs)) fun h => ?_
  · rw [at_.sees, at_.adjacent]
  · exact .done h _ _

theorem annotationSet_steady : Steady w (annotationSet recur) := by
  refine .bind (.advance .start) fun h => .bind (.advanceTwiceIf h fun {b c} at_ => ?_) fun h => ?_
  · rw [atTarget, atTarget, at_.any_peek (fun _ => rfl), at_.adjacent, at_.sees, at_.adjacent]
  · refine .look fun at_ => .ite (by rw [at_.sees, at_.adjacent]) ?_ ?_
    · refine .bind (.advance h) fun h => .bind (.iterateWhile h (fun at_ => by rw [at_.sees]) fun h => ?_) fun h => ?_
      · exact .bind (annotationEntry_steady recurs) fun entry => .pure (h.add entry)
      · exact .bind (.advance h) fun h => .done h _ _
    · exact .bind (annotationEntry_steady recurs) fun entry => .done (h.add entry) _ _

theorem assignedInto_carries : Carries w (assignedInto recur) := by
  intro m n h
  refine .look fun at_ => .ite (at_.sees "=" 0) ?_ (.pure h)
  refine .bind (.advance h) fun h => ?_
  exact .bind (recurs _) fun value => .pure (h.add value)

theorem valueParameter_steady : Steady w (valueParameter recur) := by
  refine .bind (modified_carries recurs _ .start) fun h => ?_
  refine .bind (.advanceIf h fun at_ => at_.seesAny ["val", "var"]) fun h => .bind (.expectName h) fun h => ?_
  refine .bind (typeSuffix_carries recurs h) fun h => ?_
  exact .bind (assignedInto_carries recurs h) fun h => .done h _ _

theorem valueParameters_steady : Steady w (valueParameters recur) :=
  .withTrailingLambdas _ (.bracketed _ _ _ (valueParameter_steady recurs))

/-! Statements, blocks and lambdas. -/

theorem statementsInto_carries {stops : Builder → Bool}
    (same : ∀ {b c}, b.Alike w c → stops b = stops c) : Carries w (statementsInto recur stops) := by
  intro m n h
  have start : Both Marker.Alike Eq (m, true) (n, true) := ⟨h, rfl⟩
  refine .bind (.iterateWhile start (fun at_ => by rw [same at_, at_.atEnd]) ?_) fun both => .pure both.1
  rintro ⟨m, isFirst⟩ ⟨n, _⟩ ⟨h, rfl⟩
  refine .look fun at_ => .bind (.complainUnless (by rw [at_.separatedBefore]) _) fun _ => ?_
  exact .bind (.recovering h (recurs _)) fun h => .pure ⟨h, rfl⟩

theorem block_steady : Steady w (block recur) := by
  refine .withTrailingLambdas _ (.bind (.expect .start _) fun h => ?_)
  refine .bind (statementsInto_carries recurs (fun at_ => at_.sees closeBrace 0) h) fun h => ?_
  exact .bind (.expect h _) fun h => .done h _ _

theorem controlBody_steady : Steady w (controlBody recur) :=
  .look fun at_ => .ite (at_.sees openBrace 0) (block_steady recurs) (recurs _)

theorem lambdaParameterVariable_steady : Steady w (lambdaParameterVariable recur) := by
  refine .bind (modified_carries recurs _ .start) fun h => .bind (.expectName h) fun h => ?_
  exact .bind (typeSuffix_carries recurs h) fun h => .done h _ _

theorem lambdaParameter_steady : Steady w (lambdaParameter recur) := by
  refine .look fun at_ => .ite (at_.sees "(" 0) ?_ ?_
  · refine .bind (.advance .start) fun h => ?_
    refine .bind (.commaList h _ (lambdaParameterVariable_steady recurs)) fun h => .bind (.expect h _) fun h => ?_
    exact .bind (typeSuffix_carries recurs h) fun h => .done h _ _
  · exact .bind (lambdaParameterVariable_steady recurs) fun p => .done (Marker.Alike.start.add p) _ _

theorem lambdaParameters_steady : Steady w (lambdaParameters recur) := by
  refine .bind (.commaList .start _ (lambdaParameter_steady recurs)) fun h => .bind (.done h _ _) fun params => ?_
  exact .look fun at_ => .ite (at_.sees "->" 0) (.pure params) (.reject _)

theorem lambdaParametersInto_carries : Carries w (lambdaParametersInto recur) := by
  intro m n h
  refine .look fun at_ => .ite (at_.sees "->" 0) (.advance h) ?_
  refine .bind (.speculate (lambdaParameters_steady recurs)) fun found => ?_
  cases found with
  | none => exact .pure h
  | some params => exact .advance (h.add params)

theorem lambda_steady : Steady w (lambda recur) := by
  have body : SteadyOpt w (lambdaBody recur) :=
    .bind (statementsInto_carries recurs (fun at_ => at_.sees closeBrace 0) .start) fun h => .doneUnlessEmpty h _
  refine .withTrailingLambdas _ (.bind (.expect .start _) fun h => ?_)
  refine .bind (lambdaParametersInto_carries recurs h) fun h => .bind body fun body => ?_
  exact .bind (.expect (h.add? body) _) fun h => .done h _ _

end KotlinSyntax.Grammar
