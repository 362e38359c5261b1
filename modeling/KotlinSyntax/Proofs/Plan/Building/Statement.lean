import KotlinSyntax.Grammar.Statement
import KotlinSyntax.Proofs.Plan.Building.Type

/-! The rules of arguments, annotations, parameters, blocks and lambdas build along the plans of their kinds. -/
namespace KotlinSyntax.Grammar

open Builder

variable {scope : Scope} {b : Builder} {m : Marker} {whole p : Plan} {x : Parsed} {recur : Recur}

/-! Arguments and annotations. -/

theorem valueArgument_yields (keeps : Keeps recur) :
    Produces scope (valueArgument recur) b (Plan.nodesCell [.valueArgument]) := by
  refine .bind ((Awaits.new .valueArgument).advanceTwiceIf (fun seen => ?_) fun seen => ?_) fun _ _ on =>
    .bind (on.advanceIf fun seen => .word seen rfl) fun _ _ on =>
    .bind keeps.expression fun _ _ fills => (on.add fills).done rfl
  · exact .name (Bool.and_eq_true_iff.mp seen).1 rfl
  · exact .word (Bool.and_eq_true_iff.mp seen).2 rfl

theorem valueArguments_yields (keeps : Keeps recur) :
    Produces scope (valueArguments recur) b (Plan.nodesCell [.valueArgumentList]) :=
  .withTrailingLambdas (bracketed_yields rfl rfl fun _ => valueArgument_yields keeps)

theorem annotationEntry_yields (keeps : Keeps recur) :
    Produces scope (annotationEntry recur) b (Plan.nodesCell [.annotationEntry]) :=
  .bind (userType_yields keeps) fun _ _ fills =>
  .bind (((Awaits.new .annotationEntry).add fills).addIf fun _ => valueArguments_yields keeps) fun _ _ on =>
  on.done rfl

theorem faces_of_atTarget (target : atTarget b = true) :
    Faces b 0 (Plan.wordsCell Keyword.annotationTargets) ∧ b.sees ":" 1 = true := by
  simp only [atTarget, Bool.and_eq_true] at target
  obtain ⟨⟨⟨named, _⟩, colon⟩, _⟩ := target
  refine ⟨?_, colon⟩
  cases seen : b.peek with
  | none => simp [seen] at named
  | some t =>
    simp only [seen, Option.any_some, Bool.and_eq_true] at named
    refine ⟨t, seen, fun _ => ?_⟩
    simp only [Cell.takes, Plan.wordsCell, named.2, Bool.true_or]

theorem annotationSet_yields (keeps : Keeps recur) (seen : b.sees "@" = true) :
    Produces scope (annotationSet recur) b (Plan.nodesCell [.annotationSet]) := by
  refine .bind ((Awaits.new .annotationSet).advance (.word seen rfl)) fun _ _ on =>
    .bind (on.advanceTwiceIf (fun target => (faces_of_atTarget target).1)
      fun target => .word (faces_of_atTarget target).2 rfl) fun _ _ on =>
    .look (.ite (fun bracket => ?_) fun _ => ?_)
  · refine .bind (on.left.advance (.word (Bool.and_eq_true_iff.mp bracket).1 rfl)) fun _ _ on =>
      .bind (on.iterateWhile fun _ _ on _ =>
        .bind (annotationEntry_yields keeps) fun _ _ fills => .pure (on.add fills)) ?_
    rintro _ _ ⟨on, closed⟩
    exact .bind (on.left.advance (.word (by simpa using closed) rfl)) fun _ _ on => on.done rfl
  · exact .bind (annotationEntry_yields keeps) fun _ _ fills => (on.right.more.add fills).stop.right.done rfl

/-! Parameters. -/

theorem assigned_leads (keeps : Keeps recur) (h : Awaits whole (Plan.word "=" :: Plan.operand :: p) m)
    (seen : b.sees "=" = true) : Leads scope (assignedInto recur m) b whole p := by
  refine .look ?_
  rw [if_pos seen]
  exact .bind (h.advance (.word seen rfl)) fun _ _ on =>
    .bind keeps.expression fun _ _ fills => .pure (on.add fills)

theorem assignedInto_leads (keeps : Keeps recur) (h : Awaits whole (Plan.opt Plan.assigned :: p) m) :
    Leads scope (assignedInto recur m) b whole p := by
  by_cases seen : b.sees "=" = true
  · exact assigned_leads keeps h.left seen
  · refine .look ?_
    rw [if_neg seen]
    exact .pure h.right

theorem valueParameter_yields (keeps : Keeps recur) :
    Produces scope (valueParameter recur) b (Plan.nodesCell [.valueParameter]) :=
  .bind (modified_leads keeps (.new .valueParameter)) fun _ _ on =>
  .bind (on.advanceIf fun seen => .wordOf seen (by decide)) fun _ _ on =>
  .bind on.expectName fun _ _ on =>
  .bind (typeSuffix_leads keeps on) fun _ _ on =>
  .bind (assignedInto_leads keeps on) fun _ _ on => on.done rfl

theorem valueParameters_yields (keeps : Keeps recur) :
    Produces scope (valueParameters recur) b (Plan.nodesCell [.valueParameterList]) :=
  .withTrailingLambdas (bracketed_yields rfl rfl fun _ => valueParameter_yields keeps)

/-! Blocks. -/

theorem statementsInto_yields (keeps : Keeps recur) {stops : Builder → Bool}
    (h : Awaits whole (.many [.cell Plan.statementCell] :: p) m) :
    Yields scope (statementsInto recur stops m) b fun m' b' =>
      Awaits whole p m' ∧ (stops b' = false → b'.atEnd = true) := by
  refine .bind (.iterateWhile (I := fun s _ => Awaits whole (.many [.cell Plan.statementCell] :: p) s.1) h ?_) ?_
  · rintro ⟨m, isFirst⟩ b on _
    exact .look <| .complainUnless fun _ =>
      .bind (.recovering (keeps.statement.mono fun _ _ fills => on.more.add fills)) fun _ _ on => .pure on
  · rintro ⟨m, isFirst⟩ b ⟨on, stopped⟩
    exact .pure ⟨on.stop, by simpa using stopped⟩

theorem block_yields (keeps : Keeps recur) : Produces scope (block recur) b (Plan.nodesCell [.block]) :=
  .withTrailingLambdas <|
  .bind (Awaits.new .block).expect fun _ _ on =>
  .bind (statementsInto_yields keeps on) fun _ _ after =>
  .bind after.1.expect fun _ _ on => on.done rfl

theorem controlBody_yields (keeps : Keeps recur) : Produces scope (controlBody recur) b Plan.operandCell :=
  .look <| .ite (fun _ => (block_yields keeps).mono fun _ _ fills => fills.widen (by decide)) fun _ => keeps.expression

/-! Lambdas. -/

theorem lambdaParameterVariable_yields (keeps : Keeps recur) :
    Produces scope (lambdaParameterVariable recur) b (Plan.nodesCell [.lambdaParameterVariable]) :=
  .bind (modified_leads keeps (.new .lambdaParameterVariable)) fun _ _ on =>
  .bind on.expectName fun _ _ on =>
  .bind (typeSuffix_leads keeps on) fun _ _ on => on.done rfl

theorem lambdaParameter_yields (keeps : Keeps recur) :
    Produces scope (lambdaParameter recur) b (Plan.nodesCell [.lambdaParameter]) := by
  have start := Awaits.new .lambdaParameter
  refine .look (.ite (fun several => ?_) fun _ => ?_)
  · exact .bind (start.left.advance (.word several rfl)) fun _ _ on =>
      .bind (on.commaList fun _ => lambdaParameterVariable_yields keeps) fun _ _ on =>
      .bind on.expect fun _ _ on =>
      .bind (typeSuffix_leads keeps on) fun _ _ on => on.done rfl
  · exact .bind (lambdaParameterVariable_yields keeps) fun _ _ fills => (start.right.add fills).done rfl

theorem lambdaParameters_yields (keeps : Keeps recur) : Yields scope (lambdaParameters recur) b fun x b' =>
    Fills (Plan.nodesCell [.lambdaParameterList]) x ∧ b'.sees "->" = true :=
  .bind ((Awaits.new .lambdaParameterList).commaList fun _ => lambdaParameter_yields keeps) fun _ _ on =>
  .bind (on.done rfl) fun _ _ fills =>
  .look <| .ite (fun arrow => .pure ⟨fills, arrow⟩) fun _ => .reject

theorem lambdaParametersInto_leads (keeps : Keeps recur)
    (h : Awaits whole (Plan.opt [Plan.node .lambdaParameterList] :: Plan.opt [Plan.word "->"] :: p) m) :
    Leads scope (lambdaParametersInto recur m) b whole p := by
  refine .look (.ite (fun arrow => h.right.left.advance (.word arrow rfl)) fun _ => ?_)
  refine .bind (.speculate (lambdaParameters_yields keeps)) ?_
  rintro (_ | params) b' after
  · exact .pure h.right.right
  · exact (h.left.add after.1).left.advance (.word after.2 rfl)

theorem lambdaBody_yields (keeps : Keeps recur) :
    Yields scope (lambdaBody recur) b fun x _ => ∀ y ∈ x, Fills (Plan.nodesCell [.lambdaBody]) y :=
  .bind (statementsInto_yields keeps (.new .lambdaBody)) fun _ _ after => after.1.doneUnlessEmpty rfl

theorem lambda_yields (keeps : Keeps recur) : Produces scope (lambda recur) b (Plan.nodesCell [.lambdaExpression]) :=
  .withTrailingLambdas <|
  .bind (Awaits.new .lambdaExpression).expect fun _ _ on =>
  .bind (lambdaParametersInto_leads keeps on) fun _ _ on =>
  .bind (lambdaBody_yields keeps) fun _ _ fills =>
  .bind (on.add? fills).expect fun _ _ on => on.done rfl

end KotlinSyntax.Grammar
