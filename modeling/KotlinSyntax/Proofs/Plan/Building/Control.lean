import KotlinSyntax.Grammar.Control
import KotlinSyntax.Proofs.Plan.Building.Declaration

/-! The rules of branches, loops and jumps build along the plans of their kinds. -/
namespace KotlinSyntax.Grammar

open Builder

variable {scope : Scope} {b : Builder} {m : Marker} {whole p : Plan} {c : Cell} {kind : RawKind} {recur : Recur}

/-! Words with a label, a type or an operand. -/

theorem labelInto_leads (h : Awaits whole (Plan.label :: p) m) : Leads scope (labelInto m) b whole p := by
  refine .look (.ite (fun sign => ?_) fun _ => .pure h.right)
  simp only [Bool.and_eq_true] at sign
  exact .bind (h.left.advance (.word sign.1.1 rfl)) fun _ _ on => on.expectName

/-- A word of its own with a label, such as a jump. -/
theorem jump_yields {word : String} (plan : Plan.ofKind kind = [Plan.word word, Plan.label])
    (seen : b.sees word = true) (takes : c.nodes.contains kind = true) : Produces scope (jump kind) b c := by
  have start : Awaits (Plan.ofKind kind) [Plan.word word, Plan.label] .empty := plan ▸ .new kind
  exact .bind (start.advance (.word seen (by simp [Plan.wordsCell]))) fun _ _ on =>
    .bind (labelInto_leads on) fun _ _ on => on.done takes

theorem superTypeInto_leads (keeps : Keeps recur)
    (h : Awaits whole (Plan.opt [Plan.word "<", Plan.node .typeReference, Plan.word ">"] :: p) m) :
    Leads scope (superTypeInto recur m) b whole p := by
  refine .look (.ite (fun angle => ?_) fun _ => .pure h.right)
  exact .bind (h.left.advance (.word (Bool.and_eq_true_iff.mp angle).1 rfl)) fun _ _ on =>
    .bind keeps.type fun _ _ fills => (on.add fills).expect

theorem superExpression_yields (keeps : Keeps recur) (seen : b.sees "super" = true) :
    Produces scope (superExpression recur) b Plan.operandCell :=
  .bind ((Awaits.new .superExpression).advance (.word seen rfl)) fun _ _ on =>
  .bind (superTypeInto_leads keeps on) fun _ _ on =>
  .bind (labelInto_leads on) fun _ _ on => on.done rfl

theorem throwExpression_yields (keeps : Keeps recur) (seen : b.sees "throw" = true) :
    Produces scope (throwExpression recur) b Plan.operandCell :=
  .bind ((Awaits.new .throwExpression).advance (.word seen rfl)) fun _ _ on =>
  .bind keeps.expression fun _ _ fills => (on.add fills).done rfl

theorem returnExpression_yields (keeps : Keeps recur) (seen : b.sees "return" = true) :
    Produces scope (returnExpression recur) b Plan.operandCell :=
  .bind ((Awaits.new .returnExpression).advance (.word seen rfl)) fun _ _ on =>
  .bind (labelInto_leads on) fun _ _ on =>
  .look <| .ite (fun _ => .bind keeps.expression fun _ _ fills => (on.left.add fills).done rfl) fun _ =>
    on.right.done rfl

/-! Branches. -/

/-- A body that is missing ends the node, whatever it has by then. -/
theorem emptyBody_yields {what : String} (h : Gathered m) : Yields scope (emptyBody m what) b fun x _ =>
    ∀ y ∈ x, Fills Plan.operandCell y :=
  .look <| .ite (fun _ => .note (some_yields (h.refused rfl))) fun _ => .pure nofun

/-- The body of a branch or a loop is the last part. -/
theorem loopBody_yields (keeps : Keeps recur) {what : String} (h : Awaits (Plan.ofKind kind) [Plan.operand] m)
    (takes : Plan.operandCell.nodes.contains kind = true) :
    Produces scope (loopBody recur m what kind) b Plan.operandCell := by
  refine .bind (emptyBody_yields h.toGathered) ?_
  rintro (_ | empty) _ fills
  · exact .bind (controlBody_yields keeps) fun _ _ fills => (h.add fills).done takes
  · exact .pure (fills empty rfl)

theorem conditionInto_leads (keeps : Keeps recur)
    (h : Awaits whole (Plan.word "(" :: Plan.operand :: Plan.word ")" :: p) m) :
    Leads scope (conditionInto recur m) b whole p :=
  .withTrailingLambdas <|
  .bind h.expect fun _ _ on =>
  .bind keeps.expression fun _ _ fills => (on.add fills).expect

theorem elseInto_yields (keeps : Keeps recur)
    (h : Awaits (Plan.ofKind .ifExpression) [Plan.word "else", Plan.operand] m) (seen : b.sees "else" = true) :
    Produces scope (elseInto recur m) b Plan.operandCell :=
  .bind (h.advance (.word seen rfl)) fun _ _ on => loopBody_yields keeps on rfl

theorem ifExpression_yields (keeps : Keeps recur) (seen : b.sees "if" = true) :
    Produces scope (ifExpression recur) b Plan.operandCell := by
  refine .bind ((Awaits.new .ifExpression).advance (.word seen rfl)) fun _ _ on =>
    .bind (conditionInto_leads keeps on) fun _ _ on => .bind (emptyBody_yields on.toGathered) ?_
  rintro (_ | empty) _ fills
  · refine .bind (controlBody_yields keeps) fun _ _ fills => .look (.ite (fun otherwise => ?_) fun _ => ?_)
    · exact elseInto_yields keeps (on.add fills).left (Bool.and_eq_true_iff.mp otherwise).1
    · exact (on.add fills).right.done rfl
  · exact .pure (fills empty rfl)

theorem whenCondition_yields (keeps : Keeps recur) :
    Produces scope (whenCondition recur) b (Plan.nodesCell [.whenCondition]) := by
  have start := Awaits.new .whenCondition
  refine .look (.ite (fun contained => ?_) fun _ => .ite (fun typed => ?_) fun _ => ?_)
  · exact .bind (start.left.advance (.wordOf contained (by decide))) fun _ _ on =>
      .bind keeps.expression fun _ _ fills => (on.add fills).done rfl
  · exact .bind (start.right.left.advance (.wordOf typed (by decide))) fun _ _ on =>
      .bind keeps.type fun _ _ fills => (on.add fills).done rfl
  · exact .bind keeps.expression fun _ _ fills => (start.right.right.add fills).done rfl

theorem whenEntry_yields (keeps : Keeps recur) :
    Produces scope (whenEntry recur) b (Plan.nodesCell [.whenEntry]) := by
  have start := Awaits.new .whenEntry
  have conditions : Leads scope (whenConditions recur) b (Plan.ofKind .whenEntry) [Plan.word "->", Plan.operand] :=
    .look <| .ite (fun otherwise => start.left.advance (.word otherwise rfl)) fun _ =>
      start.right.commaList fun _ => whenCondition_yields keeps
  exact .bind conditions fun _ _ on =>
    .bind on.expect fun _ _ on =>
    .bind (controlBody_yields keeps) fun _ _ fills => (on.add fills).done rfl

theorem whenSubject_yields (keeps : Keeps recur) : Produces scope (whenSubject recur) b Plan.operandCell :=
  .look <| .ite
    (fun word => propertyDeclaration_yields keeps (Awaits.new .property).right (.wordOf word (by decide)) rfl)
    fun _ => keeps.expression

theorem whenSubjectInto_leads (keeps : Keeps recur)
    (h : Awaits whole (Plan.opt [Plan.word "(", Plan.operand, Plan.word ")"] :: p) m) :
    Leads scope (whenSubjectInto recur m) b whole p :=
  .look <| .ite
    (fun paren =>
      .bind (h.left.advance (.word paren rfl)) fun _ _ on =>
      .bind (whenSubject_yields keeps) fun _ _ fills => (on.add fills).expect)
    fun _ => .pure h.right

theorem whenExpression_yields (keeps : Keeps recur) (seen : b.sees "when" = true) :
    Produces scope (whenExpression recur) b Plan.operandCell :=
  .bind ((Awaits.new .whenExpression).advance (.word seen rfl)) fun _ _ on =>
  .bind (whenSubjectInto_leads keeps on) fun _ _ on =>
  .bind on.expect fun _ _ on =>
  .bind (on.iterateWhile fun _ _ on _ =>
    .recovering ((whenEntry_yields keeps).mono fun _ _ fills => on.add fills)) fun _ _ after =>
  .bind after.1.expect fun _ _ on => on.done rfl

/-! Exceptions. -/

theorem catchClause_yields (keeps : Keeps recur) (seen : b.sees "catch" = true) :
    Produces scope (catchClause recur) b (Plan.nodesCell [.catchClause]) :=
  .bind ((Awaits.new .catchClause).advance (.word seen rfl)) fun _ _ on =>
  .bind (valueParameters_yields keeps) fun _ _ params =>
  .bind (block_yields keeps) fun _ _ body => ((on.add params).add body).done rfl

theorem tryExpression_yields (keeps : Keeps recur) (seen : b.sees "try" = true) :
    Produces scope (tryExpression recur) b Plan.operandCell := by
  refine .bind ((Awaits.new .tryExpression).advance (.word seen rfl)) fun _ _ on =>
    .bind (block_yields keeps) fun _ _ fills =>
    .bind ((on.add fills).iterateWhile fun _ _ on word =>
      .bind (catchClause_yields keeps word) fun _ _ fills => .pure (on.add fills)) ?_
  rintro _ _ ⟨on, _⟩
  refine .look (.ite (fun word => ?_) fun _ => on.right.done rfl)
  exact .bind (on.left.advance (.word word rfl)) fun _ _ on =>
    .bind (block_yields keeps) fun _ _ fills => (on.add fills).done rfl

/-! Loops. -/

theorem forLoop_yields (keeps : Keeps recur) (seen : b.sees "for" = true) :
    Produces scope (forLoop recur) b Plan.operandCell :=
  .bind ((Awaits.new .forLoop).advance (.word seen rfl)) fun _ _ on =>
  .bind on.expect fun _ _ on =>
  .bind (lambdaParameter_yields keeps) fun _ _ fills =>
  .bind (on.add fills).expect fun _ _ on =>
  .bind keeps.expression fun _ _ fills =>
  .bind (on.add fills).expect fun _ _ on => loopBody_yields keeps on rfl

theorem whileLoop_yields (keeps : Keeps recur) (seen : b.sees "while" = true) :
    Produces scope (whileLoop recur) b Plan.operandCell :=
  .bind ((Awaits.new .whileLoop).advance (.word seen rfl)) fun _ _ on =>
  .bind (conditionInto_leads keeps on) fun _ _ on => loopBody_yields keeps on rfl

theorem doWhileLoop_yields (keeps : Keeps recur) (seen : b.sees "do" = true) :
    Produces scope (doWhileLoop recur) b Plan.operandCell :=
  .bind ((Awaits.new .doWhileLoop).advance (.word seen rfl)) fun _ _ on =>
  .bind (controlBody_yields keeps) fun _ _ fills =>
  .bind (on.add fills).expect fun _ _ on =>
  .bind (conditionInto_leads keeps on) fun _ _ on => on.done rfl

/-! Any of them. -/

theorem keywordExpression_yields (keeps : Keeps recur) {t : Token} (peeked : b.peek = some t)
    (keyword : t.kind = .keyword) : Produces scope (keywordExpression recur t.text) b Plan.operandCell := by
  have seen := sees_of_peek peeked (by rw [keyword]; rfl)
  unfold keywordExpression
  split <;> rename_i is <;> try rw [is] at seen
  · exact token_yields (.valueWord peeked keyword (by rw [is]; rfl) rfl)
  · exact token_yields (.valueWord peeked keyword (by rw [is]; rfl) rfl)
  · exact token_yields (.valueWord peeked keyword (by rw [is]; rfl) rfl)
  · exact jump_yields rfl seen rfl
  · exact superExpression_yields keeps seen
  · exact ifExpression_yields keeps seen
  · exact whenExpression_yields keeps seen
  · exact tryExpression_yields keeps seen
  · exact forLoop_yields keeps seen
  · exact whileLoop_yields keeps seen
  · exact doWhileLoop_yields keeps seen
  · exact throwExpression_yields keeps seen
  · exact returnExpression_yields keeps seen
  · exact jump_yields rfl seen rfl
  · exact jump_yields rfl seen rfl
  · exact classDeclaration_yields keeps (Awaits.new .classDeclaration).right (.word seen rfl) rfl
  · exact functionDeclaration_yields keeps (Awaits.new .function).right seen rfl
  · exact .reject

end KotlinSyntax.Grammar
