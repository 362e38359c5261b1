import KotlinSyntax.Proofs.Plan.Reading.Declaration

/-! The rules of expressions and statements read along the plans of their kinds. -/
namespace KotlinSyntax.Conversion

attribute [local simp] Kind.demands Kind.overlooked Demand.filled Demand.pairedParentheses Demand.paired Demand.needs
  Demand.excludes

variable {o : Owner} {items : List Item} {p : Plan}

theorem Takes.container : Takes container o Plan.operandCell := by
  intro p items on
  refine .bind (on.nextAs rfl) ?_
  exact fun _ _ past => implied_accepts rfl fun _ => past

theorem block_accepts (h : On (Plan.ofKind .block) items) : Accepts block o items fun _ _ => True :=
  .past (On.token h) fun _ _ on =>
  .bind (on.untilToken rfl (.nextAs rfl)) fun _ _ on =>
  .past on.token fun _ _ on => on.finish (.free rfl)

theorem ifExpression_accepts (h : On (Plan.ofKind .ifExpression) items) :
    Accepts ifExpression o items fun _ _ => True :=
  .past (On.keyword h) fun _ _ on =>
  .past on.token fun _ _ on =>
  .past (on.nextAs rfl) fun _ _ on =>
  .past on.token fun _ _ on =>
  .past (Takes.container _ _ on) fun _ _ on =>
  .bind (on.skipToken rfl) fun _ _ on =>
  .bind (On.due on .container) fun _ _ after => after.2.finish (.free rfl)

theorem tryExpression_accepts (h : On (Plan.ofKind .tryExpression) items) :
    Accepts tryExpression o items fun _ _ => True :=
  .past (On.token h) fun _ _ on =>
  .past (on.part rfl) fun _ _ on =>
  .bind (on.nodes rfl rfl) fun _ _ on =>
  .bind (on.skipToken rfl) fun _ _ on =>
  .bind (On.due on (.part rfl)) fun _ _ after => after.2.finish (.free rfl)

theorem catchClause_accepts (h : On (Plan.ofKind .catchClause) items) :
    Accepts catchClause o items fun _ _ => True :=
  .past (On.keyword h) fun _ _ on =>
  .past (on.part rfl) fun _ _ on =>
  .past (on.part rfl) fun _ _ on => on.finish (.free rfl)

theorem forLoop_accepts (h : On (Plan.ofKind .forLoop) items) : Accepts forLoop o items fun _ _ => True :=
  .past (On.keyword h) fun _ _ on =>
  .past on.token fun _ _ on =>
  .past (on.part rfl) fun _ _ on =>
  .past on.token fun _ _ on =>
  .past (Takes.container _ _ on) fun _ _ on =>
  .past on.token fun _ _ on =>
  .past (Takes.container _ _ on) fun _ _ on => on.finish (.free rfl)

theorem whileLoop_accepts (h : On (Plan.ofKind .whileLoop) items) : Accepts whileLoop o items fun _ _ => True :=
  .past (On.keyword h) fun _ _ on =>
  .past on.token fun _ _ on =>
  .past (Takes.container _ _ on) fun _ _ on =>
  .past on.token fun _ _ on =>
  .past (Takes.container _ _ on) fun _ _ on => on.finish (.free rfl)

theorem doWhileLoop_accepts (h : On (Plan.ofKind .doWhileLoop) items) :
    Accepts doWhileLoop o items fun _ _ => True :=
  .past (On.token h) fun _ _ on =>
  .past (Takes.container _ _ on) fun _ _ on =>
  .past on.keyword fun _ _ on =>
  .past on.token fun _ _ on =>
  .past (Takes.container _ _ on) fun _ _ on =>
  .past on.token fun _ _ on => on.finish (.free rfl)

theorem operation_accepts {k : Kind} {c d : Cell} {operator rhs : Reading Node}
    (h : On [Plan.operand, .cell c, .cell d] items) (joins : Takes operator o c) (ends : Takes rhs o d)
    (none : k.demands = []) : Accepts (operation k operator rhs) o items fun _ _ => True :=
  .past (h.nextAs rfl) fun _ _ on =>
  .past (joins _ _ on) fun _ _ on =>
  .past (ends _ _ on) fun _ _ on => on.finish (.free none)

theorem prefixExpression_accepts (h : On (Plan.ofKind .prefixExpression) items) :
    Accepts prefixExpression o items fun _ _ => True :=
  .past (Takes.keywordOf (by decide) _ _ h) fun _ _ on =>
  .past (on.nextAs rfl) fun _ _ on => on.finish (.free rfl)

theorem postfixExpression_accepts (h : On (Plan.ofKind .postfixExpression) items) :
    Accepts postfixExpression o items fun _ _ => True :=
  .past (On.nextAs h rfl) fun _ _ on =>
  .past (Takes.keywordOf (by decide) _ _ on) fun _ _ on => on.finish (.free rfl)

/-- A receiver is a type only where a type stands. -/
theorem Takes.receiver : Takes receiver o Plan.receiverCell := by
  intro p items on
  refine .rest (.ite (fun type => ?_) fun value => ?_)
  · exact .bind ((on.ofSeenNode type).part rfl) fun _ _ past => implied_accepts rfl fun _ => past
  · have operand : On (Plan.operand :: p) items := on.ofUnseenNode (by simpa using value)
    exact .bind (operand.nextAs rfl) fun _ _ past => implied_accepts rfl fun _ => past

theorem beforeColons_accepts (h : On (Plan.opt [.cell Plan.receiverCell] :: Plan.word "::" :: p) items) :
    Accepts beforeColons o items fun _ items' => On p items' := by
  refine .rest (.bind (R := fun _ items' => On (Plan.word "::" :: p) items') ?_ fun _ _ on => ?_)
  · rcases h.choose with there | absent
    · refine .due ?_ ((Takes.receiver _ _ there).mono fun _ _ past => past.1)
      rw [there.unseenToken rfl]
      rfl
    · refine .notDue ?_ absent
      rw [On.seenToken absent]
      rfl
  · exact .past on.token fun _ _ on => .pure on

theorem callableReference_accepts (h : On (Plan.ofKind .callableReferenceExpression) items) :
    Accepts callableReference o items fun _ _ => True :=
  .bind (beforeColons_accepts h) fun _ _ on =>
  .past on.name fun _ _ on => on.finish (.free rfl)

theorem classLiteral_accepts (h : On (Plan.ofKind .classLiteralExpression) items) :
    Accepts classLiteral o items fun _ _ => True :=
  .bind (beforeColons_accepts h) fun _ _ on =>
  .past on.token fun _ _ on => on.finish (.free rfl)

theorem parenthesized_accepts (h : On (Plan.ofKind .parenthesized) items) :
    Accepts parenthesized o items fun _ _ => True :=
  .past (On.token h) fun _ _ on =>
  .past (on.nextAs rfl) fun _ _ on =>
  .past on.token fun _ _ on => on.finish (.free rfl)

theorem stringTemplate_accepts (h : On (Plan.ofKind .stringTemplate) items) :
    Accepts stringTemplate o items fun _ _ => True := by
  refine .bind (On.anyToken h rfl) fun _ _ after => ?_
  refine .bind (after.1.1.repeated (fun items on => ?_) fun items on => ⟨?_, on.nextAs rfl⟩) fun _ _ on => ?_
  · rw [on.seenKind]
    rfl
  · rw [on.unseenKind rfl]
    rfl
  · exact .bind (on.anyToken rfl) fun _ _ after => after.1.1.finish (.free rfl)

/-- Braces depend on the kind of the owner. -/
theorem template_accepts (h : On (Plan.ofKind o.kind) items) (reads : Goal.stringEntry.reads o.kind = true) :
    Accepts template o items fun _ _ => True := by
  refine .read ?_
  cases kind : o.kind <;> rw [kind] at h reads <;> try cases reads
  case shortTemplate =>
    exact .past (On.token h) fun _ _ on =>
      .past (on.nextAs rfl) fun _ _ on =>
      .bind (On.tokenIf (.inr ⟨rfl, on⟩)) fun _ _ on =>
      on.finish fun _ => by simp
  case longTemplate =>
    exact .past (On.token h) fun _ _ on =>
      .past (on.nextAs rfl) fun _ _ on =>
      .bind (On.tokenIf (.inl ⟨rfl, on⟩)) fun _ _ on =>
      on.finish fun _ => by simp

theorem arrowParameters_accepts {arrow : Bool} {params : Option Node} {Q : Option Node → List Item → Prop}
    (h : ∀ params, Q params items) : Accepts (arrowParameters arrow params) o items Q :=
  .ite (fun _ => .map (implied_accepts rfl fun _ => h _)) fun _ => .pure (h _)

theorem lambda_accepts (h : On (Plan.ofKind .lambdaExpression) items) : Accepts lambda o items fun _ _ => True :=
  .past (On.token h) fun _ _ on =>
  .bind (on.optionalPart rfl rfl) fun _ _ on =>
  .bind (on.skipWord rfl) fun _ _ on =>
  .bind (arrowParameters_accepts fun _ => on) fun _ _ on =>
  .bind (on.optionalPart rfl rfl) fun _ _ on =>
  .past on.token fun _ _ on => on.finish (.free rfl)

theorem lambdaParameterList_accepts (h : On (Plan.ofKind .lambdaParameterList) items) :
    Accepts lambdaParameterList o items fun _ _ => True :=
  .bind (On.separatedToEnd h rfl (.part rfl)) fun _ _ on => on.finish (.free rfl)

theorem lambdaParameter_accepts (h : On (Plan.ofKind .lambdaParameter) items) :
    Accepts lambdaParameter o items fun _ _ => True := by
  refine .bind (On.optionalKeyword h rfl) ?_
  rintro (_ | left) items' (⟨is, on⟩ | ⟨is, on⟩)
  · cases is
  · exact .past (on.part rfl) fun _ _ on => on.finish fun _ => by simp
  · exact .bind (on.separatedUpTo rfl rfl (.part rfl)) fun _ _ after =>
      .past after.2.keyword fun _ _ on =>
      .bind (on.optionalKeyword rfl) fun _ _ on =>
      .bind (On.due on (.part rfl)) fun _ _ after => after.2.finish fun _ => by simp [after.1]
  · cases is

theorem lambdaParameterVariable_accepts (h : On (Plan.ofKind .lambdaParameterVariable) items) :
    Accepts lambdaParameterVariable o items fun _ _ => True :=
  .bind (On.modifiers h rfl) fun _ _ on =>
  .past on.name fun _ _ on =>
  .bind (on.optionalType rfl) fun _ _ on => on.finish (.free rfl)

theorem lambdaBody_accepts (h : On (Plan.ofKind .lambdaBody) items) : Accepts lambdaBody o items fun _ _ => True :=
  .bind (On.untilEnd h (.nextAs rfl)) fun _ _ _ => build_accepts (.free rfl) fun _ => trivial

theorem thisExpression_accepts (h : On (Plan.ofKind .thisExpression) items) :
    Accepts thisExpression o items fun _ _ => True :=
  .past (On.token h) fun _ _ on =>
  .bind (on.label rfl) fun _ _ on => on.finish (.free rfl)

theorem superExpression_accepts (h : On (Plan.ofKind .superExpression) items) :
    Accepts superExpression o items fun _ _ => True := by
  refine .past (On.token h) fun _ _ on => .bind (on.skipToken rfl) fun _ _ on => ?_
  refine .bind (R := fun _ items' => On [Plan.label] items') ?_ fun _ _ on =>
    .bind (on.label rfl) fun _ _ on => on.finish (.free rfl)
  rcases on with ⟨is, on⟩ | ⟨is, on⟩
  · exact .due is (.past (on.part rfl) fun _ _ on => .past on.token fun _ _ on => .pure on)
  · exact .notDue is on

inductive Subject : List (Field × Node) → Prop
  | none : Subject []
  | some (left e right : Node) : Subject (one .lPar left ++ one .expression e ++ one .rPar right)

theorem whenSubject_accepts (h : On (Plan.opt [Plan.word "(", Plan.operand, Plan.word ")"] :: p) items)
    (other : Plan.mayBegin (.text "(") p = false) :
    Accepts whenSubject o items fun parts items' => Subject parts ∧ On p items' := by
  refine .bind (h.optionalKeyword other) ?_
  rintro (_ | left) items' (⟨is, on⟩ | ⟨is, on⟩)
  · cases is
  · exact .pure ⟨.none, on⟩
  · exact .past (On.nextAs on rfl) fun _ _ on =>
      .past on.keyword fun _ _ on => .pure ⟨.some .., on⟩
  · cases is

theorem whenExpression_accepts (h : On (Plan.ofKind .whenExpression) items) :
    Accepts whenExpression o items fun _ _ => True := by
  refine .past (On.keyword h) fun _ _ on => .bind (whenSubject_accepts on rfl) ?_
  rintro parts _ ⟨subject, on⟩
  refine .past on.token fun _ _ on => .bind (on.nodes rfl rfl) fun _ _ on => .past on.token fun _ _ on => ?_
  refine on.finish fun _ => ?_
  cases subject <;> simp

/-- A branch that is taken otherwise has no conditions, and a comma stands only behind some. -/
theorem whenEntry_accepts (h : On (Plan.ofKind .whenEntry) items) : Accepts whenEntry o items fun _ _ => True := by
  refine .bind (On.optionalKeyword h rfl) fun otherwise _ on => ?_
  refine .bind (R := fun list items' => (otherwise.isSome = true → list.1 = []) ∧
    (list.2.isSome = true → list.1 ≠ []) ∧ On [Plan.word "->", Plan.operand] items') ?_ ?_
  · rcases on with ⟨is, on⟩ | ⟨is, on⟩ <;> rw [is]
    · exact .pure ⟨fun _ => rfl, nofun, on⟩
    · exact (on.separatedUpTo rfl rfl (.part rfl)).mono fun _ _ after => ⟨nofun, after⟩
  · rintro ⟨conditions, comma⟩ _ ⟨bare, behind, on⟩
    refine .past on.token fun _ _ on => .past (on.nextAs rfl) fun _ _ on => on.finish fun _ => ?_
    cases otherwise with
    | some word =>
      obtain rfl : conditions = [] := bare rfl
      have none : comma = none := by simpa using behind
      simp [none]
    | none =>
      cases comma with
      | none => simp
      | some comma => simp [show conditions ≠ [] from behind rfl]

/-- The operator of a condition, with its text. -/
theorem conditionOperator_accepts {texts : List String} (h : On (Plan.words texts :: p) items)
    (known : texts.all (Keyword.conditionOperators.contains ·) = true) :
    Accepts (onlyIf (Keyword.conditionOperators.any (seesToken · 0 items)) (keywordOf Keyword.conditionOperators)) o
      items fun operator items' => On p items' ∧ ∃ n, operator = some n ∧ n.text ∈ texts := by
  refine .due ?_ ((h.keywordOf known).mono fun n _ after => ⟨after.1.1, n, rfl, after.2⟩)
  obtain ⟨text, member, seen⟩ := h.seenWords
  refine List.any_eq_true.mpr ⟨text, ?_, seen⟩
  simpa using List.all_eq_true.mp known text member

theorem whenCondition_accepts (h : On (Plan.ofKind .whenCondition) items) :
    Accepts whenCondition o items fun _ _ => True := by
  refine .rest ?_
  rcases On.choose h with contained | other
  · refine .bind (conditionOperator_accepts contained (by decide)) ?_
    rintro _ _ ⟨on, n, rfl, member⟩
    rw [if_neg (by simp at member; rcases member with is | is <;> simp [is])]
    exact .past (on.nextAs rfl) fun _ _ on => on.finish fun _ => by
      simp at member
      rcases member with is | is <;> simp [Demand.testsType, Node.get?, Node.children, opt, one, is]
  rcases On.choose other with typed | plain
  · refine .bind (conditionOperator_accepts typed (by decide)) ?_
    rintro _ _ ⟨on, n, rfl, member⟩
    rw [if_pos (by simp at member; rcases member with is | is <;> simp [is])]
    exact .past (on.part rfl) fun _ _ on => on.finish fun _ => by
      simp at member
      rcases member with is | is <;> simp [Demand.testsType, Node.get?, Node.children, opt, one, is]
  · have value : On [Plan.operand] items := plain
    refine .bind (R := fun operator items' => operator = none ∧ On [Plan.operand] items') ?_ ?_
    · refine .notDue (List.any_eq_false.mpr fun text member => ?_) ⟨rfl, plain⟩
      have unseen : ∀ text ∈ Keyword.conditionOperators, Plan.mayBegin (.text text) [Plan.operand] = false := by decide
      simp [value.unseenToken (unseen text member)]
    · rintro _ _ ⟨rfl, on⟩
      exact .past (on.nextAs rfl) fun _ _ on => on.finish fun _ => by
        simp [Demand.testsType, Node.get?, Node.children, opt, one]

theorem throwExpression_accepts (h : On (Plan.ofKind .throwExpression) items) :
    Accepts throwExpression o items fun _ _ => True :=
  .bind (On.anyToken h rfl) fun _ _ after =>
  .past (after.1.1.nextAs rfl) fun _ _ on => on.finish (.free rfl)

theorem returnExpression_accepts (h : On (Plan.ofKind .returnExpression) items) :
    Accepts returnExpression o items fun _ _ => True := by
  refine .bind (On.anyToken h rfl) fun _ _ after => .bind (after.1.1.label rfl) fun _ items on => .rest ?_
  refine .bind (R := fun _ items' => On [] items') ?_ fun _ _ on => on.finish (.free rfl)
  rcases on.choose with there | absent
  · refine .due ?_ ((there.nextAs rfl).mono fun _ _ past => past.1)
    obtain ⟨i, items', rfl, _⟩ := there.head
    rfl
  · refine .notDue ?_ absent
    rw [On.eq_nil absent]
    rfl

theorem loopJump_accepts {k : Kind} {text : String} (h : On [Plan.word text, Plan.label] items)
    (none : k.demands = []) : Accepts (loopJump k) o items fun _ _ => True :=
  .bind (h.anyToken rfl) fun _ _ after =>
  .bind (after.1.1.label rfl) fun _ _ on => on.finish (.free none)

theorem collectionLiteral_accepts (h : On (Plan.ofKind .collectionLiteralExpression) items) :
    Accepts collectionLiteral o items fun _ _ => True :=
  .bind (On.bracketed h rfl rfl (.nextAs rfl)) fun _ _ on => on.finish (.free rfl)

theorem labeledExpression_accepts (h : On (Plan.ofKind .labeledExpression) items) :
    Accepts labeledExpression o items fun _ _ => True :=
  .past (On.name h) fun _ _ on =>
  .past on.token fun _ _ on =>
  .past (on.nextAs rfl) fun _ _ on => on.finish (.free rfl)

theorem annotatedExpression_accepts (h : On (Plan.ofKind .annotatedExpression) items) :
    Accepts annotatedExpression o items fun _ _ => True :=
  .bind (On.annotationSets h rfl) fun _ _ on =>
  .past (on.nextAs rfl) fun _ _ on => on.finish (.free rfl)

theorem callExpression_accepts (h : On (Plan.ofKind .callExpression) items) :
    Accepts callExpression o items fun _ _ => True :=
  .past (On.nextAs h rfl) fun _ _ on =>
  .bind (on.optionalPart rfl rfl) fun _ _ on =>
  .bind (on.optionalPart rfl rfl) fun _ _ on =>
  .bind (on.optionalPart rfl rfl) fun _ _ on => on.finish (.free rfl)

theorem lambdaArgument_accepts (h : On (Plan.ofKind .lambdaArgument) items) :
    Accepts lambdaArgument o items fun _ _ => True :=
  .bind (On.annotationSets h rfl) fun _ _ on =>
  .rest <| .bind (on.named rfl .name) fun _ _ on =>
  .bind (On.tokenIf on) fun _ _ on =>
  .past (on.part rfl) fun _ _ on => on.finish (.free rfl)

theorem arrayAccess_accepts (h : On (Plan.ofKind .arrayAccessExpression) items) :
    Accepts arrayAccess o items fun _ _ => True :=
  .past (On.nextAs h rfl) fun _ _ on =>
  .bind (on.bracketed rfl rfl (.nextAs rfl)) fun _ _ on => on.finish (.free rfl)

theorem wrapped_accepts {k : Kind} {f : Field} {rule : Reading Node} (none : k.demands = [])
    (h : Accepts rule o items fun _ _ => True) : Accepts (wrapped k f rule) o items fun _ _ => True :=
  .bind h fun _ _ _ => build_accepts (.free none) fun _ => trivial

end KotlinSyntax.Conversion
