import KotlinSyntax.Proofs.Conversion
import KotlinSyntax.Proofs.Plan.Reading.Expression

/-! Conversion along the plans. An element of which every node has the parts of its kind is never found to lack a
part, to have one too many or to have one of the wrong kind, and its nodes meet all demands but the overlooked ones. -/
namespace KotlinSyntax

structure Token.Legible (t : Token) : Prop where
  name : t.kind = .identifier → t.text ≠ ""
  escape : t.kind = .escapeSequence → t.text.toList.head? = some '\\'

namespace Conversion

open RawElement

variable {o : Owner} {kind : RawKind} {rule : Reading Node} {is : List Item}

/-! The rules of the kinds. -/

theorem partRule_accepts (on : On (Plan.ofKind kind) is) (found : partRule kind = some rule) :
    Accepts rule o is fun _ _ => True := by
  cases kind with
  | packageDirective => cases found; exact packageDirective_accepts on
  | importList => cases found; exact importList_accepts on
  | importDirective => cases found; exact importDirective_accepts on
  | importAlias => cases found; exact importAlias_accepts on
  | superTypeList => cases found; exact superTypeList_accepts on
  | primaryConstructor => cases found; exact primaryConstructor_accepts on
  | classBody => cases found; exact classBody_accepts on
  | enumEntry => cases found; exact enumEntry_accepts on
  | valueParameterList => cases found; exact list_accepts on rfl rfl rfl
  | valueParameter => cases found; exact valueParameter_accepts on
  | propertyDelegate => cases found; exact propertyDelegate_accepts on
  | propertyGetter => cases found; exact propertyGetter_accepts on
  | propertySetter => cases found; exact propertySetter_accepts on
  | destructuringEntry => cases found; exact destructuringEntry_accepts on
  | delegationCall => cases found; exact delegationCall_accepts on
  | typeParameterList => cases found; exact list_accepts on rfl rfl rfl
  | typeParameter => cases found; exact typeParameter_accepts on
  | typeConstraintSet => cases found; exact typeConstraintSet_accepts on
  | typeConstraintList => cases found; exact typeConstraintList_accepts on
  | typeConstraint => cases found; exact typeConstraint_accepts on
  | contract => cases found; exact contract_accepts on
  | contractEffectList => cases found; exact list_accepts on rfl rfl rfl
  | contractEffect => cases found; exact contractEffect_accepts on
  | typeReference => cases found; exact typeReference_accepts on
  | userType => cases found; exact userType_accepts on
  | typeQualifier => cases found; exact typeQualifier_accepts on
  | functionTypeReceiver => cases found; exact functionTypeReceiver_accepts on
  | functionTypeParameterList => cases found; exact list_accepts on rfl rfl rfl
  | functionTypeParameter => cases found; exact functionTypeParameter_accepts on
  | contextReceiverList => cases found; exact contextReceiverList_accepts on
  | contextReceiver => cases found; exact contextReceiver_accepts on
  | typeArgumentList => cases found; exact list_accepts on rfl rfl rfl
  | typeProjection => cases found; exact typeProjection_accepts on
  | modifierList => cases found; exact modifierList_accepts on
  | annotationSet => cases found; exact annotationSet_accepts on
  | annotationEntry => cases found; exact annotationEntry_accepts on
  | valueArgumentList => cases found; exact list_accepts on rfl rfl rfl
  | valueArgument => cases found; exact valueArgument_accepts on
  | catchClause => cases found; exact catchClause_accepts on
  | lambdaExpression => cases found; exact lambda_accepts on
  | lambdaParameterList => cases found; exact lambdaParameterList_accepts on
  | lambdaParameter => cases found; exact lambdaParameter_accepts on
  | lambdaParameterVariable => cases found; exact lambdaParameterVariable_accepts on
  | lambdaBody => cases found; exact lambdaBody_accepts on
  | whenEntry => cases found; exact whenEntry_accepts on
  | whenCondition => cases found; exact whenCondition_accepts on
  | lambdaArgument => cases found; exact lambdaArgument_accepts on
  | block => cases found; exact block_accepts on
  | _ => cases found

theorem declarationRule_accepts (on : On (Plan.ofKind kind) is) (whole : elements is = significant o.children)
    (found : declarationRule kind = some rule) : Accepts rule o is fun _ _ => True := by
  cases kind with
  | classDeclaration => cases found; exact classDeclaration_accepts on
  | function => cases found; exact function_accepts on
  | property => cases found; exact property_accepts on whole
  | typeAlias => cases found; exact typeAlias_accepts on
  | classInitializer => cases found; exact classInitializer_accepts on
  | secondaryConstructor => cases found; exact secondaryConstructor_accepts on
  | _ => cases found

theorem typeRule_accepts (on : On (Plan.ofKind kind) is) (found : typeRule kind = some rule) :
    Accepts rule o is fun _ _ => True := by
  cases kind with
  | userType => cases found; exact userType_accepts on
  | nullableType => cases found; exact nullableType_accepts on
  | functionType => cases found; exact functionType_accepts on
  | dynamicType => cases found; exact build_accepts (.free rfl) fun _ => trivial
  | _ => cases found

theorem expressionRule_accepts (on : On (Plan.ofKind kind) is) (whole : elements is = significant o.children)
    (found : expressionRule kind = some rule) : Accepts rule o is fun _ _ => True := by
  cases kind with
  | ifExpression => cases found; exact ifExpression_accepts on
  | tryExpression => cases found; exact tryExpression_accepts on
  | forLoop => cases found; exact forLoop_accepts on
  | whileLoop => cases found; exact whileLoop_accepts on
  | doWhileLoop => cases found; exact doWhileLoop_accepts on
  | binaryExpression => cases found; exact operation_accepts on (.keywordOf (by decide)) (.nextAs rfl) rfl
  | infixExpression => cases found; exact operation_accepts on .name (.nextAs rfl) rfl
  | binaryWithType => cases found; exact operation_accepts on (.keywordOf (by decide)) (.part rfl) rfl
  | prefixExpression => cases found; exact prefixExpression_accepts on
  | postfixExpression => cases found; exact postfixExpression_accepts on
  | callableReferenceExpression => cases found; exact callableReference_accepts on
  | classLiteralExpression => cases found; exact classLiteral_accepts on
  | parenthesized => cases found; exact parenthesized_accepts on
  | stringTemplate => cases found; exact stringTemplate_accepts on
  | lambdaExpression => cases found; exact lambda_accepts on
  | thisExpression => cases found; exact thisExpression_accepts on
  | superExpression => cases found; exact superExpression_accepts on
  | whenExpression => cases found; exact whenExpression_accepts on
  | throwExpression => cases found; exact throwExpression_accepts on
  | returnExpression => cases found; exact returnExpression_accepts on
  | continueExpression => cases found; exact loopJump_accepts on rfl
  | breakExpression => cases found; exact loopJump_accepts on rfl
  | collectionLiteralExpression => cases found; exact collectionLiteral_accepts on
  | labeledExpression => cases found; exact labeledExpression_accepts on
  | annotatedExpression => cases found; exact annotatedExpression_accepts on
  | callExpression => cases found; exact callExpression_accepts on
  | arrayAccessExpression => cases found; exact arrayAccess_accepts on
  | block => cases found; exact block_accepts on
  | function => cases found; exact wrapped_accepts rfl (function_accepts on)
  | classDeclaration => cases found; exact wrapped_accepts rfl (classDeclaration_accepts on)
  | property => cases found; exact wrapped_accepts rfl (property_accepts on whole)
  | _ => cases found

/-! Elements. -/

theorem apply_passes {number : Nat} {children : List RawElement}
    (h : Accepts rule o (parts number children) fun _ _ => True) :
    Passes (apply o (items number children) rule) fun _ => True :=
  Passes.bind h fun _ _ => .pure trivial

/-- A table has a rule for the kind, or no node stands for it. -/
theorem applyFor_passes {rules : RawKind → Option (Reading Node)} {what : String} {number : Nat}
    {children : List RawElement} (known : (rules o.kind).isSome = true ∨ o.kind = .unsupported)
    (accepts : ∀ rule, rules o.kind = some rule → Accepts rule o (parts number children) fun _ _ => True) :
    Passes (applyFor rules what o (items number children)) fun _ => True := by
  unfold applyFor
  split
  · rename_i rule found
    exact apply_passes (accepts rule found)
  · rename_i none
    rw [none] at known
    have refused : o.kind = .unsupported := known.resolve_left nofun
    rw [if_pos (beq_iff_eq.mpr refused)]
    exact .bind (R := fun _ => True) (fun _ => trivial) fun _ _ => .throw (.unsupported ..)

theorem declarationRule_of_isDeclaredStatement (h : isDeclaredStatement o = true) :
    (declarationRule o.kind).isSome = true := by
  unfold isDeclaredStatement at h
  split at h <;> rename_i kind
  · rw [kind]
    rfl
  · rw [kind]
    rfl
  · rw [kind]
    rfl
  · rw [kind]
    rfl
  · cases h

theorem convertNode_passes {goal : Goal} {number : Nat} (reads : goal.reads o.kind = true)
    (on : o.kind ≠ .unsupported → On (Plan.ofKind o.kind) (parts number o.children)) :
    Passes (convertNode o (items number o.children) goal) fun _ => True := by
  have whole := elements_parts number o.children
  -- A kind that no node stands for has no rule in any table.
  have ruled {rules : RawKind → Option (Reading Node)} (none : rules .unsupported = none) {rule : Reading Node}
      (found : rules o.kind = some rule) : On (Plan.ofKind o.kind) (parts number o.children) := by
    refine on fun is => ?_
    rw [is, none] at found
    cases found
  have expressed (known : (expressionRule o.kind).isSome = true ∨ o.kind = .unsupported) :
      Passes (applyFor expressionRule "an expression" o (items number o.children)) fun _ => True :=
    applyFor_passes known fun _ found => expressionRule_accepts (ruled rfl found) whole found
  have declared (known : (declarationRule o.kind).isSome = true) :
      Passes (applyFor declarationRule "a declaration" o (items number o.children)) fun _ => True :=
    applyFor_passes (.inl known) fun _ found => declarationRule_accepts (ruled rfl found) whole found
  cases goal with
  | part => exact applyFor_passes (.inl reads) fun _ found => partRule_accepts (ruled rfl found) found
  | declaration => exact declared reads
  | statement =>
    refine .ite (fun is => declared (declarationRule_of_isDeclaredStatement is)) fun isNot => expressed ?_
    simp only [Goal.reads, Bool.or_eq_true, beq_iff_eq] at reads
    rcases reads with (known | typeAlias) | unsupported
    · exact .inl known
    · exact absurd (by simp [isDeclaredStatement, typeAlias]) isNot
    · exact .inr unsupported
  | expression =>
    simp only [Goal.reads, Bool.or_eq_true, beq_iff_eq] at reads
    exact expressed reads
  | type =>
    simp only [Goal.reads, Bool.or_eq_true, beq_iff_eq] at reads
    exact applyFor_passes reads fun _ found => typeRule_accepts (ruled rfl found) found
  | classParent => exact apply_passes (classParent_accepts (on fun is => by rw [is] at reads; cases reads) reads)
  | stringEntry => exact apply_passes (template_accepts (on fun is => by rw [is] at reads; cases reads) reads)

theorem makeToken_passes {origin : Origin} {t : Token} (legible : t.Legible) :
    Passes (makeToken origin t) fun _ => True := by
  unfold makeToken
  split
  · exact (make_passes (.free rfl)).mono fun _ _ => trivial
  · refine .ite (fun name => ?_) fun _ => .ite (fun _ => (make_passes (.free rfl)).mono fun _ _ => trivial) fun _ =>
      .throw (.word _)
    have filled := legible.name (beq_iff_eq.mp name)
    exact (make_passes fun _ => by simpa [Kind.demands, Kind.overlooked, Node.text, Node.textOf, Node.scalars]
      using filled).mono fun _ _ => trivial

/-- The part of a string that is no template. -/
theorem makeEntry_passes {t : Token} (legible : t.Legible) :
    Passes (make (if t.kind == .escapeSequence then .escapeStringEntry else .literalStringEntry)
      [(.text, .text t.text)] []) fun _ => True := by
  by_cases escape : t.kind = .escapeSequence
  · have begins := legible.escape escape
    rw [if_pos (beq_iff_eq.mpr escape)]
    exact (make_passes fun _ => by simpa [Kind.demands, Kind.overlooked, Node.text, Node.textOf, Node.scalars]
      using begins).mono fun _ _ => trivial
  · rw [if_neg (by simpa using escape)]
    exact (make_passes (.free rfl)).mono fun _ _ => trivial

theorem convertLeaf_passes {goal : Goal} {origin : Origin} {t : Token} (legible : t.Legible)
    (reads : goal.readsToken = true) : Passes (convertLeaf origin t goal) fun _ => True := by
  have token : Passes (convertToken origin t) fun _ => True :=
    .bind (makeToken_passes legible) fun _ _ => emit_passes.mono fun _ _ => trivial
  cases goal with
  | statement => exact token
  | expression => exact token
  | stringEntry => exact .bind (makeEntry_passes legible) fun _ _ => emit_passes.mono fun _ _ => trivial
  | _ => cases reads

/-- The parts of a node that has the parts of its kind. -/
theorem on_parts {number : Nat} {children : List RawElement}
    (follows : Matches (Plan.ofKind kind) (significant children))
    (passes : ∀ e ∈ children, ∀ number (goal : Goal), goal.suits e = true →
      Passes (convert number e goal) fun _ => True) :
    On (Plan.ofKind kind) (parts number children) := by
  have same := elements_parts number children
  refine ⟨by rw [← same] at follows; exact follows, ?_⟩
  intro i member goal suits
  obtain ⟨n, e, inside, rfl⟩ := mem_items (List.mem_filter.mp member).1
  exact passes e inside n goal suits

theorem convert_passes {e : RawElement} (planned : Planned e) (legible : ∀ l ∈ e.leaves, l.token.Legible)
    (number : Nat) (goal : Goal) (suits : goal.suits e = true) : Passes (convert number e goal) fun _ => True := by
  induction planned generalizing number goal with
  | leaf l => exact convertLeaf_passes (legible l (List.mem_singleton_self l)) suits
  | node kind role children follows below ih =>
    refine convertNode_passes (o := ⟨number, kind, role, children⟩) suits fun supported => ?_
    exact on_parts (follows.resolve_left supported) fun e inside =>
      ih e inside fun l member => legible l (mem_leavesAll inside member)

/-- The tree of a source in its form. -/
theorem convertSource_passes {form : Form} {role : Option String} {children : List RawElement}
    (planned : Planned (.node (rootKind form) role children))
    (legible : ∀ l ∈ (RawElement.node (rootKind form) role children).leaves, l.token.Legible) :
    Passes (convertSource form (.node (rootKind form) role children)) fun _ => True := by
  cases planned with
  | node _ _ _ follows below =>
    have supported : rootKind form ≠ .unsupported := by cases form <;> nofun
    have on : On (Plan.ofKind (rootKind form)) (parts 1 children) :=
      on_parts (follows.resolve_left supported) fun e inside =>
        convert_passes (below e inside) fun l member => legible l (mem_leavesAll inside member)
    simp only [convertSource, beq_self_eq_true, if_true]
    cases form with
    | file => exact apply_passes (file_accepts on)
    | script => exact apply_passes (script_accepts on)

end Conversion

end KotlinSyntax
