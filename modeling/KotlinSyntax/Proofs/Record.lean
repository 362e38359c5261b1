import KotlinSyntax.Proofs.Conversion
import KotlinSyntax.Proofs.Record.Expression

/-! What a conversion records. The nodes of the tree that it gives were recorded one by one, each after what it
holds, and no other node was. This rests on one thing that a conversion does not check: a list of type constraints
has no field for a comma at its end. -/
namespace KotlinSyntax

open RawElement

/-- No list of type constraints ends in a comma. -/
inductive RawElement.Ended : RawElement → Prop
  | leaf (l : Leaf) : Ended (.leaf l)
  | node (kind : RawKind) (role : Option String) (children : List RawElement)
      (last : kind = .typeConstraintList → ∀ e ∈ (significant children).getLast?, e.spells "," = false)
      (below : ∀ e ∈ children, Ended e) : Ended (.node kind role children)

namespace RawElement

variable {kind : RawKind} {role : Option String} {children : List RawElement}

@[simp] theorem ended_leaf (l : Leaf) : Ended (.leaf l) ↔ True := ⟨fun _ => trivial, fun _ => .leaf l⟩

@[simp] theorem ended_node : Ended (.node kind role children) ↔
    (kind = .typeConstraintList → ∀ e ∈ (significant children).getLast?, e.spells "," = false) ∧
      ∀ e ∈ children, Ended e := by
  constructor
  · intro h
    cases h with
    | node _ _ _ last below => exact ⟨last, below⟩
  · rintro ⟨last, below⟩
    exact .node kind role children last below

end RawElement

theorem Sound.ended {e : RawElement} (h : Sound e) : e.Ended := by
  induction h with
  | leaf l _ => exact .leaf l
  | node kind role children fits _ ih =>
    refine .node kind role children ?_ ih
    rintro rfl
    exact fits.2.2

namespace Conversion

open Node

attribute [local simp] arrange Kind.slots Slot.one Slot.optional Slot.many

variable {kind : RawKind} {rule : Reading Node} {o : Owner} {ns : List Node}

/-! Tables of rules. -/

theorem partRule_gives (other : kind ≠ .typeConstraintList) (is : partRule kind = some rule) : Gives ([·]) rule := by
  cases kind with
  | packageDirective => cases is; exact packageDirective_gives
  | importList => cases is; exact importList_gives
  | importDirective => cases is; exact importDirective_gives
  | importAlias => cases is; exact importAlias_gives
  | superTypeList => cases is; exact superTypeList_gives
  | primaryConstructor => cases is; exact primaryConstructor_gives
  | classBody => cases is; exact classBody_gives
  | enumEntry => cases is; exact enumEntry_gives
  | valueParameterList => cases is; exact list_gives (by simp)
  | valueParameter => cases is; exact valueParameter_gives
  | propertyDelegate => cases is; exact propertyDelegate_gives
  | propertyGetter => cases is; exact propertyGetter_gives
  | propertySetter => cases is; exact propertySetter_gives
  | destructuringEntry => cases is; exact destructuringEntry_gives
  | delegationCall => cases is; exact delegationCall_gives
  | typeParameterList => cases is; exact list_gives (by simp)
  | typeParameter => cases is; exact typeParameter_gives
  | typeConstraintSet => cases is; exact typeConstraintSet_gives
  | typeConstraintList => exact absurd rfl other
  | typeConstraint => cases is; exact typeConstraint_gives
  | contract => cases is; exact contract_gives
  | contractEffectList => cases is; exact list_gives (by simp)
  | contractEffect => cases is; exact contractEffect_gives
  | typeReference => cases is; exact typeReference_gives
  | userType => cases is; exact userType_gives
  | typeQualifier => cases is; exact typeQualifier_gives
  | functionTypeReceiver => cases is; exact functionTypeReceiver_gives
  | functionTypeParameterList => cases is; exact list_gives (by simp)
  | functionTypeParameter => cases is; exact functionTypeParameter_gives
  | contextReceiverList => cases is; exact contextReceiverList_gives
  | contextReceiver => cases is; exact contextReceiver_gives
  | typeArgumentList => cases is; exact list_gives (by simp)
  | typeProjection => cases is; exact typeProjection_gives
  | modifierList => cases is; exact modifierList_gives
  | annotationSet => cases is; exact annotationSet_gives
  | annotationEntry => cases is; exact annotationEntry_gives
  | valueArgumentList => cases is; exact list_gives (by simp)
  | valueArgument => cases is; exact valueArgument_gives
  | catchClause => cases is; exact catchClause_gives
  | lambdaExpression => cases is; exact lambda_gives
  | lambdaParameterList => cases is; exact lambdaParameterList_gives
  | lambdaParameter => cases is; exact lambdaParameter_gives
  | lambdaParameterVariable => cases is; exact lambdaParameterVariable_gives
  | lambdaBody => cases is; exact lambdaBody_gives
  | whenEntry => cases is; exact whenEntry_gives
  | whenCondition => cases is; exact whenCondition_gives
  | lambdaArgument => cases is; exact lambdaArgument_gives
  | block => cases is; exact block_gives
  | _ => cases is

theorem declarationRule_gives (is : declarationRule kind = some rule) : Gives ([·]) rule := by
  cases kind with
  | classDeclaration => cases is; exact classDeclaration_gives
  | function => cases is; exact function_gives
  | property => cases is; exact property_gives
  | typeAlias => cases is; exact typeAlias_gives
  | classInitializer => cases is; exact classInitializer_gives
  | secondaryConstructor => cases is; exact secondaryConstructor_gives
  | _ => cases is

theorem typeRule_gives (is : typeRule kind = some rule) : Gives ([·]) rule := by
  cases kind with
  | userType => cases is; exact userType_gives
  | nullableType => cases is; exact nullableType_gives
  | functionType => cases is; exact functionType_gives
  | dynamicType => cases is; exact fun _ ns _ => .build _ (List.append_nil ns).symm rfl
  | _ => cases is

theorem expressionRule_gives (is : expressionRule kind = some rule) : Gives ([·]) rule := by
  cases kind with
  | ifExpression => cases is; exact ifExpression_gives
  | tryExpression => cases is; exact tryExpression_gives
  | forLoop => cases is; exact forLoop_gives
  | whileLoop => cases is; exact whileLoop_gives
  | doWhileLoop => cases is; exact doWhileLoop_gives
  | binaryExpression => cases is; exact operation_gives keywordOf_gives nextAs_gives (by simp)
  | infixExpression => cases is; exact operation_gives name_gives nextAs_gives (by simp)
  | binaryWithType => cases is; exact operation_gives keywordOf_gives part_gives (by simp)
  | prefixExpression => cases is; exact prefixExpression_gives
  | postfixExpression => cases is; exact postfixExpression_gives
  | callableReferenceExpression => cases is; exact callableReference_gives
  | classLiteralExpression => cases is; exact classLiteral_gives
  | parenthesized => cases is; exact parenthesized_gives
  | stringTemplate => cases is; exact stringTemplate_gives
  | lambdaExpression => cases is; exact lambda_gives
  | thisExpression => cases is; exact thisExpression_gives
  | superExpression => cases is; exact superExpression_gives
  | whenExpression => cases is; exact whenExpression_gives
  | throwExpression => cases is; exact throwExpression_gives
  | returnExpression => cases is; exact returnExpression_gives
  | continueExpression => cases is; exact loopJump_gives (by simp)
  | breakExpression => cases is; exact loopJump_gives (by simp)
  | collectionLiteralExpression => cases is; exact collectionLiteral_gives
  | labeledExpression => cases is; exact labeledExpression_gives
  | annotatedExpression => cases is; exact annotatedExpression_gives
  | callExpression => cases is; exact callExpression_gives
  | arrayAccessExpression => cases is; exact arrayAccess_gives
  | block => cases is; exact block_gives
  | function => cases is; exact wrapped_gives function_gives (by simp)
  | classDeclaration => cases is; exact wrapped_gives classDeclaration_gives (by simp)
  | property => cases is; exact wrapped_gives property_gives (by simp)
  | _ => cases is

theorem rootRule_gives (form : Form) : Gives ([·]) (rootRule form) := by
  cases form with
  | file => exact file_gives
  | script => exact script_gives

/-! Elements. -/

namespace Recording

theorem throw {e : ConversionError} : Recording (throw e) := fun _ => trivial

theorem make {k : Kind} {scalars : List (Field × Scalar)} {origin : Option Origin} :
    Recording (make k scalars [] >>= emit origin) := by
  intro s
  rw [make_emit_run]
  cases built : Node.make s.nextId k scalars [] with
  | error e => trivial
  | ok n =>
    obtain ⟨rfl, -⟩ := make_ok built
    have nothing : Records s s ([] ++ ([] : List (Field × Node)).map (·.2)) := .refl s
    exact nothing.made (by simp [arrange]) rfl rfl

theorem apply {number : Nat} {children : List RawElement} (recorded : ∀ i ∈ parts number children, i.Recorded)
    (h : Tells rule o [] (parts number children) fun n ns' _ => ns' = [n]) :
    Recording (apply o (items number children) rule) := by
  intro s
  have holds := h recorded s s (.refl s)
  have run : Conversion.apply o (items number children) rule s =
      EStateM.bind (rule o (parts number children)) (fun answer => EStateM.pure answer.1) s := rfl
  rw [run, EStateM.bind]
  revert holds
  cases rule o (parts number children) s with
  | error e s' => exact id
  | ok answer s' =>
    rintro ⟨_, _, records, rfl⟩
    exact records

theorem applyFor {rules : RawKind → Option (Reading Node)} {what : String}
    (recorded : ∀ i ∈ parts (o.number + 1) o.children, i.Recorded)
    (h : ∀ rule, rules o.kind = some rule →
      Tells rule o [] (parts (o.number + 1) o.children) fun n ns' _ => ns' = [n]) :
    Recording (applyFor rules what o (items (o.number + 1) o.children)) := by
  unfold Conversion.applyFor
  split
  · rename_i rule is
    exact apply recorded (h rule is)
  · split
    · exact fun _ => trivial
    · exact throw

end Recording

/-- A node over recorded parts. -/
theorem convertNode_recording (recorded : ∀ i ∈ parts (o.number + 1) o.children, i.Recorded)
    (last : o.kind = .typeConstraintList → ∀ e ∈ (significant o.children).getLast?, e.spells "," = false)
    (goal : Goal) : Recording (convertNode o (items (o.number + 1) o.children) goal) := by
  have declared : Recording (applyFor declarationRule "a declaration" o (items (o.number + 1) o.children)) :=
    .applyFor recorded fun _ is => declarationRule_gives is o [] _
  have expressed : Recording (applyFor expressionRule "an expression" o (items (o.number + 1) o.children)) :=
    .applyFor recorded fun _ is => expressionRule_gives is o [] _
  cases goal with
  | part =>
    refine .applyFor recorded fun rule is => ?_
    by_cases constraints : o.kind = .typeConstraintList
    · rw [constraints] at is
      cases is
      refine typeConstraintList_tells fun i inside => last constraints _ ?_
      rw [← elements_parts, elements, List.getLast?_map]
      exact Option.mem_map_of_mem _ inside
    · exact partRule_gives constraints is o [] _
  | declaration => exact declared
  | statement =>
    simp only [convertNode]
    split
    · exact declared
    · exact expressed
  | expression => exact expressed
  | type => exact .applyFor recorded fun _ is => typeRule_gives is o [] _
  | classParent => exact .apply recorded (classParent_gives o [] _)
  | stringEntry => exact .apply recorded (template_gives o [] _)

theorem convertLeaf_recording (origin : Origin) (t : Token) (goal : Goal) : Recording (convertLeaf origin t goal) := by
  have token : Recording (convertToken origin t) := by
    unfold convertToken makeToken
    split
    · exact .make
    · split
      · exact .make
      · split
        · exact .make
        · exact fun _ => trivial
  cases goal with
  | statement => exact token
  | expression => exact token
  | stringEntry => exact .make
  | _ => exact .throw

theorem parts_recorded {number : Nat} {es : List RawElement}
    (each : ∀ e ∈ es, ∀ n, Item.Recorded ⟨⟨n, e⟩, convert n e⟩) : ∀ i ∈ parts number es, i.Recorded := by
  intro i member
  obtain ⟨n, e, inside, rfl⟩ := mem_items (List.mem_filter.mp member).1
  exact each e inside n

theorem convert_recorded {e : RawElement} (ended : e.Ended) (number : Nat) :
    Item.Recorded ⟨⟨number, e⟩, convert number e⟩ := by
  -- The parts of a node are converted before it, so the induction is over the tree.
  induction ended generalizing number with
  | leaf l => exact convertLeaf_recording ⟨number, .leaf l⟩ l.token
  | node kind role children last _ ih =>
    exact convertNode_recording (o := ⟨number, kind, role, children⟩) (parts_recorded ih) last

theorem convertSource_recording (form : Form) {root : RawElement} (ended : root.Ended) :
    Recording (convertSource form root) := by
  cases ended with
  | leaf l => exact .throw
  | node kind role children last below =>
    simp only [convertSource]
    split
    · exact .apply (parts_recorded fun e inside n => convert_recorded (below e inside) n)
        (rootRule_gives form ⟨0, kind, role, children⟩ [] _)
    · exact .throw

/-- Where no list of type constraints ends in a comma, what a conversion records is the tree that it gives: every
node once, after the nodes that it holds in the order of its fields, and the root last. -/
theorem recorded_in_postorder (form : Form) (root : RawElement) (ended : root.Ended) (s s' : State) (n : Node)
    (ran : convertSource form root s = .ok n s') :
    n.Arranged ∧ (n.postorder.map (·.id)).Nodup ∧
      ∃ told : List Event, s'.events = told.reverse ++ s.events ∧ told.map (·.node) = n.postorder := by
  have records := convertSource_recording form ended s
  simp only [ran] at records
  have whole : listing [n] = n.postorder := by simp [listing]
  refine ⟨records.arranged n (List.mem_singleton_self n), ?_, ?_⟩
  · rw [← whole, records.ids]
    exact List.nodup_range'
  · rw [← whole]
    exact records.told

def constrained (tail : List RawElement) : RawElement :=
  .node .file none [.node .function none [
    .leaf ⟨⟨.keyword, 0, 3, "fun"⟩, false⟩, .leaf ⟨⟨.whitespace, 3, 4, " "⟩, true⟩,
    .leaf ⟨⟨.identifier, 4, 5, "f"⟩, false⟩,
    .node .valueParameterList none [
      .leaf ⟨⟨.operator, 5, 6, "("⟩, false⟩, .leaf ⟨⟨.operator, 6, 7, ")"⟩, false⟩],
    .leaf ⟨⟨.whitespace, 7, 8, " "⟩, true⟩,
    .node .typeConstraintSet none [
      .leaf ⟨⟨.identifier, 8, 13, "where"⟩, false⟩, .leaf ⟨⟨.whitespace, 13, 14, " "⟩, true⟩,
      .node .typeConstraintList none (
        .node .typeConstraint none [
          .leaf ⟨⟨.identifier, 14, 15, "T"⟩, false⟩, .leaf ⟨⟨.whitespace, 15, 16, " "⟩, true⟩,
          .leaf ⟨⟨.operator, 16, 17, ":"⟩, false⟩, .leaf ⟨⟨.whitespace, 17, 18, " "⟩, true⟩,
          .node .typeReference none [.node .userType none [.leaf ⟨⟨.identifier, 18, 19, "A"⟩, false⟩]]] ::
        tail)]]]

def surplus? (form : Form) (root : RawElement) : Option Nat :=
  match convertSource form root {} with
  | .ok n s' => some (s'.events.length - n.postorder.length)
  | .error _ _ => none

theorem surplus?_eq_some {form : Form} {root : RawElement} {count : Nat} (h : surplus? form root = some count) :
    ∃ n s', convertSource form root {} = .ok n s' ∧ s'.events.length - n.postorder.length = count := by
  unfold surplus? at h
  split at h
  · rename_i n s' ran
    exact ⟨n, s', ran, Option.some.inj h⟩
  · cases h

/-- The nodes of the function were recorded as its tree lists them. -/
theorem constrained_recorded_in_postorder : (constrained []).Ended ∧ ∃ n s',
    convertSource .file (constrained []) {} = .ok n s' ∧ n.Arranged ∧ (n.postorder.map (·.id)).Nodup ∧
      s'.events.reverse.map (·.node) = n.postorder := by
  have ended : (constrained []).Ended := by
    simp [constrained, significant, RawElement.isTrivia, spells]
  obtain ⟨n, s', ran, -⟩ := surplus?_eq_some (by decide +kernel : surplus? .file (constrained []) = some 0)
  obtain ⟨arranged, once, told, events, nodes⟩ := recorded_in_postorder .file _ ended {} s' n ran
  refine ⟨ended, n, s', ran, arranged, once, ?_⟩
  rw [events, List.append_nil, List.reverse_reverse, nodes]

/-- A comma at the end of type constraints is recorded, but stands in no field of the tree. -/
theorem comma_recorded_outside_tree : ¬ ∀ (form : Form) (root : RawElement) (s s' : State) (n : Node),
    convertSource form root s = .ok n s' →
      ∃ told : List Event, s'.events = told.reverse ++ s.events ∧ told.map (·.node) = n.postorder := by
  intro listed
  have surplus : surplus? .file (constrained
      [.leaf ⟨⟨.operator, 19, 20, ","⟩, false⟩, .leaf ⟨⟨.blockComment, 20, 25, "/*c*/"⟩, true⟩]) = some 1 := by
    decide +kernel
  obtain ⟨n, s', ran, more⟩ := surplus?_eq_some surplus
  obtain ⟨told, events, nodes⟩ := listed .file _ {} s' n ran
  have same : s'.events.length = n.postorder.length := by
    rw [events, ← nodes]
    simp
  omega

end Conversion

end KotlinSyntax
