import KotlinSyntax.Conversion
import KotlinSyntax.Proofs.Conversion.Expression

/-! From raw trees to nodes. Whatever an element is read as, the node that is made of it spells the words of
the element, and no skipped tokens are in it. -/
namespace KotlinSyntax.Conversion

open RawElement

variable {all : List Item} {o : Owner} {kind : RawKind} {rule : Reading Node}

/-! The rules of the kinds. -/

theorem partRule_spells (faithful : ∀ i ∈ all, Faithful i) (fits : Fits kind (elements all))
    (is : partRule kind = some rule) : Spelling rule o all := by
  cases kind with
  | packageDirective => cases is; exact packageDirective_spells faithful
  | importList => cases is; exact importList_spells faithful
  | importDirective => cases is; exact importDirective_spells faithful
  | importAlias => cases is; exact importAlias_spells faithful
  | superTypeList => cases is; exact superTypeList_spells faithful
  | primaryConstructor => cases is; exact primaryConstructor_spells faithful
  | classBody => cases is; exact classBody_spells faithful (fits.2.1 _ rfl) fits.2.2
  | enumEntry => cases is; exact enumEntry_spells faithful
  | valueParameterList =>
    cases is
    exact bracketedList_spells faithful (fits.2.1 _ rfl) (fun _ => rfl) nofun
  | valueParameter => cases is; exact valueParameter_spells faithful
  | propertyDelegate => cases is; exact propertyDelegate_spells faithful
  | propertyGetter => cases is; exact propertyGetter_spells faithful
  | propertySetter => cases is; exact propertySetter_spells faithful
  | destructuringEntry => cases is; exact destructuringEntry_spells faithful
  | delegationCall => cases is; exact delegationCall_spells faithful
  | typeParameterList =>
    cases is
    exact bracketedList_spells faithful (fits.2.1 _ rfl) (fun _ => rfl) nofun
  | typeParameter => cases is; exact typeParameter_spells faithful
  | typeConstraintSet => cases is; exact typeConstraintSet_spells faithful
  | typeConstraintList => cases is; exact typeConstraintList_spells faithful (fits.2.1 _ rfl) fits.2.2
  | typeConstraint => cases is; exact typeConstraint_spells faithful
  | contract => cases is; exact contract_spells faithful
  | contractEffectList =>
    cases is
    exact bracketedList_spells faithful (fits.2.1 _ rfl) (fun _ => rfl) nofun
  | contractEffect => cases is; exact contractEffect_spells faithful
  | typeReference => cases is; exact typeReference_spells faithful
  | userType => cases is; exact userType_spells faithful
  | typeQualifier => cases is; exact typeQualifier_spells faithful
  | functionTypeReceiver => cases is; exact functionTypeReceiver_spells faithful
  | functionTypeParameterList =>
    cases is
    exact bracketedList_spells faithful (fits.2.1 _ rfl) (fun _ => rfl) nofun
  | functionTypeParameter => cases is; exact functionTypeParameter_spells faithful
  | contextReceiverList => cases is; exact contextReceiverList_spells faithful (fits.2.1 _ rfl)
  | contextReceiver => cases is; exact contextReceiver_spells faithful
  | typeArgumentList =>
    cases is
    exact bracketedList_spells faithful (fits.2.1 _ rfl) (fun _ => rfl) nofun
  | typeProjection => cases is; exact typeProjection_spells faithful
  | modifierList => cases is; exact modifierList_spells faithful
  | annotationSet => cases is; exact annotationSet_spells faithful
  | annotationEntry => cases is; exact annotationEntry_spells faithful
  | valueArgumentList =>
    cases is
    exact bracketedList_spells faithful (fits.2.1 _ rfl) (fun _ => rfl) nofun
  | valueArgument => cases is; exact valueArgument_spells faithful
  | catchClause => cases is; exact catchClause_spells faithful
  | lambdaExpression => cases is; exact lambda_spells faithful fits.2.2
  | lambdaParameterList => cases is; exact lambdaParameterList_spells faithful (fits.2.1 _ rfl)
  | lambdaParameter => cases is; exact lambdaParameter_spells faithful (fits.2.1 _ rfl)
  | lambdaParameterVariable => cases is; exact lambdaParameterVariable_spells faithful
  | lambdaBody => cases is; exact lambdaBody_spells faithful
  | whenEntry => cases is; exact whenEntry_spells faithful (fits.2.1 _ rfl)
  | whenCondition => cases is; exact whenCondition_spells faithful
  | lambdaArgument => cases is; exact lambdaArgument_spells faithful
  | block => cases is; exact block_spells faithful
  | _ => cases is

theorem declarationRule_spells (faithful : ∀ i ∈ all, Faithful i) (fits : Fits kind (elements all))
    (is : declarationRule kind = some rule) : Spelling rule o all := by
  cases kind with
  | classDeclaration => cases is; exact classDeclaration_spells faithful
  | function => cases is; exact function_spells faithful
  | property => cases is; exact property_spells faithful (fits.2.1 _ rfl)
  | typeAlias => cases is; exact typeAlias_spells faithful
  | classInitializer => cases is; exact classInitializer_spells faithful
  | secondaryConstructor => cases is; exact secondaryConstructor_spells faithful
  | _ => cases is

theorem typeRule_spells (faithful : ∀ i ∈ all, Faithful i) (fits : Fits kind (elements all))
    (is : typeRule kind = some rule) : Spelling rule o all := by
  cases kind with
  | userType => cases is; exact userType_spells faithful
  | nullableType => cases is; exact nullableType_spells faithful
  | functionType => cases is; exact functionType_spells faithful
  | dynamicType => cases is; exact dynamicType_spells faithful fits.2.2
  | _ => cases is

theorem expressionRule_spells (faithful : ∀ i ∈ all, Faithful i) (fits : Fits kind (elements all))
    (quoted : kind = .stringTemplate → Quoted (elements all)) (is : expressionRule kind = some rule) :
    Spelling rule o all := by
  cases kind with
  | ifExpression => cases is; exact ifExpression_spells faithful
  | tryExpression => cases is; exact tryExpression_spells faithful
  | forLoop => cases is; exact forLoop_spells faithful
  | whileLoop => cases is; exact whileLoop_spells faithful
  | doWhileLoop => cases is; exact doWhileLoop_spells faithful
  | binaryExpression =>
    cases is
    exact operation_spells faithful (fun _ => rfl) (fun _ _ h => h.keywordOf) fun _ _ h => h.addsNext nofun
  | infixExpression =>
    cases is
    exact operation_spells faithful (fun _ => rfl) (fun _ _ h => h.name) fun _ _ h => h.addsNext nofun
  | binaryWithType =>
    cases is
    exact operation_spells faithful (fun _ => rfl) (fun _ _ h => h.keywordOf) fun _ _ h => h.addsPart
  | prefixExpression => cases is; exact prefixExpression_spells faithful
  | postfixExpression => cases is; exact postfixExpression_spells faithful
  | callableReferenceExpression => cases is; exact callableReference_spells faithful
  | classLiteralExpression => cases is; exact classLiteral_spells faithful
  | parenthesized => cases is; exact parenthesized_spells faithful
  | stringTemplate => cases is; exact stringTemplate_spells faithful (quoted rfl) fits.2
  | lambdaExpression => cases is; exact lambda_spells faithful fits.2.2
  | thisExpression => cases is; exact thisExpression_spells faithful
  | superExpression => cases is; exact superExpression_spells faithful
  | whenExpression => cases is; exact whenExpression_spells faithful
  | throwExpression => cases is; exact throwExpression_spells faithful fits.2.2
  | returnExpression => cases is; exact returnExpression_spells faithful fits.2.2
  | continueExpression => cases is; exact loopJump_spells faithful fits.2.2 (fun _ => rfl) nofun
  | breakExpression => cases is; exact loopJump_spells faithful fits.2.2 (fun _ => rfl) nofun
  | collectionLiteralExpression => cases is; exact collectionLiteral_spells faithful fits.2.2
  | labeledExpression => cases is; exact labeledExpression_spells faithful
  | annotatedExpression => cases is; exact annotatedExpression_spells faithful
  | callExpression => cases is; exact callExpression_spells faithful
  | arrayAccessExpression => cases is; exact arrayAccess_spells faithful fits.2.2
  | block => cases is; exact block_spells faithful
  | function => cases is; exact wrapped_spells (function_spells faithful) fun _ => rfl
  | classDeclaration => cases is; exact wrapped_spells (classDeclaration_spells faithful) fun _ => rfl
  | property => cases is; exact wrapped_spells (property_spells faithful (fits.2.1 _ rfl)) fun _ => rfl
  | _ => cases is

/-! Elements. -/

/-- What conversion relies on: every node has its shape, every token its spelling, and quotes match. -/
structure Readable (e : RawElement) : Prop where
  sound : Sound e
  proper : ∀ l ∈ e.leaves, l.token.isProper = true
  nests : ∃ marks marks', Nests marks [e] marks'

theorem Readable.child {role : Option String} {children : List RawElement} {e : RawElement}
    (h : Readable (.node kind role children)) (member : e ∈ children) : Readable e := by
  obtain ⟨marks, marks', nests⟩ := h.nests
  cases h.sound with
  | node _ _ _ fits below =>
    exact ⟨below e member, fun l inside => h.proper l (mem_leavesAll member inside), nests.node.mem member⟩

theorem Readable.quoted {role : Option String} {children : List RawElement}
    (h : Readable (.node .stringTemplate role children)) : Quoted (significant children) := by
  obtain ⟨marks, marks', nests⟩ := h.nests
  cases h.sound with
  | node _ _ _ fits below => exact quoted_of_enclosed fits.1 below h.proper nests.node

theorem elements_items (number : Nat) (es : List RawElement) : elements (items number es) = es := by
  induction es generalizing number with
  | nil => rfl
  | cons e es ih => exact congrArg (e :: ·) (ih (number + e.size))

def parts (number : Nat) (es : List RawElement) : List Item :=
  (items number es).filter (!·.origin.element.isTrivia)

theorem elements_parts (number : Nat) (es : List RawElement) : elements (parts number es) = significant es := by
  have whole := congrArg significant (elements_items number es)
  rw [elements, significant, List.filter_map] at whole
  exact whole

theorem mem_items {number : Nat} {es : List RawElement} {i : Item} (member : i ∈ items number es) :
    ∃ n, ∃ e ∈ es, i = ⟨⟨n, e⟩, convert n e⟩ := by
  induction es generalizing number with
  | nil => cases member
  | cons e es ih =>
    rcases List.mem_cons.mp member with rfl | member
    · exact ⟨number, e, by simp, rfl⟩
    · obtain ⟨n, x, inside, same⟩ := ih member
      exact ⟨n, x, List.mem_cons_of_mem e inside, same⟩

theorem words_leavesAll (es : List RawElement) :
    ((leavesAll es).filter (!·.trivia)).map (·.token.text) = es.flatMap RawElement.words := by
  rw [leavesAll_eq, List.filter_flatMap, List.map_flatMap]
  rfl

theorem words_significant (es : List RawElement) :
    (significant es).flatMap RawElement.words = es.flatMap RawElement.words := by
  induction es with
  | nil => rfl
  | cons e es ih =>
    rw [List.flatMap_cons, ← ih]
    cases trivia : e.isTrivia with
    | false => rw [significant, List.filter_cons_of_pos (by simp [trivia]), List.flatMap_cons, significant]
    | true =>
      have none : e.words = [] := by
        cases e with
        | node => cases trivia
        | leaf l =>
          have blank : l.trivia = true := trivia
          simp [RawElement.words, leaves, blank]
      rw [significant, List.filter_cons_of_neg (by simp [trivia]), none, List.nil_append, significant]

/-- What spells the parts stands for the owner. -/
theorem Spells.standsFor {n : Node} {number : Nat} {role : Option String} {children : List RawElement}
    (h : Spells (parts number children) n) (fine : kind ≠ .errorElement) :
    StandsFor n (.node kind role children) := by
  have same := elements_parts number children
  refine ⟨?_, h.known, .node kind role children fine ?_⟩
  · have accounted : itemWords (parts number children) = (elements (parts number children)).flatMap RawElement.words := by
      rw [elements, List.flatMap_map]
      rfl
    rw [h.words, accounted, same, words_significant, RawElement.words, leaves, words_leavesAll]
  · intro e member
    cases trivia : e.isTrivia with
    | false =>
      have part : e ∈ elements (parts number children) := by
        rw [same]
        exact List.mem_filter.mpr ⟨member, by simp [trivia]⟩
      obtain ⟨i, inside, rfl⟩ := List.mem_map.mp part
      exact h.clean i inside
    | true =>
      cases e with
      | node => cases trivia
      | leaf l => exact .leaf l

theorem apply_makes {number : Nat} {children : List RawElement} (h : Spelling rule o (parts number children)) :
    Makes (apply o (items number children) rule) (Spells (parts number children)) :=
  Makes.bind h fun _ spells => .pure spells

/-- The rules of a table. Skipped tokens have none. -/
theorem applyFor_makes {rules : RawKind → Option (Reading Node)} {what : String}
    (none : rules .errorElement = none)
    (spelling : ∀ rule, rules o.kind = some rule → Spelling rule o (parts (o.number + 1) o.children)) :
    Makes (applyFor rules what o (items (o.number + 1) o.children)) fun n => StandsFor n o.element := by
  unfold applyFor
  split
  · rename_i rule is
    have fine : o.kind ≠ .errorElement := by
      intro error
      rw [error, none] at is
      cases is
    exact (apply_makes (spelling rule is)).mono fun n spells => spells.standsFor fine
  · split
    · exact .bind (R := fun _ => True) (fun _ => trivial) fun _ _ => .throw
    · exact .throw

theorem Reads.any {r : Reading Node} {is : List Item} : Reads r o is fun _ _ => True := by
  intro s
  split <;> trivial

/-- Skipped tokens are no supertype. -/
theorem classParent_fine {is : List Item} : Reads classParent o is fun _ _ => o.kind ≠ .errorElement := by
  refine .bind .any ?_
  intro type is' _
  refine .read ?_
  split
  · rename_i kind
    exact Reads.any.mono fun _ _ _ => by simp [kind]
  · rename_i kind
    exact Reads.any.mono fun _ _ _ => by simp [kind]
  · rename_i kind
    exact Reads.any.mono fun _ _ _ => by simp [kind]
  · exact .mismatch

/-- Reading a node towards a goal, given that its parts are read as what they spell. -/
theorem convertNode_makes (goal : Goal) (readable : Readable o.element)
    (faithful : ∀ i ∈ parts (o.number + 1) o.children, Faithful i)
    (due : goal = .stringEntry → o.kind ≠ .errorElement) :
    Makes (convertNode o (items (o.number + 1) o.children) goal) fun n => StandsFor n o.element := by
  have fits : Fits o.kind (elements (parts (o.number + 1) o.children)) := by
    rw [elements_parts]
    cases readable.sound with
    | node _ _ _ fits below => exact fits
  have quoted : o.kind = .stringTemplate → Quoted (elements (parts (o.number + 1) o.children)) := by
    intro is
    rw [elements_parts]
    rw [Owner.element, is] at readable
    exact readable.quoted
  have declared : Makes (applyFor declarationRule "a declaration" o (items (o.number + 1) o.children))
      fun n => StandsFor n o.element :=
    applyFor_makes rfl fun _ is => declarationRule_spells faithful fits is
  have expressed : Makes (applyFor expressionRule "an expression" o (items (o.number + 1) o.children))
      fun n => StandsFor n o.element :=
    applyFor_makes rfl fun _ is => expressionRule_spells faithful fits quoted is
  cases goal with
  | part => exact applyFor_makes rfl fun _ is => partRule_spells faithful fits is
  | declaration => exact declared
  | statement =>
    simp only [convertNode]
    split
    · exact declared
    · exact expressed
  | expression => exact expressed
  | type => exact applyFor_makes rfl fun _ is => typeRule_spells faithful fits is
  | classParent =>
    refine Makes.bind ((classParent_spells faithful).and classParent_fine) ?_
    exact fun _ both => .pure (both.1.standsFor both.2)
  | stringEntry => exact (apply_makes (template_spells faithful)).mono fun n spells => spells.standsFor (due rfl)

theorem made_standsFor {k : Kind} {scalars : List (Field × Scalar)} {n : Node} {l : Leaf} (plain : l.trivia = false)
    (made : IsMade k scalars [] n) (spelled : Implies k scalars [] [l.token.text]) : StandsFor n (.leaf l) := by
  refine ⟨?_, made.known (by simp), .leaf l⟩
  rw [made.words spelled, RawElement.words, leaves]
  simp [plain]

theorem makeToken_makes {origin : Origin} {l : Leaf} (plain : l.trivia = false) :
    Makes (makeToken origin l.token) fun n => StandsFor n (.leaf l) := by
  unfold makeToken
  split
  · exact make_makes.mono fun n made => made_standsFor plain made fun _ => rfl
  · split
    · exact make_makes.mono fun n made => made_standsFor plain made fun _ => rfl
    · split
      · rename_i this
        simp only [Bool.and_eq_true, beq_iff_eq] at this
        refine make_makes.mono fun n made => made_standsFor plain made fun _ => ?_
        simp [Node.layout, Piece.words, tokenWords, Node.wordsAll, this.2]
      · exact .throw

theorem convertLeaf_makes {origin : Origin} {l : Leaf} (plain : l.trivia = false) (goal : Goal) :
    Makes (convertLeaf origin l.token goal) fun n => StandsFor n (.leaf l) := by
  have made : Makes (convertToken origin l.token) fun n => StandsFor n (.leaf l) :=
    .bind (makeToken_makes plain) fun n stands => emit_makes.mono fun m same => same ▸ stands
  cases goal with
  | statement => exact made
  | expression => exact made
  | stringEntry =>
    refine .bind make_makes ?_
    intro n made
    refine emit_makes.mono ?_
    rintro m rfl
    refine made_standsFor plain made fun _ => ?_
    split <;> rfl
  | _ => exact .throw

theorem parts_faithful {number : Nat} {es : List RawElement}
    (each : ∀ e ∈ es, e.isTrivia = false → ∀ n, Faithful ⟨⟨n, e⟩, convert n e⟩) :
    ∀ i ∈ parts number es, Faithful i := by
  intro i member
  obtain ⟨inside, plain⟩ := List.mem_filter.mp member
  obtain ⟨n, e, belongs, rfl⟩ := mem_items inside
  exact each e belongs (by simpa using plain) n

/-- Whatever an element is read as, the node for it stands for it. -/
theorem convert_faithful {e : RawElement} (readable : Readable e) (part : e.isTrivia = false) (number : Nat) :
    Faithful ⟨⟨number, e⟩, convert number e⟩ := by
  have sound := readable.sound
  -- The parts of a node are read before it, so the induction is over the tree.
  induction sound generalizing number with
  | leaf l _ => exact ⟨part, fun goal _ => convertLeaf_makes part goal, fun _ => convertLeaf_makes part .stringEntry⟩
  | node kind role children fits below ih =>
    have faithful : ∀ i ∈ parts (number + 1) children, Faithful i :=
      parts_faithful fun e inside plain n => ih e inside (readable.child inside) plain n
    let o : Owner := ⟨number, kind, role, children⟩
    refine ⟨rfl, ?_, ?_⟩
    · intro goal other
      exact convertNode_makes (o := o) goal readable faithful fun is => absurd is other
    · intro plain
      have fine : kind ≠ .errorElement := by simpa [isOf] using plain
      exact convertNode_makes (o := o) .stringEntry readable faithful fun _ => fine

/-- The tree for a source stands for it. -/
theorem convertSource_makes (form : Form) {root : RawElement} (readable : Readable root) :
    Makes (convertSource form root) fun n => StandsFor n root := by
  cases root with
  | leaf l => exact .throw
  | node kind role children =>
    simp only [convertSource]
    split
    · rename_i is
      have faithful : ∀ i ∈ parts 1 children, Faithful i :=
        parts_faithful fun e inside plain n => convert_faithful (readable.child inside) plain n
      have fine : kind ≠ .errorElement := by
        rintro rfl
        cases form <;> cases is
      have spelling : Spelling (rootRule form) ⟨0, kind, role, children⟩ (parts 1 children) := by
        cases form with
        | file => exact file_spells faithful
        | script => exact script_spells faithful
      exact (apply_makes spelling).mono fun n spells => spells.standsFor fine
    · exact .throw

end KotlinSyntax.Conversion
