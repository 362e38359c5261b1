import KotlinSyntax.Conversion.Expression
import KotlinSyntax.Form

/-! From raw trees to nodes. Each kind of raw node has its rule; which rule applies to a part depends on
what its parent reads it as. -/
namespace KotlinSyntax.Conversion

/-- The rule for a part that is read as what its kind says. -/
def partRule : RawKind → Option (Reading Node)
  | .packageDirective => packageDirective
  | .importList => importList
  | .importDirective => importDirective
  | .importAlias => importAlias
  | .superTypeList => superTypeList
  | .primaryConstructor => primaryConstructor
  | .classBody => classBody
  | .enumEntry => enumEntry
  | .valueParameterList => list .functionParams "(" ")" .valueParameter
  | .valueParameter => valueParameter
  | .propertyDelegate => propertyDelegate
  | .propertyGetter => propertyGetter
  | .propertySetter => propertySetter
  | .destructuringEntry => destructuringEntry
  | .delegationCall => delegationCall
  | .typeParameterList => list .typeParams "<" ">" .typeParameter
  | .typeParameter => typeParameter
  | .typeConstraintSet => typeConstraintSet
  | .typeConstraintList => typeConstraintList
  | .typeConstraint => typeConstraint
  | .contract => contract
  | .contractEffectList => list .contractEffects "[" "]" .contractEffect
  | .contractEffect => contractEffect
  | .typeReference => typeReference
  | .userType => userType
  | .typeQualifier => typeQualifier
  | .functionTypeReceiver => functionTypeReceiver
  | .functionTypeParameterList => list .functionTypeParams "(" ")" .functionTypeParameter
  | .functionTypeParameter => functionTypeParameter
  | .contextReceiverList => contextReceiverList
  | .contextReceiver => contextReceiver
  | .typeArgumentList => list .typeArgs "<" ">" .typeProjection
  | .typeProjection => typeProjection
  | .modifierList => modifierList
  | .annotationSet => annotationSet
  | .annotationEntry => annotationEntry
  | .valueArgumentList => list .valueArgs "(" ")" .valueArgument
  | .valueArgument => valueArgument
  | .catchClause => catchClause
  | .lambdaExpression => lambda
  | .lambdaParameterList => lambdaParameterList
  | .lambdaParameter => lambdaParameter
  | .lambdaParameterVariable => lambdaParameterVariable
  | .lambdaBody => lambdaBody
  | .whenEntry => whenEntry
  | .whenCondition => whenCondition
  | .lambdaArgument => lambdaArgument
  | .block => block
  | _ => none

def declarationRule : RawKind → Option (Reading Node)
  | .classDeclaration => classDeclaration
  | .function => function
  | .property => property
  | .typeAlias => typeAlias
  | .classInitializer => classInitializer
  | .secondaryConstructor => secondaryConstructor
  | _ => none

def typeRule : RawKind → Option (Reading Node)
  | .userType => userType
  | .nullableType => nullableType
  | .functionType => functionType
  | .dynamicType => some (build .dynamicType [] [])
  | _ => none

def expressionRule : RawKind → Option (Reading Node)
  | .ifExpression => ifExpression
  | .tryExpression => tryExpression
  | .forLoop => forLoop
  | .whileLoop => whileLoop
  | .doWhileLoop => doWhileLoop
  | .binaryExpression =>
    operation .binaryExpression (keywordOf Keyword.binaryOperators) (nextAs .expression)
  | .infixExpression => operation .binaryInfixExpression name (nextAs .expression)
  | .binaryWithType =>
    operation .binaryTypeExpression (keywordOf Keyword.typeOperators) (part .typeReference)
  | .prefixExpression => prefixExpression
  | .postfixExpression => postfixExpression
  | .callableReferenceExpression => callableReference
  | .classLiteralExpression => classLiteral
  | .parenthesized => parenthesized
  | .stringTemplate => stringTemplate
  | .lambdaExpression => lambda
  | .thisExpression => thisExpression
  | .superExpression => superExpression
  | .whenExpression => whenExpression
  | .throwExpression => throwExpression
  | .returnExpression => returnExpression
  | .continueExpression => loopJump .continueExpression
  | .breakExpression => loopJump .breakExpression
  | .collectionLiteralExpression => collectionLiteral
  | .labeledExpression => labeledExpression
  | .annotatedExpression => annotatedExpression
  | .callExpression => callExpression
  | .arrayAccessExpression => arrayAccess
  | .block => block
  | .function => wrapped .anonymousFunctionExpression .function function
  | .classDeclaration => wrapped .objectLiteralExpression .declaration classDeclaration
  | .property => wrapped .propertyExpression .declaration property
  | _ => none

/-- An object without a name, which stands for a value. -/
def isObjectLiteral (children : List RawElement) : Bool :=
  match RawElement.significant children with
  | .leaf first :: .leaf second :: _ =>
    first.token.text == "object" && second.token.kind != .identifier
  | .leaf first :: _ => first.token.text == "object"
  | _ => false

/-- A function without a name, which stands for a value. -/
def isAnonymousFunction (children : List RawElement) : Bool :=
  match RawElement.significant children with
  | .leaf first :: .node .valueParameterList _ _ :: _ => first.token.text == "fun"
  | _ => false

/-- Which declarations stand among statements as themselves. -/
def isDeclaredStatement (o : Owner) : Bool :=
  match o.kind with
  | .classDeclaration => !isObjectLiteral o.children
  | .function => !isAnonymousFunction o.children
  | .property | .typeAlias => true
  | _ => false

/-- Applies a rule to the parts of the owner. -/
def apply (o : Owner) (items : List Item) (rule : Reading Node) : Convert Node :=
  (rule o).run' (items.filter (!·.origin.element.isTrivia))

/-- Refuses a construct that no node stands for. -/
def refuse (o : Owner) : Convert Node := do
  let construct := o.role.getD o.kind.name
  note ("unsupported construct \"" ++ construct ++ "\" at offset " ++ Number.decimal o.offset)
  unsupported construct o.offset

/-- Applies the rule of the owner's kind. -/
def applyFor (rules : RawKind → Option (Reading Node)) (what : String) (o : Owner)
    (items : List Item) : Convert Node :=
  match rules o.kind with
  | some rule => apply o items rule
  | none =>
    if o.kind == .unsupported then refuse o else throw (.unexpected what (describe o.element))

def convertNode (o : Owner) (items : List Item) : Goal → Convert Node
  | .part => applyFor partRule "a part" o items
  | .declaration => applyFor declarationRule "a declaration" o items
  | .statement =>
    if isDeclaredStatement o then applyFor declarationRule "a declaration" o items
    else applyFor expressionRule "an expression" o items
  | .expression => applyFor expressionRule "an expression" o items
  | .type => applyFor typeRule "a type" o items
  | .classParent => apply o items classParent
  | .stringEntry => apply o items template

/-- The form of a constant, if the token is one. -/
def constantForm? (t : Token) : Option String :=
  match t.kind with
  | .integerLiteral => some "int"
  | .floatLiteral => some "float"
  | .charLiteral => some "char"
  | .keyword =>
    match t.text with
    | "true" | "false" => some "boolean"
    | "null" => some "null"
    | _ => none
  | _ => none

/-- The node for a token that stands for a value. -/
def makeToken (origin : Origin) (t : Token) : Convert Node :=
  match constantForm? t with
  | some form => make .constantLiteralExpression [(.text, .text t.text), (.form, .text form)] []
  | none =>
    if t.kind == .identifier then make .nameExpression [(.text, .text t.text)] []
    else if t.kind == .keyword && t.text == "this" then make .thisExpression [] []
    else throw (.unexpected "an expression" (describe origin.element))

def convertToken (origin : Origin) (t : Token) : Convert Node := do
  emit origin (← makeToken origin t)

def convertLeaf (origin : Origin) (t : Token) : Goal → Convert Node
  | .part => throw (.unexpected "a part" (describe origin.element))
  | .declaration => throw (.unexpected "a declaration" (describe origin.element))
  | .statement | .expression => convertToken origin t
  | .type => throw (.unexpected "a type" (describe origin.element))
  | .classParent => throw (.unexpected "a supertype" (describe origin.element))
  | .stringEntry => do
    let k := if t.kind == .escapeSequence then .escapeStringEntry else .literalStringEntry
    let n ← make k [(.text, .text t.text)] []
    emit origin n

mutual

/-- Reads an element, which has the given place in pre-order. -/
def convert (number : Nat) : RawElement → Goal → Convert Node
  | .leaf l => convertLeaf ⟨number, .leaf l⟩ l.token
  | .node kind role children =>
    convertNode ⟨number, kind, role, children⟩ (items (number + 1) children)

def items (number : Nat) : List RawElement → List Item
  | [] => []
  | e :: es => ⟨⟨number, e⟩, convert number e⟩ :: items (number + e.size) es

end

/-- The kind of raw tree that a form of source has. -/
def rootKind : Form → RawKind
  | .file => .file
  | .script => .script

def rootRule : Form → Reading Node
  | .file => file
  | .script => script

/-- Turns the raw tree of a source into nodes. -/
def convertSource (form : Form) : RawElement → Convert Node
  | .node kind role children =>
    let o : Owner := ⟨0, kind, role, children⟩
    if kind == rootKind form then apply o (items 1 children) (rootRule form)
    else throw (.wrongForm (rootKind form) o.offset kind)
  | .leaf l => throw (.unexpected "a source" (describe (.leaf l)))

end KotlinSyntax.Conversion
