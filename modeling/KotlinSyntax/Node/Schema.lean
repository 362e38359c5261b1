import KotlinSyntax.Node.Category

/-! What each kind holds: the fields for child nodes in source order, how many nodes a field takes and
which, and the fields for the node's own text and flags. -/
namespace KotlinSyntax

/-- How many nodes a field holds. -/
inductive Arity
  | one | optional | many
  deriving DecidableEq, Repr

/-- A field for child nodes. -/
structure Slot where
  field : Field
  arity : Arity
  takes : Category
  deriving DecidableEq, Repr

namespace Slot

def one (field : Field) (takes : Category) : Slot := ⟨field, .one, takes⟩

def optional (field : Field) (takes : Category) : Slot := ⟨field, .optional, takes⟩

def many (field : Field) (takes : Category) : Slot := ⟨field, .many, takes⟩

end Slot

namespace Kind

/-- The fields for child nodes, in the order in which their nodes stand in the source. -/
def slots : Kind → List Slot
  | kotlinFile => [
    .many .annotationSets (.only .annotationSet),
    .optional .packageDirective (.only .packageDirective),
    .optional .importDirectives (.only .importDirectives), .many .declarations .declaration]
  | kotlinScript => [
    .many .annotationSets (.only .annotationSet),
    .optional .packageDirective (.only .packageDirective),
    .optional .importDirectives (.only .importDirectives), .many .statements .statement]
  | packageDirective => [
    .optional .modifiers (.only .modifiers), .one .packageKeyword (.keyword ["package"]),
    .many .names (.only .nameExpression)]
  | importDirectives => [.many .elements (.only .importDirective)]
  | importDirective => [
    .one .importKeyword (.keyword ["import"]), .many .names (.only .nameExpression),
    .optional .importAlias (.only .importAlias)]
  | importAlias => [.one .name (.only .nameExpression)]
  | classDeclaration => [
    .optional .modifiers (.only .modifiers),
    .one .classDeclarationKeyword (.keyword Keyword.classKinds),
    .optional .name (.only .nameExpression), .optional .typeParams (.only .typeParams),
    .optional .primaryConstructor (.only .primaryConstructor),
    .optional .classParents (.only .classParents),
    .optional .typeConstraintSet (.only .typeConstraintSet), .optional .classBody (.only .classBody)]
  | classParents => [.many .elements .classParent]
  | callConstructorParent => [.one .type (.only .simpleType), .one .args (.only .valueArgs)]
  | delegatedTypeParent => [
    .one .type (.only .simpleType), .one .byKeyword (.keyword ["by"]), .one .expression .expression]
  | typeParent => [.one .type (.only .simpleType)]
  | primaryConstructor => [
    .optional .modifiers (.only .modifiers),
    .optional .constructorKeyword (.keyword ["constructor"]), .one .params (.only .functionParams)]
  | classBody => [.many .enumEntries (.only .enumEntry), .many .declarations .declaration]
  | enumEntry => [
    .optional .modifiers (.only .modifiers), .one .name (.only .nameExpression),
    .optional .args (.only .valueArgs), .optional .classBody (.only .classBody)]
  | initDeclaration => [
    .optional .modifiers (.only .modifiers), .one .block (.only .blockExpression)]
  | functionDeclaration => [
    .optional .modifiers (.only .modifiers), .one .funKeyword (.keyword ["fun"]),
    .optional .typeParams (.only .typeParams), .optional .receiverTypeRef (.only .typeRef),
    .optional .name (.only .nameExpression), .optional .params (.only .functionParams),
    .optional .typeRef (.only .typeRef), .many .postModifiers .postModifier,
    .optional .equals (.keyword ["="]), .optional .body .expression]
  | functionParams => [
    .many .elements (.only .functionParam), .optional .trailingComma (.keyword [","])]
  | functionParam => [
    .optional .modifiers (.only .modifiers), .optional .valOrVarKeyword (.keyword Keyword.valOrVar),
    .one .name (.only .nameExpression), .optional .typeRef (.only .typeRef),
    .optional .equals (.keyword ["="]), .optional .defaultValue .expression]
  | propertyDeclaration => [
    .optional .modifiers (.only .modifiers), .one .valOrVarKeyword (.keyword Keyword.valOrVar),
    .optional .typeParams (.only .typeParams), .optional .receiverTypeRef (.only .typeRef),
    .optional .lPar (.keyword ["("]), .many .bindings (.only .declaredVariable),
    .optional .trailingComma (.keyword [","]), .optional .rPar (.keyword [")"]),
    .optional .typeConstraintSet (.only .typeConstraintSet), .optional .equals (.keyword ["="]),
    .optional .initializer .expression, .optional .propertyDelegate (.only .propertyDelegate),
    .many .accessors .accessor]
  | propertyDelegate => [.one .byKeyword (.keyword ["by"]), .one .expression .expression]
  | getter => [
    .optional .modifiers (.only .modifiers), .one .getKeyword (.keyword ["get"]),
    .optional .lPar (.keyword ["("]), .optional .rPar (.keyword [")"]),
    .optional .typeRef (.only .typeRef), .optional .equals (.keyword ["="]),
    .optional .body .expression]
  | setter => [
    .optional .modifiers (.only .modifiers), .one .setKeyword (.keyword ["set"]),
    .optional .params (.only .functionParams), .optional .equals (.keyword ["="]),
    .optional .body .expression]
  | declaredVariable => [.one .name (.only .nameExpression), .optional .typeRef (.only .typeRef)]
  | typeAliasDeclaration => [
    .optional .modifiers (.only .modifiers), .one .name (.only .nameExpression),
    .optional .typeParams (.only .typeParams), .one .typeRef (.only .typeRef)]
  | secondaryConstructorDeclaration => [
    .optional .modifiers (.only .modifiers), .one .constructorKeyword (.keyword ["constructor"]),
    .one .params (.only .functionParams), .optional .delegationCall (.only .delegationCall),
    .optional .block (.only .blockExpression)]
  | delegationCall => [
    .one .target (.keyword Keyword.delegationTargets), .one .args (.only .valueArgs)]
  | typeParams => [.many .elements (.only .typeParam), .optional .trailingComma (.keyword [","])]
  | typeParam => [
    .optional .modifiers (.only .modifiers), .one .name (.only .nameExpression),
    .optional .typeRef (.only .typeRef)]
  | functionType => [
    .optional .contextReceivers (.only .contextReceivers),
    .optional .functionTypeReceiver (.only .functionTypeReceiver),
    .one .params (.only .functionTypeParams), .one .returnTypeRef (.only .typeRef)]
  | contextReceivers => [
    .many .elements (.only .contextReceiver), .optional .trailingComma (.keyword [","])]
  | contextReceiver => [.one .typeRef (.only .typeRef)]
  | functionTypeReceiver => [.one .typeRef (.only .typeRef)]
  | functionTypeParams => [
    .many .elements (.only .functionTypeParam), .optional .trailingComma (.keyword [","])]
  | functionTypeParam => [.optional .name (.only .nameExpression), .one .typeRef (.only .typeRef)]
  | simpleType => [
    .many .qualifiers (.only .simpleTypeQualifier), .one .name (.only .nameExpression),
    .optional .typeArgs (.only .typeArgs)]
  | simpleTypeQualifier => [
    .one .name (.only .nameExpression), .optional .typeArgs (.only .typeArgs)]
  | nullableType => [
    .optional .lPar (.keyword ["("]), .optional .modifiers (.only .modifiers), .one .type .type,
    .optional .rPar (.keyword [")"])]
  | typeArgs => [.many .elements (.only .typeArg), .optional .trailingComma (.keyword [","])]
  | typeArg => [.optional .modifiers (.only .modifiers), .optional .typeRef (.only .typeRef)]
  | typeRef => [
    .optional .lPar (.keyword ["("]), .optional .modifiers (.only .modifiers), .one .type .type,
    .optional .rPar (.keyword [")"])]
  | valueArgs => [.many .elements (.only .valueArg), .optional .trailingComma (.keyword [","])]
  | valueArg => [.optional .name (.only .nameExpression), .one .expression .expression]
  | expressionContainer => [.one .expression .expression]
  | ifExpression => [
    .one .ifKeyword (.keyword ["if"]), .one .condition .expression,
    .one .body (.only .expressionContainer), .optional .elseBody (.only .expressionContainer)]
  | tryExpression => [
    .one .block (.only .blockExpression), .many .catchClauses (.only .catchClause),
    .optional .finallyBlock (.only .blockExpression)]
  | catchClause => [
    .one .catchKeyword (.keyword ["catch"]), .one .params (.only .functionParams),
    .one .block (.only .blockExpression)]
  | forExpression => [
    .one .forKeyword (.keyword ["for"]), .one .loopParam (.only .lambdaParam),
    .one .loopRange (.only .expressionContainer), .one .body (.only .expressionContainer)]
  | whileExpression => [
    .one .whileKeyword (.keyword ["while"]), .one .condition (.only .expressionContainer),
    .one .body (.only .expressionContainer)]
  | doWhileExpression => [
    .one .body (.only .expressionContainer), .one .whileKeyword (.keyword ["while"]),
    .one .condition (.only .expressionContainer)]
  | binaryExpression => [
    .one .lhs .expression, .one .operator (.keyword Keyword.binaryOperators), .one .rhs .expression]
  | binaryInfixExpression => [
    .one .lhs .expression, .one .operator (.only .nameExpression), .one .rhs .expression]
  | prefixUnaryExpression => [
    .one .operator (.keyword Keyword.prefixOperators), .one .expression .expression]
  | postfixUnaryExpression => [
    .one .expression .expression, .one .operator (.keyword Keyword.postfixOperators)]
  | binaryTypeExpression => [
    .one .lhs .expression, .one .operator (.keyword Keyword.typeOperators),
    .one .rhs (.only .typeRef)]
  | callableReferenceExpression => [
    .optional .lhs .doubleColonReceiver, .one .rhs (.only .nameExpression)]
  | classLiteralExpression => [.optional .lhs .doubleColonReceiver]
  | expressionReceiver => [.one .expression .expression]
  | typeReceiver => [.one .type (.only .simpleType)]
  | parenthesizedExpression => [.one .expression .expression]
  | stringLiteralExpression => [.many .entries .stringEntry]
  | templateStringEntry => [.one .expression .expression]
  | lambdaExpression => [
    .optional .params (.only .lambdaParams), .optional .lambdaBody (.only .lambdaBody)]
  | lambdaParams => [
    .many .elements (.only .lambdaParam), .optional .trailingComma (.keyword [","])]
  | lambdaParam => [
    .optional .lPar (.keyword ["("]), .many .bindings (.only .lambdaParamVariable),
    .optional .trailingComma (.keyword [","]), .optional .rPar (.keyword [")"]),
    .optional .colon (.keyword [":"]), .optional .destructTypeRef (.only .typeRef)]
  | lambdaParamVariable => [
    .optional .modifiers (.only .modifiers), .one .name (.only .nameExpression),
    .optional .typeRef (.only .typeRef)]
  | lambdaBody => [.many .statements .statement]
  | thisExpression => [.optional .label (.only .nameExpression)]
  | superExpression => [
    .optional .typeArgTypeRef (.only .typeRef), .optional .label (.only .nameExpression)]
  | whenExpression => [
    .one .whenKeyword (.keyword ["when"]), .optional .lPar (.keyword ["("]),
    .optional .expression .expression, .optional .rPar (.keyword [")"]),
    .many .whenBranches (.only .whenBranch)]
  | whenBranch => [
    .many .whenConditions (.only .whenCondition), .optional .trailingComma (.keyword [","]),
    .optional .elseKeyword (.keyword ["else"]), .one .body .expression]
  | whenCondition => [
    .optional .operator (.keyword Keyword.conditionOperators), .optional .expression .expression,
    .optional .typeRef (.only .typeRef)]
  | objectLiteralExpression => [.one .declaration (.only .classDeclaration)]
  | throwExpression => [.one .expression .expression]
  | returnExpression => [
    .optional .label (.only .nameExpression), .optional .expression .expression]
  | continueExpression => [.optional .label (.only .nameExpression)]
  | breakExpression => [.optional .label (.only .nameExpression)]
  | collectionLiteralExpression => [
    .many .expressions .expression, .optional .trailingComma (.keyword [","])]
  | labeledExpression => [.one .label (.only .nameExpression), .one .expression .expression]
  | annotatedExpression => [
    .many .annotationSets (.only .annotationSet), .one .expression .expression]
  | callExpression => [
    .one .expression .expression, .optional .typeArgs (.only .typeArgs),
    .optional .args (.only .valueArgs), .optional .lambdaArg (.only .lambdaArg)]
  | lambdaArg => [
    .many .annotationSets (.only .annotationSet), .optional .label (.only .nameExpression),
    .one .expression (.only .lambdaExpression)]
  | arrayAccessExpression => [
    .one .expression .expression, .many .indices .expression,
    .optional .trailingComma (.keyword [","])]
  | anonymousFunctionExpression => [.one .function (.only .functionDeclaration)]
  | propertyExpression => [.one .declaration (.only .propertyDeclaration)]
  | blockExpression => [.many .statements .statement]
  | modifiers => [.many .elements .modifier]
  | annotationSet => [
    .one .atSymbol (.keyword ["@"]), .optional .target (.keyword Keyword.annotationTargets),
    .optional .colon (.keyword [":"]), .optional .lBracket (.keyword ["["]),
    .many .annotations (.only .annotationEntry), .optional .rBracket (.keyword ["]"])]
  | annotationEntry => [.one .type (.only .simpleType), .optional .args (.only .valueArgs)]
  | typeConstraintSet => [
    .one .whereKeyword (.keyword ["where"]), .one .constraints (.only .typeConstraints)]
  | typeConstraints => [.many .elements (.only .typeConstraint)]
  | typeConstraint => [
    .many .annotationSets (.only .annotationSet), .one .name (.only .nameExpression),
    .one .typeRef (.only .typeRef)]
  | contract => [
    .one .contractKeyword (.keyword ["contract"]), .one .contractEffects (.only .contractEffects)]
  | contractEffects => [
    .many .elements (.only .contractEffect), .optional .trailingComma (.keyword [","])]
  | contractEffect => [.one .expression .expression]
  | dynamicType | literalStringEntry | escapeStringEntry | constantLiteralExpression
    | nameExpression | keyword | whitespace | comment | semicolon | trailingComma => []

/-- The fields for the node's own text and flags. -/
def scalars : Kind → List Field
  | importDirective => [.wildcard]
  | typeArg => [.asterisk]
  | valueArg => [.asterisk]
  | stringLiteralExpression => [.isRaw]
  | literalStringEntry => [.text]
  | escapeStringEntry => [.text]
  | templateStringEntry => [.isShort]
  | constantLiteralExpression => [.text, .form]
  | nameExpression => [.text]
  | keyword => [.text]
  | whitespace => [.text]
  | comment => [.text, .startsLine, .endsLine]
  | semicolon => [.text]
  | trailingComma => [.text]
  | _ => []

/-- The slot of a field, if the kind has one. -/
def slot? (k : Kind) (f : Field) : Option Slot := k.slots.find? (·.field == f)

end Kind

end KotlinSyntax
