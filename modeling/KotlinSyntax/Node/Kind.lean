/-! The kinds of node in a tree, one for each construct that a program can hold, with the four kinds of
text that stand between constructs last. -/
namespace KotlinSyntax

inductive Kind
  | kotlinFile | kotlinScript | packageDirective | importDirectives | importDirective | importAlias
  | classDeclaration | classParents | callConstructorParent | delegatedTypeParent | typeParent
  | primaryConstructor | classBody | enumEntry | initDeclaration | functionDeclaration
  | functionParams | functionParam | propertyDeclaration | propertyDelegate | getter | setter
  | declaredVariable | typeAliasDeclaration | secondaryConstructorDeclaration | delegationCall
  | typeParams | typeParam | functionType | contextReceivers | contextReceiver
  | functionTypeReceiver | functionTypeParams | functionTypeParam | simpleType | simpleTypeQualifier
  | nullableType | dynamicType | typeArgs | typeArg | typeRef | valueArgs | valueArg
  | expressionContainer | ifExpression | tryExpression | catchClause | forExpression
  | whileExpression | doWhileExpression | binaryExpression | binaryInfixExpression
  | prefixUnaryExpression | postfixUnaryExpression | binaryTypeExpression
  | callableReferenceExpression | classLiteralExpression | expressionReceiver | typeReceiver
  | parenthesizedExpression | stringLiteralExpression | literalStringEntry | escapeStringEntry
  | templateStringEntry | constantLiteralExpression | lambdaExpression | lambdaParams | lambdaParam
  | lambdaParamVariable | lambdaBody | thisExpression | superExpression | whenExpression
  | whenBranch | whenCondition | objectLiteralExpression | throwExpression | returnExpression
  | continueExpression | breakExpression | collectionLiteralExpression | nameExpression
  | labeledExpression | annotatedExpression | callExpression | lambdaArg | arrayAccessExpression
  | anonymousFunctionExpression | propertyExpression | blockExpression | modifiers | annotationSet
  | annotationEntry | typeConstraintSet | typeConstraints | typeConstraint | contract
  | contractEffects | contractEffect | keyword | whitespace | comment | semicolon | trailingComma
  deriving DecidableEq, Repr, Inhabited

namespace Kind

def all : List Kind := [
  .kotlinFile, .kotlinScript, .packageDirective, .importDirectives, .importDirective, .importAlias,
  .classDeclaration, .classParents, .callConstructorParent, .delegatedTypeParent, .typeParent,
  .primaryConstructor, .classBody, .enumEntry, .initDeclaration, .functionDeclaration,
  .functionParams, .functionParam, .propertyDeclaration, .propertyDelegate, .getter, .setter,
  .declaredVariable, .typeAliasDeclaration, .secondaryConstructorDeclaration, .delegationCall,
  .typeParams, .typeParam, .functionType, .contextReceivers, .contextReceiver,
  .functionTypeReceiver, .functionTypeParams, .functionTypeParam, .simpleType, .simpleTypeQualifier,
  .nullableType, .dynamicType, .typeArgs, .typeArg, .typeRef, .valueArgs, .valueArg,
  .expressionContainer, .ifExpression, .tryExpression, .catchClause, .forExpression,
  .whileExpression, .doWhileExpression, .binaryExpression, .binaryInfixExpression,
  .prefixUnaryExpression, .postfixUnaryExpression, .binaryTypeExpression,
  .callableReferenceExpression, .classLiteralExpression, .expressionReceiver, .typeReceiver,
  .parenthesizedExpression, .stringLiteralExpression, .literalStringEntry, .escapeStringEntry,
  .templateStringEntry, .constantLiteralExpression, .lambdaExpression, .lambdaParams, .lambdaParam,
  .lambdaParamVariable, .lambdaBody, .thisExpression, .superExpression, .whenExpression,
  .whenBranch, .whenCondition, .objectLiteralExpression, .throwExpression, .returnExpression,
  .continueExpression, .breakExpression, .collectionLiteralExpression, .nameExpression,
  .labeledExpression, .annotatedExpression, .callExpression, .lambdaArg, .arrayAccessExpression,
  .anonymousFunctionExpression, .propertyExpression, .blockExpression, .modifiers, .annotationSet,
  .annotationEntry, .typeConstraintSet, .typeConstraints, .typeConstraint, .contract,
  .contractEffects, .contractEffect, .keyword, .whitespace, .comment, .semicolon, .trailingComma]

def name : Kind → String
  | kotlinFile => "KotlinFile"
  | kotlinScript => "KotlinScript"
  | packageDirective => "PackageDirective"
  | importDirectives => "ImportDirectives"
  | importDirective => "ImportDirective"
  | importAlias => "ImportAlias"
  | classDeclaration => "ClassDeclaration"
  | classParents => "ClassParents"
  | callConstructorParent => "CallConstructorParent"
  | delegatedTypeParent => "DelegatedTypeParent"
  | typeParent => "TypeParent"
  | primaryConstructor => "PrimaryConstructor"
  | classBody => "ClassBody"
  | enumEntry => "EnumEntry"
  | initDeclaration => "InitDeclaration"
  | functionDeclaration => "FunctionDeclaration"
  | functionParams => "FunctionParams"
  | functionParam => "FunctionParam"
  | propertyDeclaration => "PropertyDeclaration"
  | propertyDelegate => "PropertyDelegate"
  | getter => "Getter"
  | setter => "Setter"
  | declaredVariable => "Variable"
  | typeAliasDeclaration => "TypeAliasDeclaration"
  | secondaryConstructorDeclaration => "SecondaryConstructorDeclaration"
  | delegationCall => "DelegationCall"
  | typeParams => "TypeParams"
  | typeParam => "TypeParam"
  | functionType => "FunctionType"
  | contextReceivers => "ContextReceivers"
  | contextReceiver => "ContextReceiver"
  | functionTypeReceiver => "FunctionTypeReceiver"
  | functionTypeParams => "FunctionTypeParams"
  | functionTypeParam => "FunctionTypeParam"
  | simpleType => "SimpleType"
  | simpleTypeQualifier => "SimpleTypeQualifier"
  | nullableType => "NullableType"
  | dynamicType => "DynamicType"
  | typeArgs => "TypeArgs"
  | typeArg => "TypeArg"
  | typeRef => "TypeRef"
  | valueArgs => "ValueArgs"
  | valueArg => "ValueArg"
  | expressionContainer => "ExpressionContainer"
  | ifExpression => "IfExpression"
  | tryExpression => "TryExpression"
  | catchClause => "CatchClause"
  | forExpression => "ForExpression"
  | whileExpression => "WhileExpression"
  | doWhileExpression => "DoWhileExpression"
  | binaryExpression => "BinaryExpression"
  | binaryInfixExpression => "BinaryInfixExpression"
  | prefixUnaryExpression => "PrefixUnaryExpression"
  | postfixUnaryExpression => "PostfixUnaryExpression"
  | binaryTypeExpression => "BinaryTypeExpression"
  | callableReferenceExpression => "CallableReferenceExpression"
  | classLiteralExpression => "ClassLiteralExpression"
  | expressionReceiver => "ExpressionReceiver"
  | typeReceiver => "TypeReceiver"
  | parenthesizedExpression => "ParenthesizedExpression"
  | stringLiteralExpression => "StringLiteralExpression"
  | literalStringEntry => "LiteralStringEntry"
  | escapeStringEntry => "EscapeStringEntry"
  | templateStringEntry => "TemplateStringEntry"
  | constantLiteralExpression => "ConstantLiteralExpression"
  | lambdaExpression => "LambdaExpression"
  | lambdaParams => "LambdaParams"
  | lambdaParam => "LambdaParam"
  | lambdaParamVariable => "LambdaParamVariable"
  | lambdaBody => "LambdaBody"
  | thisExpression => "ThisExpression"
  | superExpression => "SuperExpression"
  | whenExpression => "WhenExpression"
  | whenBranch => "WhenBranch"
  | whenCondition => "WhenCondition"
  | objectLiteralExpression => "ObjectLiteralExpression"
  | throwExpression => "ThrowExpression"
  | returnExpression => "ReturnExpression"
  | continueExpression => "ContinueExpression"
  | breakExpression => "BreakExpression"
  | collectionLiteralExpression => "CollectionLiteralExpression"
  | nameExpression => "NameExpression"
  | labeledExpression => "LabeledExpression"
  | annotatedExpression => "AnnotatedExpression"
  | callExpression => "CallExpression"
  | lambdaArg => "LambdaArg"
  | arrayAccessExpression => "ArrayAccessExpression"
  | anonymousFunctionExpression => "AnonymousFunctionExpression"
  | propertyExpression => "PropertyExpression"
  | blockExpression => "BlockExpression"
  | modifiers => "Modifiers"
  | annotationSet => "AnnotationSet"
  | annotationEntry => "Annotation"
  | typeConstraintSet => "TypeConstraintSet"
  | typeConstraints => "TypeConstraints"
  | typeConstraint => "TypeConstraint"
  | contract => "Contract"
  | contractEffects => "ContractEffects"
  | contractEffect => "ContractEffect"
  | keyword => "Keyword"
  | whitespace => "Whitespace"
  | comment => "Comment"
  | semicolon => "Semicolon"
  | trailingComma => "TrailingComma"

/-- The kind that has the name, if one has. -/
def ofName? (name : String) : Option Kind := all.find? (·.name == name)

end Kind

end KotlinSyntax
