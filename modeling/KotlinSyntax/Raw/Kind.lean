/-! The kinds of node in a raw tree, one for each construct of the grammar. -/
namespace KotlinSyntax

inductive RawKind
  | file | script | packageDirective | importList | importDirective | importAlias | classDeclaration
  | superTypeList | superTypeCall | delegatedSuperType | superType | primaryConstructor | classBody
  | enumEntry | classInitializer | function | valueParameterList | valueParameter | property
  | propertyDelegate | propertyGetter | propertySetter | destructuringEntry | typeAlias
  | secondaryConstructor | delegationCall | typeParameterList | typeParameter | typeConstraintSet
  | typeConstraintList | typeConstraint | contract | contractEffectList | contractEffect
  | typeReference | userType | typeQualifier | nullableType | functionType | functionTypeReceiver
  | functionTypeParameterList | functionTypeParameter | contextReceiverList | contextReceiver
  | dynamicType | typeArgumentList | typeProjection | modifierList | annotationSet | annotationEntry
  | valueArgumentList | valueArgument | ifExpression | tryExpression | catchClause | forLoop
  | whileLoop | doWhileLoop | binaryExpression | infixExpression | binaryWithType | prefixExpression
  | postfixExpression | callableReferenceExpression | classLiteralExpression | parenthesized
  | stringTemplate | shortTemplate | longTemplate | lambdaExpression | lambdaParameterList
  | lambdaParameter | lambdaParameterVariable | lambdaBody | thisExpression | superExpression
  | whenExpression | whenEntry | whenCondition | throwExpression | returnExpression
  | continueExpression | breakExpression | collectionLiteralExpression | labeledExpression
  | annotatedExpression | callExpression | lambdaArgument | arrayAccessExpression | block
  | errorElement | unsupported
  deriving DecidableEq, Repr, Inhabited

namespace RawKind

def all : List RawKind := [
  .file, .script, .packageDirective, .importList, .importDirective, .importAlias, .classDeclaration,
  .superTypeList, .superTypeCall, .delegatedSuperType, .superType, .primaryConstructor, .classBody,
  .enumEntry, .classInitializer, .function, .valueParameterList, .valueParameter, .property,
  .propertyDelegate, .propertyGetter, .propertySetter, .destructuringEntry, .typeAlias,
  .secondaryConstructor, .delegationCall, .typeParameterList, .typeParameter, .typeConstraintSet,
  .typeConstraintList, .typeConstraint, .contract, .contractEffectList, .contractEffect,
  .typeReference, .userType, .typeQualifier, .nullableType, .functionType, .functionTypeReceiver,
  .functionTypeParameterList, .functionTypeParameter, .contextReceiverList, .contextReceiver,
  .dynamicType, .typeArgumentList, .typeProjection, .modifierList, .annotationSet, .annotationEntry,
  .valueArgumentList, .valueArgument, .ifExpression, .tryExpression, .catchClause, .forLoop,
  .whileLoop, .doWhileLoop, .binaryExpression, .infixExpression, .binaryWithType, .prefixExpression,
  .postfixExpression, .callableReferenceExpression, .classLiteralExpression, .parenthesized,
  .stringTemplate, .shortTemplate, .longTemplate, .lambdaExpression, .lambdaParameterList,
  .lambdaParameter, .lambdaParameterVariable, .lambdaBody, .thisExpression, .superExpression,
  .whenExpression, .whenEntry, .whenCondition, .throwExpression, .returnExpression,
  .continueExpression, .breakExpression, .collectionLiteralExpression, .labeledExpression,
  .annotatedExpression, .callExpression, .lambdaArgument, .arrayAccessExpression, .block,
  .errorElement, .unsupported]

def name : RawKind → String
  | file => "FILE"
  | script => "SCRIPT"
  | packageDirective => "PACKAGE_DIRECTIVE"
  | importList => "IMPORT_LIST"
  | importDirective => "IMPORT_DIRECTIVE"
  | importAlias => "IMPORT_ALIAS"
  | classDeclaration => "CLASS"
  | superTypeList => "SUPER_TYPE_LIST"
  | superTypeCall => "SUPER_TYPE_CALL_ENTRY"
  | delegatedSuperType => "DELEGATED_SUPER_TYPE_ENTRY"
  | superType => "SUPER_TYPE_ENTRY"
  | primaryConstructor => "PRIMARY_CONSTRUCTOR"
  | classBody => "CLASS_BODY"
  | enumEntry => "ENUM_ENTRY"
  | classInitializer => "CLASS_INITIALIZER"
  | function => "FUN"
  | valueParameterList => "VALUE_PARAMETER_LIST"
  | valueParameter => "VALUE_PARAMETER"
  | property => "PROPERTY"
  | propertyDelegate => "PROPERTY_DELEGATE"
  | propertyGetter => "PROPERTY_GETTER"
  | propertySetter => "PROPERTY_SETTER"
  | destructuringEntry => "DESTRUCTURING_DECLARATION_ENTRY"
  | typeAlias => "TYPEALIAS"
  | secondaryConstructor => "SECONDARY_CONSTRUCTOR"
  | delegationCall => "CONSTRUCTOR_DELEGATION_CALL"
  | typeParameterList => "TYPE_PARAMETER_LIST"
  | typeParameter => "TYPE_PARAMETER"
  | typeConstraintSet => "TYPE_CONSTRAINT_SET"
  | typeConstraintList => "TYPE_CONSTRAINT_LIST"
  | typeConstraint => "TYPE_CONSTRAINT"
  | contract => "CONTRACT"
  | contractEffectList => "CONTRACT_EFFECT_LIST"
  | contractEffect => "CONTRACT_EFFECT"
  | typeReference => "TYPE_REFERENCE"
  | userType => "USER_TYPE"
  | typeQualifier => "USER_TYPE_QUALIFIER"
  | nullableType => "NULLABLE_TYPE"
  | functionType => "FUNCTION_TYPE"
  | functionTypeReceiver => "FUNCTION_TYPE_RECEIVER"
  | functionTypeParameterList => "FUNCTION_TYPE_PARAMETER_LIST"
  | functionTypeParameter => "FUNCTION_TYPE_PARAMETER"
  | contextReceiverList => "CONTEXT_RECEIVER_LIST"
  | contextReceiver => "CONTEXT_RECEIVER"
  | dynamicType => "DYNAMIC_TYPE"
  | typeArgumentList => "TYPE_ARGUMENT_LIST"
  | typeProjection => "TYPE_PROJECTION"
  | modifierList => "MODIFIER_LIST"
  | annotationSet => "ANNOTATION"
  | annotationEntry => "ANNOTATION_ENTRY"
  | valueArgumentList => "VALUE_ARGUMENT_LIST"
  | valueArgument => "VALUE_ARGUMENT"
  | ifExpression => "IF"
  | tryExpression => "TRY"
  | catchClause => "CATCH"
  | forLoop => "FOR"
  | whileLoop => "WHILE"
  | doWhileLoop => "DO_WHILE"
  | binaryExpression => "BINARY_EXPRESSION"
  | infixExpression => "INFIX_EXPRESSION"
  | binaryWithType => "BINARY_WITH_TYPE"
  | prefixExpression => "PREFIX_EXPRESSION"
  | postfixExpression => "POSTFIX_EXPRESSION"
  | callableReferenceExpression => "CALLABLE_REFERENCE_EXPRESSION"
  | classLiteralExpression => "CLASS_LITERAL_EXPRESSION"
  | parenthesized => "PARENTHESIZED"
  | stringTemplate => "STRING_TEMPLATE"
  | shortTemplate => "SHORT_STRING_TEMPLATE_ENTRY"
  | longTemplate => "LONG_STRING_TEMPLATE_ENTRY"
  | lambdaExpression => "LAMBDA_EXPRESSION"
  | lambdaParameterList => "LAMBDA_PARAMETER_LIST"
  | lambdaParameter => "LAMBDA_PARAMETER"
  | lambdaParameterVariable => "LAMBDA_PARAMETER_VARIABLE"
  | lambdaBody => "LAMBDA_BODY"
  | thisExpression => "THIS_EXPRESSION"
  | superExpression => "SUPER_EXPRESSION"
  | whenExpression => "WHEN"
  | whenEntry => "WHEN_ENTRY"
  | whenCondition => "WHEN_CONDITION"
  | throwExpression => "THROW"
  | returnExpression => "RETURN"
  | continueExpression => "CONTINUE"
  | breakExpression => "BREAK"
  | collectionLiteralExpression => "COLLECTION_LITERAL_EXPRESSION"
  | labeledExpression => "LABELED_EXPRESSION"
  | annotatedExpression => "ANNOTATED_EXPRESSION"
  | callExpression => "CALL_EXPRESSION"
  | lambdaArgument => "LAMBDA_ARGUMENT"
  | arrayAccessExpression => "ARRAY_ACCESS_EXPRESSION"
  | block => "BLOCK"
  | errorElement => "ERROR_ELEMENT"
  | unsupported => "UNSUPPORTED"

def ofName? (name : String) : Option RawKind := all.find? (·.name == name)

end RawKind

end KotlinSyntax
