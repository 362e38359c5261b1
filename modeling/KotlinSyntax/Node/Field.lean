/-! The labels under which a node holds its children and its own text and flags. -/
namespace KotlinSyntax

inductive Field
  | annotationSets | packageDirective | importDirectives | declarations | statements | modifiers
  | packageKeyword | names | elements | importKeyword | wildcard | importAlias | name
  | classDeclarationKeyword | typeParams | primaryConstructor | classParents | typeConstraintSet
  | classBody | type | args | byKeyword | expression | constructorKeyword | params | enumEntries
  | block | funKeyword | receiverTypeRef | typeRef | postModifiers | equals | body | trailingComma
  | valOrVarKeyword | defaultValue | lPar | bindings | rPar | initializer | propertyDelegate
  | accessors | getKeyword | setKeyword | delegationCall | target | contextReceivers
  | functionTypeReceiver | returnTypeRef | qualifiers | typeArgs | asterisk | ifKeyword | condition
  | elseBody | catchClauses | finallyBlock | catchKeyword | forKeyword | loopParam | loopRange
  | whileKeyword | lhs | operator | rhs | entries | isRaw | text | isShort | form | lambdaBody
  | colon | destructTypeRef | label | typeArgTypeRef | whenKeyword | whenBranches | whenConditions
  | elseKeyword | declaration | expressions | lambdaArg | indices | function | atSymbol | lBracket
  | annotations | rBracket | whereKeyword | constraints | contractKeyword | contractEffects
  | startsLine | endsLine
  deriving DecidableEq, Repr, Inhabited

namespace Field

def all : List Field := [
  .annotationSets, .packageDirective, .importDirectives, .declarations, .statements, .modifiers,
  .packageKeyword, .names, .elements, .importKeyword, .wildcard, .importAlias, .name,
  .classDeclarationKeyword, .typeParams, .primaryConstructor, .classParents, .typeConstraintSet,
  .classBody, .type, .args, .byKeyword, .expression, .constructorKeyword, .params, .enumEntries,
  .block, .funKeyword, .receiverTypeRef, .typeRef, .postModifiers, .equals, .body, .trailingComma,
  .valOrVarKeyword, .defaultValue, .lPar, .bindings, .rPar, .initializer, .propertyDelegate,
  .accessors, .getKeyword, .setKeyword, .delegationCall, .target, .contextReceivers,
  .functionTypeReceiver, .returnTypeRef, .qualifiers, .typeArgs, .asterisk, .ifKeyword, .condition,
  .elseBody, .catchClauses, .finallyBlock, .catchKeyword, .forKeyword, .loopParam, .loopRange,
  .whileKeyword, .lhs, .operator, .rhs, .entries, .isRaw, .text, .isShort, .form, .lambdaBody,
  .colon, .destructTypeRef, .label, .typeArgTypeRef, .whenKeyword, .whenBranches, .whenConditions,
  .elseKeyword, .declaration, .expressions, .lambdaArg, .indices, .function, .atSymbol, .lBracket,
  .annotations, .rBracket, .whereKeyword, .constraints, .contractKeyword, .contractEffects,
  .startsLine, .endsLine]

/-- The name that the field goes by. -/
def key : Field → String
  | annotationSets => "annotationSets"
  | packageDirective => "packageDirective"
  | importDirectives => "importDirectives"
  | declarations => "declarations"
  | statements => "statements"
  | modifiers => "modifiers"
  | packageKeyword => "packageKeyword"
  | names => "names"
  | elements => "elements"
  | importKeyword => "importKeyword"
  | wildcard => "wildcard"
  | importAlias => "importAlias"
  | name => "name"
  | classDeclarationKeyword => "classDeclarationKeyword"
  | typeParams => "typeParams"
  | primaryConstructor => "primaryConstructor"
  | classParents => "classParents"
  | typeConstraintSet => "typeConstraintSet"
  | classBody => "classBody"
  | type => "type"
  | args => "args"
  | byKeyword => "byKeyword"
  | expression => "expression"
  | constructorKeyword => "constructorKeyword"
  | params => "params"
  | enumEntries => "enumEntries"
  | block => "block"
  | funKeyword => "funKeyword"
  | receiverTypeRef => "receiverTypeRef"
  | typeRef => "typeRef"
  | postModifiers => "postModifiers"
  | equals => "equals"
  | body => "body"
  | trailingComma => "trailingComma"
  | valOrVarKeyword => "valOrVarKeyword"
  | defaultValue => "defaultValue"
  | lPar => "lPar"
  | bindings => "variables"
  | rPar => "rPar"
  | initializer => "initializer"
  | propertyDelegate => "propertyDelegate"
  | accessors => "accessors"
  | getKeyword => "getKeyword"
  | setKeyword => "setKeyword"
  | delegationCall => "delegationCall"
  | target => "target"
  | contextReceivers => "contextReceivers"
  | functionTypeReceiver => "functionTypeReceiver"
  | returnTypeRef => "returnTypeRef"
  | qualifiers => "qualifiers"
  | typeArgs => "typeArgs"
  | asterisk => "asterisk"
  | ifKeyword => "ifKeyword"
  | condition => "condition"
  | elseBody => "elseBody"
  | catchClauses => "catchClauses"
  | finallyBlock => "finallyBlock"
  | catchKeyword => "catchKeyword"
  | forKeyword => "forKeyword"
  | loopParam => "loopParam"
  | loopRange => "loopRange"
  | whileKeyword => "whileKeyword"
  | lhs => "lhs"
  | operator => "operator"
  | rhs => "rhs"
  | entries => "entries"
  | isRaw => "raw"
  | text => "text"
  | isShort => "short"
  | form => "form"
  | lambdaBody => "lambdaBody"
  | colon => "colon"
  | destructTypeRef => "destructTypeRef"
  | label => "label"
  | typeArgTypeRef => "typeArgTypeRef"
  | whenKeyword => "whenKeyword"
  | whenBranches => "whenBranches"
  | whenConditions => "whenConditions"
  | elseKeyword => "elseKeyword"
  | declaration => "declaration"
  | expressions => "expressions"
  | lambdaArg => "lambdaArg"
  | indices => "indices"
  | function => "function"
  | atSymbol => "atSymbol"
  | lBracket => "lBracket"
  | annotations => "annotations"
  | rBracket => "rBracket"
  | whereKeyword => "whereKeyword"
  | constraints => "constraints"
  | contractKeyword => "contractKeyword"
  | contractEffects => "contractEffects"
  | startsLine => "startsLine"
  | endsLine => "endsLine"

/-- The field that goes by the name, if one does. -/
def ofKey? (key : String) : Option Field := all.find? (·.key == key)

end Field

end KotlinSyntax
