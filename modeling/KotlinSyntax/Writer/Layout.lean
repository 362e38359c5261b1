import KotlinSyntax.Node

/-! Layouts: what the text of a node consists of, in order. The fields of a node are written from left to
right, with the tokens that the kind implies between them. -/
namespace KotlinSyntax

/-- A part of the text of a node. -/
inductive Piece
  /-- A token, kept apart from the one before it where they would run together. -/
  | token (text : String)
  /-- Text that follows the text before it at once. -/
  | glued (text : String)
  /-- The nodes of a field. -/
  | child (field : Field)
  /-- The nodes of a field with a token between two of them. -/
  | list (field : Field) (separator : String)
  /-- The nodes of a field with a token after each of them. -/
  | each (field : Field) (terminator : String)
  /-- The end of the list of entries where declarations follow. -/
  | entriesEnd
  /-- The token that ends the node, after what is kept within it. -/
  | close (text : String)
  /-- What follows must be kept apart. -/
  | gap
  deriving DecidableEq, Repr

namespace Piece

def isClose : Piece → Bool
  | close _ => true
  | _ => false

end Piece

namespace Node

open Piece

/-- A token and the nodes of a field, where the field is filled. -/
def led (n : Node) (lead : String) (f : Field) : List Piece :=
  if n.has f then [token lead, child f] else []

/-- The nodes of a field and a token, where the field is filled. -/
def ended (n : Node) (f : Field) (tail : String) : List Piece :=
  if n.has f then [child f, token tail] else []

/-- A label after the sign that refers to it. -/
def atLabel (n : Node) : List Piece :=
  if n.has .label then [glued "@", child .label] else []

/-- A list with a dangling comma, between two tokens. -/
def bracketed (opening closing : String) (f : Field) : List Piece :=
  [token opening, list f ",", child .trailingComma, close closing]

def quotes (n : Node) : String := if n.flag .isRaw then "\"\"\"" else "\""

/-- The pieces of a node of the kind below the parent. -/
def layout (parent : Option Node) (n : Node) : Kind → List Piece
  | .kotlinFile => [list .annotationSets "", child .packageDirective, child .importDirectives,
    list .declarations ""]
  | .kotlinScript => [list .annotationSets "", child .packageDirective, child .importDirectives,
    list .statements ""]
  | .packageDirective => [child .modifiers, child .packageKeyword, list .names "."]
  | .importDirectives => [list .elements ""]
  | .importDirective => [child .importKeyword, list .names "."] ++
    (if n.flag .wildcard then [token ".*"] else []) ++ [child .importAlias]
  | .importAlias => [token "as", child .name]
  | .classDeclaration => [child .modifiers, child .classDeclarationKeyword, child .name,
    child .typeParams, child .primaryConstructor, child .classParents, child .typeConstraintSet,
    child .classBody]
  | .classParents => [token ":", list .elements ","]
  | .callConstructorParent => [child .type, child .args]
  | .delegatedTypeParent => [child .type, child .byKeyword, child .expression]
  | .typeParent => [child .type]
  | .primaryConstructor => [child .modifiers, child .constructorKeyword, child .params]
  | .classBody => [token "\x7b", list .enumEntries ","] ++
    (if n.has .enumEntries && n.has .declarations then [entriesEnd] else []) ++
    [list .declarations "", close "\x7d"]
  | .enumEntry => [child .modifiers, child .name, child .args, child .classBody]
  | .initDeclaration => [child .modifiers, token "init", child .block]
  | .functionDeclaration => [child .modifiers, child .funKeyword, child .typeParams] ++
    n.ended .receiverTypeRef "." ++ [child .name, child .params] ++ n.led ":" .typeRef ++
    [list .postModifiers "", child .equals, child .body]
  | .functionParams | .functionTypeParams | .valueArgs => bracketed "(" ")" .elements
  | .functionParam => [child .modifiers, child .valOrVarKeyword, child .name] ++
    n.led ":" .typeRef ++ [child .equals, child .defaultValue]
  | .propertyDeclaration => [child .modifiers, child .valOrVarKeyword, child .typeParams] ++
    n.ended .receiverTypeRef "." ++
    [child .lPar, list .bindings ",", child .trailingComma, child .rPar, child .typeConstraintSet,
      child .equals, child .initializer, child .propertyDelegate, list .accessors ""]
  | .propertyDelegate => [child .byKeyword, child .expression]
  | .getter => [child .modifiers, child .getKeyword, child .lPar, child .rPar] ++
    n.led ":" .typeRef ++ [child .equals, child .body]
  | .setter => [child .modifiers, child .setKeyword, child .params, child .equals, child .body]
  | .declaredVariable => child .name :: n.led ":" .typeRef
  | .typeAliasDeclaration =>
    [child .modifiers, token "typealias", child .name, child .typeParams] ++ n.led "=" .typeRef
  | .secondaryConstructorDeclaration =>
    [child .modifiers, child .constructorKeyword, child .params] ++ n.led ":" .delegationCall ++
      [child .block]
  | .delegationCall => [child .target, child .args]
  | .typeParams | .typeArgs => bracketed "<" ">" .elements
  | .typeParam => [child .modifiers, child .name] ++ n.led ":" .typeRef
  | .functionType => [child .contextReceivers, child .functionTypeReceiver, child .params] ++
    n.led "->" .returnTypeRef
  | .contextReceivers => token "context" :: bracketed "(" ")" .elements
  | .contextReceiver => [child .typeRef]
  | .functionTypeReceiver => [child .typeRef, token "."]
  | .functionTypeParam => n.ended .name ":" ++ [child .typeRef]
  | .simpleType => [each .qualifiers ".", child .name, child .typeArgs]
  | .simpleTypeQualifier => [child .name, child .typeArgs]
  | .nullableType => [child .lPar, child .modifiers, child .type, child .rPar, token "?"]
  | .dynamicType => [token "dynamic"]
  | .typeArg => [child .modifiers] ++ (if n.flag .asterisk then [token "*"] else []) ++
    [child .typeRef]
  | .typeRef => [child .lPar, child .modifiers, child .type, child .rPar]
  | .valueArg => n.ended .name "=" ++ (if n.flag .asterisk then [token "*"] else []) ++
    [child .expression]
  | .expressionContainer => [child .expression]
  | .ifExpression =>
    [child .ifKeyword, token "(", child .condition, token ")", child .body] ++
      n.led "else" .elseBody
  | .tryExpression => [token "try", child .block, list .catchClauses ""] ++
    n.led "finally" .finallyBlock
  | .catchClause => [child .catchKeyword, child .params, child .block]
  | .forExpression => [child .forKeyword, token "(", child .loopParam] ++
    n.led "in" .loopRange ++ [token ")", child .body]
  | .whileExpression => [child .whileKeyword, token "(", child .condition, token ")", child .body]
  | .doWhileExpression =>
    [token "do", child .body, child .whileKeyword, token "(", child .condition, token ")"]
  | .binaryExpression | .binaryInfixExpression | .binaryTypeExpression =>
    [child .lhs, child .operator, child .rhs]
  | .prefixUnaryExpression => [child .operator, child .expression]
  | .postfixUnaryExpression => [child .expression, child .operator]
  | .callableReferenceExpression => child .lhs :: n.led "::" .rhs
  | .classLiteralExpression => [child .lhs, token "::", token "class"]
  | .expressionReceiver => [child .expression]
  | .typeReceiver => [child .type]
  | .parenthesizedExpression => [token "(", child .expression, close ")"]
  | .stringLiteralExpression => [token n.quotes, list .entries "", close n.quotes]
  | .literalStringEntry | .escapeStringEntry => [glued n.text]
  | .templateStringEntry =>
    if n.flag .isShort then [glued "$", child .expression]
    else [glued "$\x7b", child .expression, close "\x7d"]
  | .constantLiteralExpression => [token n.text]
  | .lambdaExpression => [token "\x7b"] ++ n.ended .params "->" ++ [child .lambdaBody, close "\x7d"]
  | .lambdaParams => [list .elements ",", child .trailingComma]
  | .lambdaParam => [child .lPar, list .bindings ",", child .trailingComma, child .rPar,
    child .colon, child .destructTypeRef]
  | .lambdaParamVariable => [child .modifiers, child .name] ++ n.led ":" .typeRef
  | .lambdaBody => [list .statements ""]
  | .blockExpression => [token "\x7b", list .statements "", close "\x7d"]
  | .thisExpression => token "this" :: n.atLabel
  | .superExpression => [token "super"] ++
    (if n.has .typeArgTypeRef then [token "<", child .typeArgTypeRef, close ">"] else []) ++
    n.atLabel
  | .whenExpression => [child .whenKeyword, child .lPar, child .expression, child .rPar,
    token "\x7b", list .whenBranches "", close "\x7d"]
  | .whenBranch => [list .whenConditions ",", child .trailingComma, child .elseKeyword] ++
    n.led "->" .body
  | .whenCondition => [child .operator, child .expression, child .typeRef]
  | .objectLiteralExpression => [child .declaration]
  | .throwExpression => n.led "throw" .expression
  | .returnExpression => [token "return"] ++ n.atLabel ++ [child .expression]
  | .continueExpression => token "continue" :: n.atLabel
  | .breakExpression => token "break" :: n.atLabel
  | .collectionLiteralExpression => bracketed "[" "]" .expressions
  | .nameExpression => [token n.text]
  | .labeledExpression => [child .label, glued "@", child .expression]
  | .annotatedExpression => [list .annotationSets "", child .expression]
  | .callExpression => [child .expression, child .typeArgs, child .args, child .lambdaArg]
  | .lambdaArg => [list .annotationSets ""] ++
    (if n.has .label then [child .label, glued "@"] else []) ++ [child .expression]
  | .arrayAccessExpression => child .expression :: bracketed "[" "]" .indices
  | .anonymousFunctionExpression => [child .function]
  | .propertyExpression => [child .declaration]
  | .modifiers => [list .elements ""]
  | .annotationSet => [child .atSymbol, child .target, child .colon, child .lBracket,
    list .annotations "", child .rBracket]
  | .annotationEntry => [child .type, child .args] ++
    (if parent.any fun p => p.isKind .annotationSet && !p.has .rBracket then [gap] else [])
  | .typeConstraintSet => [child .whereKeyword, child .constraints]
  | .typeConstraints => [list .elements ","]
  | .typeConstraint => [list .annotationSets "", child .name] ++ n.led ":" .typeRef
  | .contract => [child .contractKeyword, child .contractEffects]
  | .contractEffects => bracketed "[" "]" .elements
  | .contractEffect => [child .expression]
  | .keyword | .whitespace | .comment | .semicolon | .trailingComma => [token n.text]

end Node

end KotlinSyntax
