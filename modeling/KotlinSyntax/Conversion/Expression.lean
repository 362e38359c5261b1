import KotlinSyntax.Conversion.Declaration

/-! Expressions and statements. -/
namespace KotlinSyntax.Conversion

def block : Reading Node := do
  let _ ← token "\x7b"
  let statements ← whileSees (!seesToken "\x7d" 0 ·) (nextAs .statement)
  let _ ← token "\x7d"
  finish .blockExpression [] (many .statements statements)

def ifExpression : Reading Node := do
  let word ← keyword "if"
  let _ ← token "("
  let condition ← nextAs .expression
  let _ ← token ")"
  let body ← container
  let otherwise ← onlyIf (← skipToken "else") container
  finish .ifExpression [] (one .ifKeyword word ++ one .condition condition ++ one .body body ++
    opt .elseBody otherwise)

def tryExpression : Reading Node := do
  let _ ← token "try"
  let block ← part .block
  let clauses ← whileSees (seesNode .catchClause) (part .catchClause)
  let last ← onlyIf (← skipToken "finally") (part .block)
  finish .tryExpression []
    (one .block block ++ many .catchClauses clauses ++ opt .finallyBlock last)

def catchClause : Reading Node := do
  let word ← keyword "catch"
  let params ← part .valueParameterList
  let block ← part .block
  finish .catchClause [] (one .catchKeyword word ++ one .params params ++ one .block block)

def forLoop : Reading Node := do
  let word ← keyword "for"
  let _ ← token "("
  let param ← part .lambdaParameter
  let _ ← token "in"
  let range ← container
  let _ ← token ")"
  let body ← container
  finish .forExpression [] (one .forKeyword word ++ one .loopParam param ++ one .loopRange range ++
    one .body body)

def whileLoop : Reading Node := do
  let word ← keyword "while"
  let _ ← token "("
  let condition ← container
  let _ ← token ")"
  let body ← container
  finish .whileExpression [] (one .whileKeyword word ++ one .condition condition ++ one .body body)

def doWhileLoop : Reading Node := do
  let _ ← token "do"
  let body ← container
  let word ← keyword "while"
  let _ ← token "("
  let condition ← container
  let _ ← token ")"
  finish .doWhileExpression []
    (one .body body ++ one .whileKeyword word ++ one .condition condition)

/-- Two operands and what joins them. -/
def operation (k : Kind) (operator rhs : Reading Node) : Reading Node := do
  let l ← nextAs .expression
  let o ← operator
  let r ← rhs
  finish k [] (one .lhs l ++ one .operator o ++ one .rhs r)

def prefixExpression : Reading Node := do
  let o ← keywordOf Keyword.prefixOperators
  let e ← nextAs .expression
  finish .prefixUnaryExpression [] (one .operator o ++ one .expression e)

def postfixExpression : Reading Node := do
  let e ← nextAs .expression
  let o ← keywordOf Keyword.postfixOperators
  finish .postfixUnaryExpression [] (one .expression e ++ one .operator o)

/-- What stands before two colons. -/
def receiver : Reading Node := do
  if seesNode .userType (← rest) then
    let type ← part .userType
    implied .typeReceiver (one .type type)
  else
    let e ← nextAs .expression
    implied .expressionReceiver (one .expression e)

/-- A receiver, if there is one, and two colons. -/
def beforeColons : Reading (Option Node) := do
  let lhs ← onlyIf (!seesToken "::" 0 (← rest)) receiver
  let _ ← token "::"
  return lhs

def callableReference : Reading Node := do
  let lhs ← beforeColons
  let rhs ← name
  finish .callableReferenceExpression [] (opt .lhs lhs ++ one .rhs rhs)

def classLiteral : Reading Node := do
  let lhs ← beforeColons
  let _ ← token "class"
  finish .classLiteralExpression [] (opt .lhs lhs)

def parenthesized : Reading Node := do
  let _ ← token "("
  let e ← nextAs .expression
  let _ ← token ")"
  finish .parenthesizedExpression [] (one .expression e)

def stringTemplate : Reading Node := do
  let opening ← anyToken
  let entries ← whileSees (!seesKind .closeQuote ·) (nextAs .stringEntry)
  let _ ← anyToken
  let raw := tokenText? opening.origin.element == some "\"\"\""
  finish .stringLiteralExpression [(.isRaw, .flag raw)] (many .entries entries)

/-- A template within a string, with braces or without. -/
def template : Reading Node := do
  let short := (← read).kind == .shortTemplate
  let _ ← token (if short then "$" else "$\x7b")
  let e ← nextAs .expression
  tokenIf (!short) "\x7d"
  finish .templateStringEntry [(.isShort, .flag short)] (one .expression e)

/-- An arrow with nothing before it ends parameters all the same. -/
def arrowParameters (arrow : Bool) (params : Option Node) : Reading (Option Node) :=
  if arrow && params.isNone then some <$> implied .lambdaParams [] else return params

def lambda : Reading Node := do
  let _ ← token "\x7b"
  let params ← optionalPart .lambdaParameterList
  let arrow ← skipToken "->"
  let params ← arrowParameters arrow params
  let body ← optionalPart .lambdaBody
  let _ ← token "\x7d"
  finish .lambdaExpression [] (opt .params params ++ opt .lambdaBody body)

def lambdaParameterList : Reading Node := do
  let (elements, comma) ← separated none (part .lambdaParameter)
  finish .lambdaParams [] (many .elements elements ++ opt .trailingComma comma)

def lambdaParameter : Reading Node := do
  match ← optionalKeyword "(" with
  | some left =>
    let (bindings, comma) ← separated (some ")") (part .lambdaParameterVariable)
    let right ← keyword ")"
    let colon ← optionalKeyword ":"
    let type ← onlyIf colon.isSome (part .typeReference)
    finish .lambdaParam [] (one .lPar left ++ many .bindings bindings ++
      opt .trailingComma comma ++ one .rPar right ++ opt .colon colon ++ opt .destructTypeRef type)
  | none => finish .lambdaParam [] (one .bindings (← part .lambdaParameterVariable))

def lambdaParameterVariable : Reading Node := do
  let mods ← modifiers
  let n ← name
  let type ← optionalType
  finish .lambdaParamVariable [] (opt .modifiers mods ++ one .name n ++ opt .typeRef type)

def lambdaBody : Reading Node := do
  let statements ← whileSees (!·.isEmpty) (nextAs .statement)
  build .lambdaBody [] (many .statements statements)

def thisExpression : Reading Node := do
  let _ ← token "this"
  finish .thisExpression [] (opt .label (← label))

/-- A type before a closing bracket. -/
def superBound : Reading Node := do
  let type ← part .typeReference
  let _ ← token ">"
  return type

def superExpression : Reading Node := do
  let _ ← token "super"
  let type ← onlyIf (← skipToken "<") superBound
  let l ← label
  finish .superExpression [] (opt .typeArgTypeRef type ++ opt .label l)

/-- What a choice is made on, in parentheses. -/
def whenSubject : Reading (List (Field × Node)) := do
  match ← optionalKeyword "(" with
  | some left =>
    let e ← nextAs .expression
    let right ← keyword ")"
    return one .lPar left ++ one .expression e ++ one .rPar right
  | none => return []

def whenExpression : Reading Node := do
  let word ← keyword "when"
  let subject ← whenSubject
  let _ ← token "\x7b"
  let branches ← whileSees (seesNode .whenEntry) (part .whenEntry)
  let _ ← token "\x7d"
  finish .whenExpression [] (one .whenKeyword word ++ subject ++ many .whenBranches branches)

/-- The conditions of a branch; one that is taken otherwise has none. -/
def whenConditions (otherwise : Bool) : Reading (List Node × Option Node) :=
  if otherwise then return ([], none) else separated (some "->") (part .whenCondition)

def whenEntry : Reading Node := do
  let otherwise ← optionalKeyword "else"
  let (conditions, comma) ← whenConditions otherwise.isSome
  let _ ← token "->"
  let body ← nextAs .expression
  finish .whenBranch [] (many .whenConditions conditions ++ opt .trailingComma comma ++
    opt .elseKeyword otherwise ++ one .body body)

def whenCondition : Reading Node := do
  let items ← rest
  let operator ← onlyIf (Keyword.conditionOperators.any (seesToken · 0 items))
    (keywordOf Keyword.conditionOperators)
  if operator.any fun o => o.text == "is" || o.text == "!is" then
    let type ← part .typeReference
    finish .whenCondition [] (opt .operator operator ++ one .typeRef type)
  else
    let e ← nextAs .expression
    finish .whenCondition [] (opt .operator operator ++ one .expression e)

def throwExpression : Reading Node := do
  let _ ← anyToken
  finish .throwExpression [] (one .expression (← nextAs .expression))

def returnExpression : Reading Node := do
  let _ ← anyToken
  let l ← label
  let e ← onlyIf (!(← rest).isEmpty) (nextAs .expression)
  finish .returnExpression [] (opt .label l ++ opt .expression e)

/-- A jump to the start or the end of a loop. -/
def loopJump (k : Kind) : Reading Node := do
  let _ ← anyToken
  finish k [] (opt .label (← label))

def collectionLiteral : Reading Node := do
  let (elements, comma) ← bracketed "[" "]" (nextAs .expression)
  finish .collectionLiteralExpression [] (many .expressions elements ++ opt .trailingComma comma)

def labeledExpression : Reading Node := do
  let l ← name
  let _ ← token "@"
  let e ← nextAs .expression
  finish .labeledExpression [] (one .label l ++ one .expression e)

def annotatedExpression : Reading Node := do
  let sets ← annotationSets
  let e ← nextAs .expression
  finish .annotatedExpression [] (many .annotationSets sets ++ one .expression e)

def callExpression : Reading Node := do
  let e ← nextAs .expression
  let typeArgs ← optionalPart .typeArgumentList
  let args ← optionalPart .valueArgumentList
  let lambda ← optionalPart .lambdaArgument
  finish .callExpression []
    (one .expression e ++ opt .typeArgs typeArgs ++ opt .args args ++ opt .lambdaArg lambda)

def lambdaArgument : Reading Node := do
  let sets ← annotationSets
  let labeled := seesToken "@" 1 (← rest)
  let l ← onlyIf labeled name
  tokenIf labeled "@"
  let e ← part .lambdaExpression
  finish .lambdaArg [] (many .annotationSets sets ++ opt .label l ++ one .expression e)

def arrayAccess : Reading Node := do
  let e ← nextAs .expression
  let (indices, comma) ← bracketed "[" "]" (nextAs .expression)
  finish .arrayAccessExpression []
    (one .expression e ++ many .indices indices ++ opt .trailingComma comma)

/-- A declaration that stands as an expression. -/
def wrapped (k : Kind) (f : Field) (rule : Reading Node) : Reading Node := do
  let n ← rule
  build k [] (one f n)

end KotlinSyntax.Conversion
