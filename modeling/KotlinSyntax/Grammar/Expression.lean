import KotlinSyntax.Grammar.Primary

/-! Expressions by level, from assignment down to the primary ones. A semicolon always ends an
expression; a line end does unless the operator may begin a line. -/
namespace KotlinSyntax.Grammar

/-- Whether a lambda stands here as an argument, with a label or annotations in front of it. -/
def atLambdaArgument (recur : Recur) : Grammar Bool := do
  let b ← look
  if b.sees openBrace then return true
  else if b.seesName && b.sees "@" 1 && b.adjacent 1 then return b.sees openBrace 2
  else if b.sees "@" then
    lookahead do
      let _ ← annotationSetsInto recur .empty
      if !(← look).sees openBrace then reject (.expectedText openBrace)
  else return false

def lambdaArgument (recur : Recur) : Grammar Parsed := do
  let m ← annotationSetsInto recur .empty
  let m ← advanceTwiceIf (·.seesName) m
  done (m.add (← lambda recur)) .lambdaArgument

/-- Type arguments that a call follows on the same line. -/
def callTypeArguments (recur : Recur) : Grammar (Option Parsed) := do
  if (← look).sees "<" then
    speculate do
      let args ← typeArguments recur
      let b ← look
      if !b.newlineBefore && b.seesAny ["(", openBrace] then return args else reject (.not "a call")
  else return none

/-- A lambda behind the arguments, or on the line of the callee. -/
def trailingLambda (recur : Recur) (hasArguments : Bool) : Grammar (Option Parsed) := do
  let b ← look
  if (← surroundings).trailingLambdas && !b.semicolonBefore && (hasArguments || !b.newlineBefore) then
    if ← atLambdaArgument recur then some <$> lambdaArgument recur else return none
  else return none

/-- Arguments in parentheses on the line of the callee, if there are any. -/
def callArguments (recur : Recur) : Grammar (Option Parsed) := do
  let b ← look
  if b.sees "(" && !b.separatedBefore then some <$> valueArguments recur else return none

/-- What makes a call of the callee, if there is something. -/
def callSuffix (recur : Recur) (callee : Parsed) : Grammar (Option Parsed) := do
  if (← look).separatedBefore then return none
  else
    let typeArgs ← callTypeArguments recur
    let args ← callArguments recur
    let lambda ← trailingLambda recur args.isSome
    if typeArgs.isNone && args.isNone && lambda.isNone then return none
    else
      let m := (((Marker.ofParsed callee).add? typeArgs).add? args).add? lambda
      some <$> done m .callExpression

/-- One turn of a loop that calls the callee again and again. -/
def callTurn (recur : Recur) (callee : Parsed) : Grammar (Turn Parsed) := do
  match ← callSuffix recur callee with
  | some call => return .again call
  | none => return .stop callee

def memberName : Grammar Parsed := do
  if (← look).seesName then token else reject (.expected "a member name")

def memberSelector (recur : Recur) : Grammar Parsed := do
  iterate (fun p => do
    if (← look).semicolonBefore then return .stop p else callTurn recur p) (← memberName)

def arrayAccess (recur : Recur) (target : Parsed) : Grammar Parsed := withTrailingLambdas true do
  let m ← advance (.ofParsed target)
  let m ← commaList m "]" (recur .expression)
  done (← expect m "]") .arrayAccessExpression

/-- A class literal of a nullable type has no node of its own. -/
def nullableLiteral (receiver : Parsed) : Grammar Parsed := do
  let m ← advanceTwice (.ofParsed receiver)
  let m ← advanceIf (fun b => b.sees "class" || b.seesName) m
  done m .unsupported (some "nullable class literal")

/-- One suffix of an expression on the same line. -/
def postfixTurn (recur : Recur) (p : Parsed) : Grammar (Turn Parsed) := do
  let b ← look
  if b.seesAny Keyword.postfixOperators then
    return .again (← done (← advance (.ofParsed p)) .postfixExpression)
  else if b.sees "[" then return .again (← arrayAccess recur p)
  else if b.sees "::" then return .again (← callableReference (.ofParsed p))
  else if b.sees "?" && b.adjacent && b.sees "::" 1 then return .again (← nullableLiteral p)
  else callTurn recur p

/-- A primary expression with its suffixes. A dot may begin the next line. -/
def postfixChain (recur : Recur) : Grammar Parsed := do
  iterate (fun p => do
    let b ← look
    let dot := b.operatorsCount ["?.", "."]
    if b.semicolonBefore then return .stop p
    else if 0 < dot then
      let m ← advanceGlued (.ofParsed p) dot
      return .again (← done (m.add (← memberSelector recur)) .binaryExpression)
    else if b.newlineBefore then return .stop p
    else postfixTurn recur p) (← primary recur)

/-- An operator, annotations or a label in front of an expression. -/
def unary (recur : Recur) : Grammar Parsed := do
  let b ← look
  if b.seesAny Keyword.prefixOperators then
    let m ← advance .empty
    done (m.add (← recur .unary)) .prefixExpression
  else if b.sees "@" then
    let m ← annotationSetsInto recur .empty
    done (m.add (← recur .unary)) .annotatedExpression
  else if b.seesName && b.sees "@" 1 && b.adjacent 1 then
    let m ← advanceTwice .empty
    done (m.add (← recur .unary)) .labeledExpression
  else postfixChain recur

/-- Operands joined from the left by operators of one level. -/
def binaryLevel (ops : List String) (crossesNewline : Bool) (operand : Grammar Parsed) : Grammar Parsed := do
  iterate (fun lhs => do
    let b ← look
    let count := b.operatorsCount ops
    if count = 0 || b.semicolonBefore || (!crossesNewline && b.newlineBefore) then return .stop lhs
    else
      let m ← advanceGlued (.ofParsed lhs) count
      return .again (← done (m.add (← operand)) .binaryExpression)) (← operand)

/-- Casts. -/
def castLevel (recur : Recur) : Grammar Parsed := do
  iterate (fun lhs => do
    let b ← look
    let count := b.operatorsCount ["as?", "as"]
    if count = 0 || b.semicolonBefore then return .stop lhs
    else
      let m ← advanceGlued (.ofParsed lhs) count
      return .again (← done (m.add (← recur (.typeReference false))) .binaryWithType)) (← recur .unary)

def multiplicative (recur : Recur) : Grammar Parsed := binaryLevel ["*", "/", "%"] false (castLevel recur)

def additive (recur : Recur) : Grammar Parsed := binaryLevel ["+", "-"] false (multiplicative recur)

def range (recur : Recur) : Grammar Parsed := binaryLevel ["..<", ".."] false (additive recur)

/-- Names between operands. -/
def namedLevel (recur : Recur) : Grammar Parsed := do
  iterateWhile (fun b => b.seesName && !b.separatedBefore) (fun lhs => do
    let m ← advance (.ofParsed lhs)
    done (m.add (← range recur)) .infixExpression) (← range recur)

def elvis (recur : Recur) : Grammar Parsed := binaryLevel ["?:"] true (namedLevel recur)

/-- Containment and type tests. -/
def testLevel (recur : Recur) : Grammar Parsed := do
  iterate (fun lhs => do
    let b ← look
    if b.separatedBefore then return .stop lhs
    else if b.seesAny ["is", "!is"] then
      let m ← advance (.ofParsed lhs)
      return .again (← done (m.add (← recur (.typeReference false))) .binaryWithType)
    else if b.seesAny ["in", "!in"] then
      let m ← advance (.ofParsed lhs)
      return .again (← done (m.add (← elvis recur)) .binaryExpression)
    else return .stop lhs) (← elvis recur)

/-- The operator of two signs comes first, since its half is an operator too. -/
def comparison (recur : Recur) : Grammar Parsed := binaryLevel ["<=", ">=", "<", ">"] false (testLevel recur)

def equality (recur : Recur) : Grammar Parsed :=
  binaryLevel ["===", "!==", "==", "!="] false (comparison recur)

def conjunction (recur : Recur) : Grammar Parsed := binaryLevel ["&&"] true (equality recur)

def disjunction (recur : Recur) : Grammar Parsed := binaryLevel ["||"] true (conjunction recur)

/-- Assignments nest to the right. -/
def expression (recur : Recur) : Grammar Parsed := do
  let lhs ← disjunction recur
  let b ← look
  let count := b.operatorsCount ["=", "+=", "-=", "*=", "/=", "%="]
  if count = 0 || b.separatedBefore then return lhs
  else
    let m ← advanceGlued (.ofParsed lhs) count
    done (m.add (← recur .expression)) .binaryExpression

/-- Annotations on a line of their own apply to the whole statement below. -/
def annotatedStatement (recur : Recur) : Grammar Parsed := do
  let m ← annotationSetsInto recur .empty
  if (← look).newlineBefore then done (m.add (← recur .expression)) .annotatedExpression
  else reject (.expected "a newline")

/-- An expression, or annotations and the one below them. -/
def expressionStatement (recur : Recur) : Grammar Parsed := do
  if (← look).sees "@" then
    match ← speculate (annotatedStatement recur) with
    | some p => return p
    | none => recur .expression
  else recur .expression

def statement (recur : Recur) : Grammar Parsed := do
  match ← declaration recur .statement with
  | some p => return p
  | none => expressionStatement recur

end KotlinSyntax.Grammar
