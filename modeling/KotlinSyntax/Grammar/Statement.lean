import KotlinSyntax.Grammar.Argument

/-! Runs of statements, blocks and lambdas. -/
namespace KotlinSyntax.Grammar

/-- A statement, which must begin on a new line or behind a semicolon unless it is the first. -/
def statementTurn (recur : Recur) : Marker × Bool → Grammar (Marker × Bool)
  | (m, isFirst) => do
    let b ← look
    complainUnless (isFirst || b.separatedBefore) (.expected "a newline or semicolon")
    return (← recovering m (recur .statement), false)

/-- Statements up to the closing text. -/
def statementsInto (recur : Recur) (stops : Builder → Bool) (m : Marker) : Grammar Marker := do
  let (m, _) ← iterateWhile (fun b => !stops b && !b.atEnd) (statementTurn recur) (m, true)
  return m

def block (recur : Recur) : Grammar Parsed := withTrailingLambdas true do
  let m ← expect .empty openBrace
  let m ← statementsInto recur (·.sees closeBrace) m
  done (← expect m closeBrace) .block

/-- The body of a branch or loop: a block in braces, or one expression. -/
def controlBody (recur : Recur) : Grammar Parsed := do
  if (← look).sees openBrace then block recur else recur .expression

def lambdaParameterVariable (recur : Recur) : Grammar Parsed := do
  let m ← modified recur .parameter
  let m ← expectName m
  done (← typeSuffix recur m) .lambdaParameterVariable

def lambdaParameter (recur : Recur) : Grammar Parsed := do
  if (← look).sees "(" then
    let m ← advance .empty
    let m ← commaList m ")" (lambdaParameterVariable recur)
    let m ← expect m ")"
    done (← typeSuffix recur m) .lambdaParameter
  else done (Marker.empty.add (← lambdaParameterVariable recur)) .lambdaParameter

/-- Parameters, which an arrow must follow. -/
def lambdaParameters (recur : Recur) : Grammar Parsed := do
  let m ← commaList .empty "->" (lambdaParameter recur)
  let params ← done m .lambdaParameterList
  if (← look).sees "->" then return params else reject (.expectedText "->")

/-- Parameters and their arrow, or the arrow alone, if there is one. -/
def lambdaParametersInto (recur : Recur) (m : Marker) : Grammar Marker := do
  if (← look).sees "->" then advance m
  else
    match ← speculate (lambdaParameters recur) with
    | some params => advance (m.add params)
    | none => return m

/-- The statements of a lambda, if there are any. -/
def lambdaBody (recur : Recur) : Grammar (Option Parsed) := do
  let body ← statementsInto recur (·.sees closeBrace) .empty
  doneUnlessEmpty body .lambdaBody

def lambda (recur : Recur) : Grammar Parsed := withTrailingLambdas true do
  let m ← expect .empty openBrace
  let m ← lambdaParametersInto recur m
  let m := m.add? (← lambdaBody recur)
  done (← expect m closeBrace) .lambdaExpression

end KotlinSyntax.Grammar
