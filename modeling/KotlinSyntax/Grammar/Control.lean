import KotlinSyntax.Grammar.Declaration

/-! Branches, loops, jumps and other expressions that a keyword begins. -/
namespace KotlinSyntax.Grammar

/-- A label touches the word in front of it and its own name. -/
def labelInto (m : Marker) : Grammar Marker := do
  let b ← look
  if b.sees "@" && b.adjacent && b.adjacent 1 then
    let m ← advance m
    expectName m
  else return m

def thisExpression : Grammar Parsed := do
  let m ← advance .empty
  done (← labelInto m) .thisExpression

/-- The type that a call of `super` picks, if a bracket follows the word directly. -/
def superTypeInto (recur : Recur) (m : Marker) : Grammar Marker := do
  let b ← look
  if b.sees "<" && b.adjacent then
    let m ← advance m
    let m := m.add (← recur (.typeReference false))
    expect m ">"
  else return m

def superExpression (recur : Recur) : Grammar Parsed := do
  let m ← advance .empty
  let m ← superTypeInto recur m
  done (← labelInto m) .superExpression

/-- Whether what follows `return` belongs to it. -/
def startsOperand (b : Builder) : Bool :=
  !b.atEnd && !b.separatedBefore && !b.seesKind .longTemplateEnd &&
    !b.seesAny [")", "]", closeBrace, ",", "->", "else"]

def throwExpression (recur : Recur) : Grammar Parsed := do
  let m ← advance .empty
  done (m.add (← recur .expression)) .throwExpression

def returnExpression (recur : Recur) : Grammar Parsed := do
  let m ← advance .empty
  let m ← labelInto m
  if startsOperand (← look) then done (m.add (← recur .expression)) .returnExpression
  else done m .returnExpression

/-- A jump with no operand. -/
def jump (kind : RawKind) : Grammar Parsed := do
  let m ← advance .empty
  done (← labelInto m) kind

/-- A body that is just a semicolon has no node of its own. -/
def emptyBody (m : Marker) (what : String) : Grammar (Option Parsed) := do
  let b ← look
  if b.semicolonBefore then
    note (what ++ " with an empty body at offset " ++ toString b.offset)
    some <$> done m .unsupported (some (what ++ " with an empty body"))
  else return none

def conditionInto (recur : Recur) (m : Marker) : Grammar Marker := withTrailingLambdas true do
  let m ← expect m "("
  let m := m.add (← recur .expression)
  expect m ")"

def elseInto (recur : Recur) (m : Marker) : Grammar Parsed := do
  let m ← advance m
  match ← emptyBody m "else" with
  | some empty => return empty
  | none => done (m.add (← controlBody recur)) .ifExpression

def ifExpression (recur : Recur) : Grammar Parsed := do
  let m ← advance .empty
  let m ← conditionInto recur m
  match ← emptyBody m "if" with
  | some empty => return empty
  | none =>
    let m := m.add (← controlBody recur)
    let b ← look
    if b.sees "else" && !b.sees "->" 1 then elseInto recur m else done m .ifExpression

def whenCondition (recur : Recur) : Grammar Parsed := do
  let b ← look
  if b.seesAny ["in", "!in"] then
    let m ← advance .empty
    done (m.add (← recur .expression)) .whenCondition
  else if b.seesAny ["is", "!is"] then
    let m ← advance .empty
    done (m.add (← recur (.typeReference false))) .whenCondition
  else done (Marker.empty.add (← recur .expression)) .whenCondition

/-- Conditions with commas between them, or `else`. -/
def whenConditions (recur : Recur) : Grammar Marker := do
  if (← look).sees "else" then advance .empty else commaList .empty "->" (whenCondition recur)

def whenEntry (recur : Recur) : Grammar Parsed := do
  let m ← whenConditions recur
  let m ← expect m "->"
  done (m.add (← controlBody recur)) .whenEntry

def whenSubject (recur : Recur) : Grammar Parsed := do
  if (← look).seesAny ["val", "var"] then propertyDeclaration recur .empty else recur .expression

/-- The subject in parentheses, if they are there. -/
def whenSubjectInto (recur : Recur) (m : Marker) : Grammar Marker := do
  if (← look).sees "(" then
    let m ← advance m
    let m := m.add (← whenSubject recur)
    expect m ")"
  else return m

def whenExpression (recur : Recur) : Grammar Parsed := do
  let m ← advance .empty
  let m ← whenSubjectInto recur m
  let m ← expect m openBrace
  let m ← iterateWhile (fun b => !b.sees closeBrace && !b.atEnd) (recovering · (whenEntry recur)) m
  done (← expect m closeBrace) .whenExpression

def catchClause (recur : Recur) : Grammar Parsed := do
  let m ← advance .empty
  let m := m.add (← valueParameters recur)
  done (m.add (← block recur)) .catchClause

def tryExpression (recur : Recur) : Grammar Parsed := do
  let m ← advance .empty
  let m := m.add (← block recur)
  let m ← iterateWhile (·.sees "catch") (fun m => return m.add (← catchClause recur)) m
  if (← look).sees "finally" then
    let m ← advance m
    done (m.add (← block recur)) .tryExpression
  else done m .tryExpression

/-- The body of a loop ends it. -/
def loopBody (recur : Recur) (m : Marker) (what : String) (kind : RawKind) : Grammar Parsed := do
  match ← emptyBody m what with
  | some empty => return empty
  | none => done (m.add (← controlBody recur)) kind

def forLoop (recur : Recur) : Grammar Parsed := do
  let m ← advance .empty
  let m ← expect m "("
  let m := m.add (← lambdaParameter recur)
  let m ← expect m "in"
  let m := m.add (← recur .expression)
  let m ← expect m ")"
  loopBody recur m "for" .forLoop

def whileLoop (recur : Recur) : Grammar Parsed := do
  let m ← advance .empty
  let m ← conditionInto recur m
  loopBody recur m "while" .whileLoop

def doWhileLoop (recur : Recur) : Grammar Parsed := do
  let m ← advance .empty
  let m := m.add (← controlBody recur)
  let m ← expect m "while"
  done (← conditionInto recur m) .doWhileLoop

def keywordExpression (recur : Recur) (word : String) : Grammar Parsed :=
  match word with
  | "true" | "false" | "null" => token
  | "this" => thisExpression
  | "super" => superExpression recur
  | "if" => ifExpression recur
  | "when" => whenExpression recur
  | "try" => tryExpression recur
  | "for" => forLoop recur
  | "while" => whileLoop recur
  | "do" => doWhileLoop recur
  | "throw" => throwExpression recur
  | "return" => returnExpression recur
  | "continue" => jump .continueExpression
  | "break" => jump .breakExpression
  | "object" => classDeclaration recur .empty false
  | "fun" => functionDeclaration recur .empty
  | word => reject (.unexpected word)

end KotlinSyntax.Grammar
