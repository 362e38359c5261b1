import KotlinSyntax.Grammar.Control

/-! Primary expressions: names, literals, strings and what stands in brackets. -/
namespace KotlinSyntax.Grammar

def shortTemplate : Grammar Parsed := do done (← advanceTwice .empty) .shortTemplate

def longTemplate (recur : Recur) : Grammar Parsed := do
  let m ← advance .empty
  let m := m.add (← withTrailingLambdas true (recur .expression))
  let m ← expectKind m .longTemplateEnd "'\x7d'"
  done m .longTemplate

/-- A template, or text, of a string. -/
def stringPart (recur : Recur) (m : Marker) : Grammar Marker := do
  let b ← look
  if b.seesKind .shortTemplateStart then return m.add (← shortTemplate)
  else if b.seesKind .longTemplateStart then return m.add (← longTemplate recur)
  else if b.seesKind .stringText || b.seesKind .escapeSequence then advance m
  else reject .unterminatedTemplate

def stringTemplate (recur : Recur) : Grammar Parsed := do
  let m ← advance .empty
  let m ← iterateWhile (!·.seesKind .closeQuote) (stringPart recur) m
  done (← advance m) .stringTemplate

/-- A reference to a member or a class behind a double colon. The marker holds the receiver, if any. -/
def callableReference (m : Marker) : Grammar Parsed := do
  let m ← advance m
  if (← look).sees "class" then done (← advance m) .classLiteralExpression
  else done (← expectName m) .callableReferenceExpression

def holdsTypeArguments (p : Parsed) : Bool := p.element.holds (· == .typeArgumentList)

/-- A type with arguments in front of a double colon. -/
def typeReceiver (recur : Recur) : Grammar Parsed := do
  let type ← userType recur false
  if (← look).sees "::" && holdsTypeArguments type then return type
  else reject (.not "a type receiver")

/-- A name, or a reference to a member of the type that it begins. -/
def nameExpression (recur : Recur) : Grammar Parsed := do
  let b ← look
  if b.sees "<" 1 || b.sees "." 1 then
    match ← speculate (typeReceiver recur) with
    | some type => callableReference (.ofParsed type)
    | none => token
  else token

def parenthesized (recur : Recur) : Grammar Parsed := withTrailingLambdas true do
  let m ← advance .empty
  let m := m.add (← recur .expression)
  done (← expect m ")") .parenthesized

def collectionLiteral (recur : Recur) : Grammar Parsed := withTrailingLambdas true do
  let m ← advance .empty
  let m ← commaList m "]" (recur .expression)
  done (← expect m "]") .collectionLiteralExpression

/-- Digits behind a dot are no number here. -/
def dotNumber : Grammar Parsed := do
  let b ← look
  if b.seesKind .integerLiteral 1 && b.adjacent 1 then
    done (← advanceTwice .empty) .unsupported (some "float literal without integer part")
  else reject (.unexpected ".")

def bracketExpression (recur : Recur) (text : String) : Grammar Parsed :=
  if text == "(" then parenthesized recur
  else if text == openBrace then lambda recur
  else if text == "[" then collectionLiteral recur
  else if text == "::" then callableReference .empty
  else if text == "." then dotNumber
  else reject (.unexpected text)

def primary (recur : Recur) : Grammar Parsed := do
  match (← look).peek with
  | none => reject .unexpectedEnd
  | some t =>
    match t.kind with
    | .identifier => nameExpression recur
    | .integerLiteral | .floatLiteral | .charLiteral => token
    | .openQuote => stringTemplate recur
    | .keyword => keywordExpression recur t.text
    | .operator => bracketExpression recur t.text
    | _ => reject (.unexpected t.text)

end KotlinSyntax.Grammar
