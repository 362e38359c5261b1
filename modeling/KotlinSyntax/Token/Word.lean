import KotlinSyntax.Text.Letter
import KotlinSyntax.Text.Blank
import KotlinSyntax.Text.Units
import KotlinSyntax.Token
import KotlinSyntax.Token.Cut

/-! Names, keywords, operators and character literals. Each scanner looks at the text behind the first
character of a token and says how far the token goes on. -/
namespace KotlinSyntax.Lexer

/-- Words that are never names. -/
def hardKeywords : List String :=
  ["as", "break", "class", "continue", "do", "else", "false", "for", "fun", "if", "in", "interface",
    "is", "null", "object", "package", "return", "super", "this", "throw", "true", "try", "typealias",
    "typeof", "val", "var", "when", "while"]

/-- The kind of a word, told by its spelling. -/
def wordKind (word : List Char) : TokenKind :=
  if hardKeywords.contains (String.ofList word) then .keyword else .identifier

/-- The longest spelling comes first wherever one begins another. -/
def operators : List String :=
  ["===", "!==", "..<", "->", "::", "..", "++", "--", "&&", "||", "!!", "!=", "==", "<=", "+=", "-=",
    "*=", "/=", "%=", "+", "-", "*", "/", "%", "=", "<", ">", "!", "?", ".", ",", ":", "(", ")", "[",
    "]", "@"]

/-- The rest of the operator that begins with `c`. -/
def operator? (c : Char) (cs : List Char) : Option (Cut cs) :=
  (operators.find? fun o => o.toList.isPrefixOf (c :: cs)).map fun o => .first (o.length - 1) cs

def closeName? : (cs : List Char) → Option (Cut cs)
  | '\x60' :: cs => some ⟨['\x60'], cs, rfl⟩
  | _ => none

/-- A name in backticks: at least one character, and no line end. -/
def quotedName? (cs : List Char) : Option (Cut cs) :=
  let name := Cut.span (fun c => c != '\x60' && c != '\r' && c != '\n') cs
  if name.taken.isEmpty then none else (closeName? name.rest).map name.append

/-- After `!`: a containment or type test, unless the word goes on. -/
def negatedWord? : (cs : List Char) → Option (Cut cs)
  | 'i' :: c :: cs =>
    if (c == 'n' || c == 's') && !(cs.head?.any Text.continuesName) then some (.first 2 _) else none
  | _ => none

def isHexDigit (c : Char) : Bool :=
  c.isDigit || ('a' ≤ c && c ≤ 'f') || ('A' ≤ c && c ≤ 'F')

/-- The four digits of a numbered character. -/
def fourHexDigits? : (cs : List Char) → Option (Cut cs)
  | a :: b :: c :: d :: cs =>
    if [a, b, c, d].all isHexDigit then some ⟨[a, b, c, d], cs, rfl⟩ else none
  | _ => none

def closeChar? : (cs : List Char) → Option (Cut cs)
  | '\x27' :: cs => some ⟨['\x27'], cs, rfl⟩
  | _ => none

/-- After the quote: a backslash, the letter u and four digits. -/
def numberedChar? : (cs : List Char) → Option (Cut cs)
  | '\\' :: 'u' :: cs => do
    let digits ← fourHexDigits? cs
    let close ← closeChar? digits.rest
    return .cons '\\' (.cons 'u' (digits.append close))
  | _ => none

/-- After the quote: a backslash and any one unit that does not end the line. -/
def escapedChar? : (cs : List Char) → Option (Cut cs)
  | '\\' :: c :: cs =>
    if Text.isSingle c && !Text.isLineEnd c then
      (closeChar? cs).map fun close => .cons '\\' (.cons c close)
    else none
  | _ => none

/-- After the quote: any one unit but a quote, a backslash and the line ends of ASCII. -/
def plainChar? : (cs : List Char) → Option (Cut cs)
  | c :: cs =>
    if Text.isSingle c && !(['\x27', '\\', '\r', '\n'].contains c) then
      (closeChar? cs).map (.cons c)
    else none
  | _ => none

def charLiteral? (cs : List Char) : Option (Cut cs) :=
  (numberedChar? cs).or ((escapedChar? cs).or (plainChar? cs))

end KotlinSyntax.Lexer
