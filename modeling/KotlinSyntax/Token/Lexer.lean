import KotlinSyntax.Text.Units
import KotlinSyntax.Token
import KotlinSyntax.Token.Cut
import KotlinSyntax.Token.Word
import KotlinSyntax.Token.Number
import KotlinSyntax.Token.Comment
import KotlinSyntax.Token.Quote

/-! The lexer. A stack of modes remembers the open strings and templates; the empty stack is code at
the top level. Each step reads one token, which begins with the first character and goes on as a cut
of the rest says. Tokens read before an error are kept. -/
namespace KotlinSyntax

/-- Why the text at some offset is no token. -/
inductive LexCause
  | unterminatedComment
  | unterminatedString
  /-- A character of a string that is neither text nor a mark. -/
  | strayInString
  | malformedCharacter
  | malformedNumber
  | illegalEscape
  | unexpected (c : Char)
  deriving DecidableEq, Repr

def LexCause.description : LexCause → String
  | unterminatedComment => "unterminated comment"
  | unterminatedString | strayInString => "unterminated string literal"
  | malformedCharacter => "malformed character literal"
  | malformedNumber => "malformed number"
  | illegalEscape => "illegal escape sequence"
  | unexpected c => "unexpected character '" ++ String.singleton (Text.edge c) ++ "'"

structure LexError where
  cause : LexCause
  offset : Nat
  deriving DecidableEq, Repr

namespace Lexer

/-- What is open around the current position. -/
inductive Mode
  | quoted (raw : Bool)
  /-- Code in a template, with the braces opened in it. -/
  | template (braces : Nat)
  /-- The name of a short template. -/
  | name
  deriving DecidableEq, Repr

/-- One token of the text `c :: cs`: its kind, how it goes on behind `c`, and the modes after it. -/
structure Step (cs : List Char) where
  kind : TokenKind
  cut : Cut cs
  modes : List Mode

def openBrace : List Mode → List Mode
  | .template n :: outer => .template (n + 1) :: outer
  | modes => modes

/-- A brace closes the template if none is open in it. -/
def closeBrace : List Mode → TokenKind × List Mode
  | .template 0 :: outer => (.longTemplateEnd, outer)
  | .template (n + 1) :: outer => (.operator, .template n :: outer)
  | modes => (.operator, modes)

/-- A comment or an operator begins with a slash. -/
def slash (modes : List Mode) : (cs : List Char) → Except LexCause (Step cs)
  | '/' :: cs => .ok ⟨.lineComment, .cons '/' (lineComment cs), modes⟩
  | '*' :: cs =>
    match blockComment? 0 cs with
    | some k => .ok ⟨.blockComment, .cons '*' k, modes⟩
    | none => .error .unterminatedComment
  | cs =>
    match operator? '/' cs with
    | some k => .ok ⟨.operator, k, modes⟩
    | none => .error (.unexpected '/')

/-- Three quotes open a raw string. -/
def openString (modes : List Mode) (cs : List Char) : Step cs :=
  match rawOpen? cs with
  | some k => ⟨.openQuote, k, .quoted true :: modes⟩
  | none => ⟨.openQuote, .nothing cs, .quoted false :: modes⟩

/-- A name, a number, an operator or nothing that code may hold. -/
def plainCode (modes : List Mode) (c : Char) (cs : List Char) : Except LexCause (Step cs) :=
  if Text.startsName c then
    let k := Cut.span Text.continuesName cs
    .ok ⟨wordKind (c :: k.taken), k, modes⟩
  else if c.isDigit then
    match number? c cs with
    | some (kind, k) => .ok ⟨kind, k, modes⟩
    | none => .error .malformedNumber
  else
    match operator? c cs with
    | some k => .ok ⟨.operator, k, modes⟩
    | none => .error (.unexpected c)

def code (modes : List Mode) (c : Char) (cs : List Char) : Except LexCause (Step cs) :=
  if Text.isLayout c then .ok ⟨.whitespace, .span Text.isLayout cs, modes⟩
  else
    match c with
    | '/' => slash modes cs
    | '"' => .ok (openString modes cs)
    | '\x27' =>
      match charLiteral? cs with
      | some k => .ok ⟨.charLiteral, k, modes⟩
      | none => .error .malformedCharacter
    | '\x60' =>
      match quotedName? cs with
      | some k => .ok ⟨.identifier, k, modes⟩
      | none => .error (.unexpected c)
    | '!' =>
      match negatedWord? cs with
      | some k => .ok ⟨.keyword, k, modes⟩
      | none => plainCode modes c cs
    | ';' => .ok ⟨.semicolon, .nothing cs, modes⟩
    | '{' => .ok ⟨.operator, .nothing cs, openBrace modes⟩
    | '}' => .ok ⟨(closeBrace modes).1, .nothing cs, (closeBrace modes).2⟩
    | _ => plainCode modes c cs

/-- Text, or a template, which a dollar sign begins. -/
def stringPart (raw : Bool) (modes : List Mode) (c : Char) (cs : List Char) :
    Except LexCause (Step cs) :=
  if c == '$' && startsTemplate cs then
    match cs with
    | '{' :: cs => .ok ⟨.longTemplateStart, ⟨['{'], cs, rfl⟩, .template 0 :: modes⟩
    | cs => .ok ⟨.shortTemplateStart, .nothing cs, .name :: modes⟩
  else if isStringText raw c cs then .ok ⟨.stringText, stringText raw cs, modes⟩
  else .error .strayInString

def rawString (modes outer : List Mode) (c : Char) (cs : List Char) : Except LexCause (Step cs) :=
  match if c == '"' then rawClose? cs else none with
  | some k => .ok ⟨.closeQuote, k, outer⟩
  | none => stringPart true modes c cs

def plainString (modes outer : List Mode) (c : Char) (cs : List Char) : Except LexCause (Step cs) :=
  if c == '"' then .ok ⟨.closeQuote, .nothing cs, outer⟩
  else if c == '\\' then
    match escape? cs with
    | some k => .ok ⟨.escapeSequence, k, modes⟩
    | none => .error .illegalEscape
  else if c == '\n' || c == '\r' then .error .unterminatedString
  else stringPart false modes c cs

/-- Reads the token that begins with `c`. -/
def step (modes : List Mode) (c : Char) (cs : List Char) : Except LexCause (Step cs) :=
  match modes with
  | .quoted true :: outer => rawString modes outer c cs
  | .quoted false :: outer => plainString modes outer c cs
  | .name :: outer =>
    let k := Cut.span Text.continuesName cs
    .ok ⟨wordKind (c :: k.taken), k, outer⟩
  | _ => code modes c cs

end Lexer

/-- The tokens of a text, or those in front of the first error. -/
structure Lexing where
  tokens : List Token
  failure : Option LexError
  deriving DecidableEq, Repr

namespace Lexer

/-- Reads all tokens of a text that begins at `offset`. -/
def scan (modes : List Mode) (offset : Nat) : List Char → Lexing
  | [] => ⟨[], if modes.isEmpty then none else some ⟨.unterminatedString, offset⟩⟩
  | c :: cs =>
    match step modes c cs with
    | .error cause => ⟨[], some ⟨cause, offset⟩⟩
    | .ok s =>
      let text := c :: s.cut.taken
      let stop := offset + Text.width text
      let tail := scan s.modes stop s.cut.rest
      ⟨⟨s.kind, offset, stop, String.ofList text⟩ :: tail.tokens, tail.failure⟩
termination_by cs => cs.length
decreasing_by
  have := s.cut.rest_length_le
  simp only [List.length_cons]
  omega

def lex (source : String) : Lexing := scan [] 0 source.toList

/-- The tokens of a text that is one token after the other up to its end. -/
def tokenize (source : String) : Except LexError (List Token) :=
  match (lex source).failure with
  | some e => .error e
  | none => .ok (lex source).tokens

end Lexer

end KotlinSyntax
