import KotlinSyntax.Text.Paint

/-! Tokens: a kind, a span in the source and the text that fills the span. -/
namespace KotlinSyntax

inductive TokenKind
  | whitespace | lineComment | blockComment | semicolon
  | identifier | keyword | integerLiteral | floatLiteral | charLiteral
  | openQuote | closeQuote | stringText | escapeSequence
  | shortTemplateStart | longTemplateStart | longTemplateEnd
  | operator
  deriving DecidableEq, Repr, Inhabited

namespace TokenKind

def all : List TokenKind :=
  [.whitespace, .lineComment, .blockComment, .semicolon, .identifier, .keyword, .integerLiteral,
    .floatLiteral, .charLiteral, .openQuote, .closeQuote, .stringText, .escapeSequence,
    .shortTemplateStart, .longTemplateStart, .longTemplateEnd, .operator]

def name : TokenKind → String
  | whitespace => "WHITE_SPACE"
  | lineComment => "EOL_COMMENT"
  | blockComment => "BLOCK_COMMENT"
  | semicolon => "SEMICOLON"
  | identifier => "IDENTIFIER"
  | keyword => "KEYWORD"
  | integerLiteral => "INTEGER_LITERAL"
  | floatLiteral => "FLOAT_LITERAL"
  | charLiteral => "CHARACTER_LITERAL"
  | openQuote => "OPEN_QUOTE"
  | closeQuote => "CLOSING_QUOTE"
  | stringText => "REGULAR_STRING_PART"
  | escapeSequence => "ESCAPE_SEQUENCE"
  | shortTemplateStart => "SHORT_TEMPLATE_ENTRY_START"
  | longTemplateStart => "LONG_TEMPLATE_ENTRY_START"
  | longTemplateEnd => "LONG_TEMPLATE_ENTRY_END"
  | operator => "OPERATOR"

def ofName? (name : String) : Option TokenKind := all.find? (·.name == name)

/-- Blanks, comments and semicolons carry no structure of their own. -/
def isTrivia : TokenKind → Bool
  | whitespace | lineComment | blockComment | semicolon => true
  | _ => false

end TokenKind

structure Token where
  kind : TokenKind
  start : Nat
  stop : Nat
  text : String
  deriving DecidableEq, Repr, Inhabited

namespace Token

/-- One operator over the span of several tokens; none if there is no token. -/
def glue? (parts : List Token) : Option Token :=
  match parts.head?, parts.getLast? with
  | some first, some last =>
    some ⟨.operator, first.start, last.stop, String.join (parts.map (·.text))⟩
  | _, _ => none

/-- A line comment, and a blank with a line feed, end the line. -/
def breaksLine (t : Token) : Bool :=
  t.kind == .lineComment || (t.kind == .whitespace && t.text.toList.contains '\n')

/-- The text between two tags that name its kind. -/
def render (colors : Bool) (t : Token) : String :=
  Style.green.paint colors ("<" ++ t.kind.name ++ ">") ++ t.text ++
    Style.green.paint colors ("</" ++ t.kind.name ++ ">")

end Token

end KotlinSyntax
