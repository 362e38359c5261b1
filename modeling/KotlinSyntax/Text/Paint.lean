/-! Terminal styles. A painted text stands between the code of its style and the code that resets it;
with colours off it is left as it is. -/
namespace KotlinSyntax

inductive Style
  | black | red | green | yellow | blue | magenta | cyan | white
  | reset | bold | underline | reversed
  deriving DecidableEq, Repr

namespace Style

def all : List Style :=
  [.black, .red, .green, .yellow, .blue, .magenta, .cyan, .white, .reset, .bold, .underline, .reversed]

def name : Style → String
  | black => "black" | red => "red" | green => "green" | yellow => "yellow"
  | blue => "blue" | magenta => "magenta" | cyan => "cyan" | white => "white"
  | reset => "reset" | bold => "bold" | underline => "underline" | reversed => "reversed"

/-- The number between the bracket and the letter of the escape sequence. -/
def number : Style → String
  | black => "30" | red => "31" | green => "32" | yellow => "33"
  | blue => "34" | magenta => "35" | cyan => "36" | white => "37"
  | reset => "0" | bold => "1" | underline => "4" | reversed => "7"

def code (s : Style) : String := "\x1b[" ++ s.number ++ "m"

def paint (s : Style) (colors : Bool) (text : String) : String :=
  if colors then s.code ++ text ++ reset.code else text

end Style

end KotlinSyntax
