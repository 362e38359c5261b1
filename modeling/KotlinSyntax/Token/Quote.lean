import KotlinSyntax.Text.Letter
import KotlinSyntax.Token.Cut
import KotlinSyntax.Token.Word

/-! The inside of string literals. A raw string ends at the last three quotes of a run and knows no
escapes; a plain one ends at the first quote and holds no line end. -/
namespace KotlinSyntax.Lexer

/-- Whether a dollar sign in front of this text begins a template. -/
def startsTemplate : List Char → Bool
  | c :: _ => c == '{' || Text.startsName c
  | [] => false

/-- Whether a quote in front of this text belongs to a raw string: fewer than two quotes follow, or more. -/
def quoteIsText : List Char → Bool
  | '"' :: '"' :: '"' :: _ => true
  | '"' :: '"' :: _ => false
  | _ => true

/-- Whether a character stands for itself in a string, seen with the text behind it. -/
def isStringText (raw : Bool) (c : Char) (cs : List Char) : Bool :=
  if c == '$' then !startsTemplate cs
  else if c == '"' then raw && quoteIsText cs
  else raw || (c != '\\' && c != '\r' && c != '\n')

/-- The longest run of characters that stand for themselves. -/
def stringText (raw : Bool) : (cs : List Char) → Cut cs
  | [] => .nothing []
  | c :: cs => if isStringText raw c cs then .cons c (stringText raw cs) else .nothing _

/-- Behind the first quote: two more quotes. -/
def rawOpen? : (cs : List Char) → Option (Cut cs)
  | '"' :: '"' :: cs => some ⟨['"', '"'], cs, rfl⟩
  | _ => none

/-- Behind the first quote: two more quotes, and then no other. -/
def rawClose? : (cs : List Char) → Option (Cut cs)
  | '"' :: '"' :: cs => if cs.head? == some '"' then none else some ⟨['"', '"'], cs, rfl⟩
  | _ => none

/-- A quote closes a raw string or is text in it. -/
theorem rawClose?_eq_none (cs : List Char) : rawClose? cs = none ↔ quoteIsText cs = true := by
  unfold rawClose? quoteIsText
  split
  · rename_i cs
    rcases cs with _ | ⟨c, cs⟩
    · simp
    · by_cases quote : c = '"' <;> simp [quote]
  · rename_i other
    split
    · exact absurd rfl (other _)
    · exact absurd rfl (other _)
    · simp

/-- Behind a backslash: a numbered character or one of the named ones. -/
def escape? : (cs : List Char) → Option (Cut cs)
  | 'u' :: cs => (fourHexDigits? cs).map (.cons 'u')
  | c :: cs =>
    if ['t', 'b', 'n', 'r', '\x27', '"', '\\', '$'].contains c then some ⟨[c], cs, rfl⟩ else none
  | [] => none

end KotlinSyntax.Lexer
