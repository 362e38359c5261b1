import KotlinSyntax.Token.Cut

/-! Comments. A block comment may hold block comments, each closed by its own mark. -/
namespace KotlinSyntax.Lexer

/-- A line comment goes up to the line end. -/
def lineComment (cs : List Char) : Cut cs := .span (fun c => c != '\r' && c != '\n') cs

/-- The rest of a block comment around which `depth` more are open. -/
def blockComment? : Nat → (cs : List Char) → Option (Cut cs)
  | depth, '/' :: '*' :: cs => (blockComment? (depth + 1) cs).map fun k => .cons '/' (.cons '*' k)
  | 0, '*' :: '/' :: cs => some ⟨['*', '/'], cs, rfl⟩
  | depth + 1, '*' :: '/' :: cs => (blockComment? depth cs).map fun k => .cons '*' (.cons '/' k)
  | depth, c :: cs => (blockComment? depth cs).map (.cons c)
  | _, [] => none

end KotlinSyntax.Lexer
