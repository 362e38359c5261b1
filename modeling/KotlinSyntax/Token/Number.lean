import KotlinSyntax.Token
import KotlinSyntax.Token.Cut
import KotlinSyntax.Token.Word

/-! Number literals. Underscores may stand behind the first digit of any run of digits. -/
namespace KotlinSyntax.Lexer

/-- Marks of unsigned and long integers. -/
def integerMark : (cs : List Char) → Cut cs
  | 'u' :: 'L' :: cs => ⟨['u', 'L'], cs, rfl⟩
  | 'U' :: 'L' :: cs => ⟨['U', 'L'], cs, rfl⟩
  | 'u' :: cs => ⟨['u'], cs, rfl⟩
  | 'U' :: cs => ⟨['U'], cs, rfl⟩
  | 'L' :: cs => ⟨['L'], cs, rfl⟩
  | cs => .nothing cs

def floatMark : (cs : List Char) → Cut cs
  | 'f' :: cs => ⟨['f'], cs, rfl⟩
  | 'F' :: cs => ⟨['F'], cs, rfl⟩
  | cs => .nothing cs

/-- Digits of one sort with underscores between them. -/
def digitRun (isDigit : Char → Bool) (cs : List Char) : Cut cs :=
  .span (fun c => isDigit c || c == '_') cs

/-- A run with at least one digit. -/
def digits? (isDigit : Char → Bool) : (cs : List Char) → Option (Cut cs)
  | c :: cs => if isDigit c then some (.cons c (digitRun isDigit cs)) else none
  | [] => none

/-- Behind a leading zero: the letter of the base, digits of the base and a mark. -/
def basedInteger? (lower upper : Char) (isDigit : Char → Bool) : (cs : List Char) → Option (Cut cs)
  | x :: cs =>
    if x == lower || x == upper then
      (digits? isDigit cs).map fun ds => .cons x (ds.append (integerMark ds.rest))
    else none
  | [] => none

/-- A sign is optional in an exponent. -/
def signedDigits? : (cs : List Char) → Option (Cut cs)
  | s :: cs =>
    if s == '+' || s == '-' then (digits? Char.isDigit cs).map (.cons s) else digits? Char.isDigit (s :: cs)
  | [] => none

def exponent? : (cs : List Char) → Option (Cut cs)
  | e :: cs => if e == 'e' || e == 'E' then (signedDigits? cs).map (.cons e) else none
  | [] => none

def fraction? : (cs : List Char) → Option (Cut cs)
  | '.' :: cs => (digits? Char.isDigit cs).map (.cons '.')
  | _ => none

/-- What makes digits a float: a fraction, an exponent or the mark. -/
def floatPart? (cs : List Char) : Option (Cut cs) :=
  match fraction? cs with
  | some k =>
    let k := k.append ((exponent? k.rest).getD (.nothing _))
    some (k.append (floatMark k.rest))
  | none =>
    match exponent? cs with
    | some k => some (k.append (floatMark k.rest))
    | none => if (floatMark cs).taken.isEmpty then none else some (floatMark cs)

/-- The rest of the number that begins with `c`. -/
def number? (c : Char) (cs : List Char) : Option (TokenKind × Cut cs) :=
  let based :=
    if c == '0' then
      (basedInteger? 'x' 'X' isHexDigit cs).or (basedInteger? 'b' 'B' (fun d => d == '0' || d == '1') cs)
    else none
  match based with
  | some k => some (.integerLiteral, k)
  | none =>
    if c.isDigit then
      let whole := digitRun Char.isDigit cs
      match floatPart? whole.rest with
      | some k => some (.floatLiteral, whole.append k)
      | none => some (.integerLiteral, whole.append (integerMark whole.rest))
    else none

end KotlinSyntax.Lexer
