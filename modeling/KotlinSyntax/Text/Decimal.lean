/-! Integers of double precision and their decimal text. Of every integer the 53 leading bits are kept:
a larger one is rounded to the nearest multiple of a power of two, and a tie goes to the even multiple.
The text has the fewest digits that tell a number from its neighbours. -/
namespace KotlinSyntax

inductive Number
  | finite (n : Int)
  /-- Beyond the largest number that can be held. -/
  | infinite (negative : Bool)
  deriving DecidableEq, Repr, Inhabited

namespace Number

/-- The distance between neighbours at the size of `n`. -/
def grain (n : Nat) : Nat := Nat.pow 2 (n.log2 - 52)

/-- The nearest number that can be held. -/
def nearest (n : Nat) : Nat :=
  let low := n / grain n
  let twice := 2 * (n % grain n)
  let up := decide (grain n < twice) || (twice == grain n && low % 2 == 1)
  (if up then low + 1 else low) * grain n

def ofInt (n : Int) : Number :=
  let size := nearest n.natAbs
  if Nat.pow 2 1024 ≤ size then .infinite (decide (n < 0))
  else .finite (if n < 0 then -(size : Int) else size)

/-- The multiple of `10 ^ j` next to the number that reads back as it, without its zeros. Where both do,
the nearer one counts. -/
def candidate? (n j : Nat) : Option Nat :=
  let unit := Nat.pow 10 j
  let low := n / unit
  let reads (s : Nat) : Bool := nearest (s * unit) == n
  match reads low, reads (low + 1) with
  | true, true => some (if n - low * unit ≤ (low + 1) * unit - n then low else low + 1)
  | true, false => some low
  | false, true => some (low + 1)
  | false, false => none

/-- The fewest digits for the number, with how many zeros follow them, at most `j`. -/
def fewest (n : Nat) : Nat → Nat × Nat
  | 0 => (n, 0)
  | j + 1 =>
    match candidate? n (j + 1) with
    | some s => (s, j + 1)
    | none => fewest n j

/-- How many places are written out before a power of ten takes over. -/
def longest : Nat := 21

/-- Digits with a power of ten. -/
def scientific (digits : List Char) (places : Nat) : String :=
  let power := "e+" ++ toString (places - 1)
  match digits with
  | [d] => String.singleton d ++ power
  | d :: ds => String.singleton d ++ "." ++ String.ofList ds ++ power
  | [] => power

def renderSize (n : Nat) : String :=
  if n == 0 then "0"
  else
    let (s, zeros) := fewest n (toString n).length
    let digits := (toString s).toList
    if digits.length + zeros ≤ longest then String.ofList (digits ++ List.replicate zeros '0')
    else scientific digits (digits.length + zeros)

def render : Number → String
  | finite n => (if n < 0 then "-" else "") ++ renderSize n.natAbs
  | infinite negative => if negative then "-Infinity" else "Infinity"

/-- The decimal text of a count. -/
def decimal (n : Nat) : String := (ofInt n).render

end Number

end KotlinSyntax
