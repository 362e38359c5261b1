import KotlinSyntax.Text.Decimal

/-! Values of no particular type, as they are handed to a log or named in a message. -/
namespace KotlinSyntax

inductive Value
  | null
  | bool (b : Bool)
  | number (n : Number)
  | text (s : String)
  | list (items : List Value)
  | record (fields : List (String × Value))
  deriving Repr, Inhabited

namespace Value

/-- The place that a key of digits asks for: a number of 32 bits, the last one excluded, that is written
without leading zeros. -/
def index? (key : String) : Option Nat :=
  match key.toNat? with
  | some n => if toString n == key && n < 0xffffffff then some n else none
  | none => none

/-- A key that comes again keeps its place and has the later value. -/
def setField (k : String) (v : Value) : List (String × Value) → List (String × Value)
  | [] => [(k, v)]
  | (k', v') :: rest => if k == k' then (k, v) :: rest else (k', v') :: setField k v rest

/-- A record of the fields in the order given, but those that ask for a place come first, in the order of
their places. -/
def ofFields (fields : List (String × Value)) : Value :=
  let fields := fields.foldl (fun acc f => setField f.1 f.2 acc) []
  let placed := fields.filterMap fun f => (index? f.1).map fun i => (i, f)
  let sorted := placed.mergeSort fun a b => a.1 ≤ b.1
  record (sorted.map (·.2) ++ fields.filter fun f => (index? f.1).isNone)

def boolText (b : Bool) : String := if b then "true" else "false"

mutual

/-- The plain words of a value that is an item of a list: an absent one leaves its place empty, and
the items of a list are joined by commas. -/
def item : Value → String
  | null => ""
  | bool b => boolText b
  | number n => n.render
  | text s => s
  | list items => String.intercalate "," (itemAll items)
  | record _ => "[object Object]"

def itemAll : List Value → List String
  | [] => []
  | v :: vs => item v :: itemAll vs

end

/-- The plain words of a value on its own. -/
def plain : Value → String
  | null => "null"
  | v => v.item

/-- Values in one line, with a blank between two of them. -/
def line (vs : List Value) : String := String.intercalate " " (itemAll vs)

def hexDigit (n : Nat) : Char := if n < 10 then Char.ofNat (48 + n) else Char.ofNat (87 + n)

/-- How a character stands between quotes: five controls by letters, the other controls by number. -/
def quoteChar (c : Char) : List Char :=
  match c with
  | '"' => ['\\', '"']
  | '\\' => ['\\', '\\']
  | '\n' => ['\\', 'n']
  | '\r' => ['\\', 'r']
  | '\t' => ['\\', 't']
  | '\x08' => ['\\', 'b']
  | '\x0c' => ['\\', 'f']
  | c =>
    if c.toNat < 0x20 then ['\\', 'u', '0', '0', hexDigit (c.toNat / 16), hexDigit (c.toNat % 16)]
    else [c]

def quote (s : String) : String := "\"" ++ String.ofList (s.toList.flatMap quoteChar) ++ "\""

mutual

/-- The value written out in full. -/
def written : Value → String
  | null => "null"
  | bool b => boolText b
  | number (.finite n) => (Number.finite n).render
  | number (.infinite _) => "null"
  | text s => quote s
  | list items => "[" ++ String.intercalate "," (writtenAll items) ++ "]"
  | record fields => "\x7b" ++ String.intercalate "," (writtenFields fields) ++ "\x7d"

def writtenAll : List Value → List String
  | [] => []
  | v :: vs => written v :: writtenAll vs

def writtenFields : List (String × Value) → List String
  | [] => []
  | (k, v) :: rest => (quote k ++ ":" ++ written v) :: writtenFields rest

end

/-- How a message names a value: by its name where it has one, else written out in full. -/
def describe : Option Value → String
  | none => "undefined"
  | some v =>
    match v with
    | record fields =>
      match fields.lookup "name" with
      | some name => name.plain
      | none => v.written
    | _ => v.written

end Value

end KotlinSyntax
