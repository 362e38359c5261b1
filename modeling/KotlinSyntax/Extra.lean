import KotlinSyntax.Node.Error

/-! Extras: the text between constructs that a tree does not hold itself. An extras map keeps, for some
nodes, what stands before the node, inside it before its end, and after it. Nodes are told apart by
their numbers, so a map says nothing about the nodes of another tree. -/
namespace KotlinSyntax

inductive Extra
  | whitespace (text : String)
  | comment (text : String) (startsLine endsLine : Bool)
  | semicolon
  | trailingComma
  deriving DecidableEq, Repr, Inhabited

namespace Extra

def text : Extra → String
  | whitespace text => text
  | comment text _ _ => text
  | semicolon => ";"
  | trailingComma => ","

def kind : Extra → Kind
  | whitespace _ => .whitespace
  | comment .. => .comment
  | semicolon => .semicolon
  | trailingComma => .trailingComma

def scalars : Extra → List (Field × Scalar)
  | comment text startsLine endsLine =>
    [(.text, .text text), (.startsLine, .flag startsLine), (.endsLine, .flag endsLine)]
  | e => [(.text, .text e.text)]

def isWhitespace : Extra → Bool
  | whitespace _ => true
  | _ => false

/-- The extra itself, if it breaks no demand of its kind. -/
def checked (e : Extra) : Except NodeError Extra := do
  let _ ← Node.make 0 e.kind e.scalars []
  return e

end Extra

/-- What stands around the parts of one node. -/
structure Surroundings where
  before : List Extra := []
  within : List Extra := []
  after : List Extra := []
  deriving DecidableEq, Repr, Inhabited

/-- Surroundings by the number of the node, at most one entry for each. -/
structure ExtrasMap where
  entries : List (Nat × Surroundings) := []
  deriving Repr, Inhabited

namespace ExtrasMap

def empty : ExtrasMap := {}

def size (m : ExtrasMap) : Nat := m.entries.length

def get? (m : ExtrasMap) (id : Nat) : Option Surroundings := m.entries.lookup id

/-- The surroundings of a node, empty where nothing is kept. -/
def get (m : ExtrasMap) (id : Nat) : Surroundings := (m.get? id).getD {}

def contains (m : ExtrasMap) (id : Nat) : Bool := (m.get? id).isSome

def before (m : ExtrasMap) (n : Node) : List Extra := (m.get n.id).before

def within (m : ExtrasMap) (n : Node) : List Extra := (m.get n.id).within

def after (m : ExtrasMap) (n : Node) : List Extra := (m.get n.id).after

def erase (m : ExtrasMap) (id : Nat) : ExtrasMap := ⟨m.entries.filter (·.1 != id)⟩

/-- Puts surroundings in the place of those of the number, or in front. -/
def insert (m : ExtrasMap) (id : Nat) (s : Surroundings) : ExtrasMap :=
  if m.contains id then ⟨m.entries.map fun e => if e.1 == id then (id, s) else e⟩
  else ⟨(id, s) :: m.entries⟩

def setBefore (m : ExtrasMap) (id : Nat) (es : List Extra) : ExtrasMap :=
  m.insert id { m.get id with before := es }

def setWithin (m : ExtrasMap) (id : Nat) (es : List Extra) : ExtrasMap :=
  m.insert id { m.get id with within := es }

def setAfter (m : ExtrasMap) (id : Nat) (es : List Extra) : ExtrasMap :=
  m.insert id { m.get id with after := es }

/-- Whether something is kept for the first node that the second does not have yet. -/
def canMove (m : ExtrasMap) (source target : Nat) : Bool := source != target && m.contains source

/-- Hands all that is kept for one node over to another. -/
def move (m : ExtrasMap) (source target : Nat) : ExtrasMap :=
  match m.get? source with
  | some s => if source == target then m else (m.erase source).insert target s
  | none => m

end ExtrasMap

end KotlinSyntax
