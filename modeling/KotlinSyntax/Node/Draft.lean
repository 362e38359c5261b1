import KotlinSyntax.Node.Walk

/-! Drafts: trees that are yet to be built. Building gives each node a number of its own, children
before their parent, and checks each node as it is made. -/
namespace KotlinSyntax

inductive Draft
  | mk (tag : Tag) (scalars : List (Field × Scalar)) (children : List (Field × Draft))
  deriving Repr, Inhabited

/-- Building hands out numbers. -/
abbrev Build := StateT Nat (Except NodeError)

namespace Node

/-- Children in the order of the kind's fields. -/
def arrange (k : Kind) (children : List (Field × Node)) : List (Field × Node) :=
  k.slots.flatMap fun s => children.filter (·.1 == s.field)

/-- Some kinds have one text only. -/
def fixedScalars (k : Kind) (given : List (Field × Scalar)) : List (Field × Scalar) :=
  match k with
  | .semicolon => [(.text, .text ";")]
  | .trailingComma => [(.text, .text ",")]
  | .dynamicType => []
  | _ => given

/-- A new node. One of an unknown name is taken as it is. -/
def build (tag : Tag) (scalars : List (Field × Scalar)) (children : List (Field × Node)) :
    Build Node := do
  let id ← getModify (· + 1)
  match tag with
  | .kind k => (make id k (fixedScalars k scalars) (arrange k children) : Except NodeError Node)
  | .unknown _ => return mk id tag scalars children

end Node

namespace Draft

mutual

def build : Draft → Build Node
  | mk tag scalars children => do
    let nodes ← buildAll children
    Node.build tag scalars nodes

def buildAll : List (Field × Draft) → Build (List (Field × Node))
  | [] => return []
  | (f, d) :: rest => do
    let n ← build d
    let nodes ← buildAll rest
    return (f, n) :: nodes

end

end Draft

end KotlinSyntax
