import KotlinSyntax.Node.Demand

/-! What can be wrong with a node: its fields break a demand of its kind, or nothing is known of its
kind. -/
namespace KotlinSyntax

/-- The parts of the library that have a rule for each kind and meet a node of none. -/
inductive Traversal
  | walk | writer | mutation
  deriving DecidableEq, Repr, Inhabited

def Traversal.name : Traversal → String
  | walk => "childNodes"
  | writer => "Writer"
  | mutation => "MutableVisitor"

inductive NodeError
  /-- The node of the name breaks a rule. -/
  | invariant (node : String) (complaint : String)
  /-- A traversal has no rule for the node. -/
  | unrecognized (place : Traversal) (node : String)
  deriving DecidableEq, Repr, Inhabited

namespace NodeError

def invariantMessage (node complaint : String) : String := node ++ ": " ++ complaint

def unrecognizedMessage (place node : String) : String := place ++ ": unrecognized node " ++ node

def message : NodeError → String
  | invariant node complaint => invariantMessage node complaint
  | unrecognized place node => unrecognizedMessage place.name node

end NodeError

namespace Node

/-- The node itself, if it breaks no demand of its kind. -/
def checked (n : Node) : Except NodeError Node :=
  match n.broken? with
  | some d => .error (.invariant n.name d.message)
  | none => .ok n

/-- A checked node of a kind. -/
def make (id : Nat) (k : Kind) (scalars : List (Field × Scalar)) (children : List (Field × Node)) :
    Except NodeError Node :=
  checked (.mk id (.kind k) scalars children)

end Node

end KotlinSyntax
