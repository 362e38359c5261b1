import KotlinSyntax.Node.Schema

/-! Nodes: labelled ordered trees. A node keeps its children with the field each stands in, in source
order, so an absent child and an empty list are the same thing: no child under that label. -/
namespace KotlinSyntax

/-- Text or a flag that belongs to a node itself. -/
inductive Scalar
  | text (s : String)
  | flag (b : Bool)
  deriving DecidableEq, Repr, Inhabited

/-- What a node is: of a kind, or of a name that no kind has. -/
inductive Tag
  | kind (k : Kind)
  | unknown (name : String)
  deriving DecidableEq, Repr, Inhabited

def Tag.name : Tag → String
  | kind k => k.name
  | unknown name => name

/-- A node. The number tells it from every other node, also from one that holds the same. -/
inductive Node
  | mk (id : Nat) (tag : Tag) (scalars : List (Field × Scalar)) (children : List (Field × Node))
  deriving Repr, Inhabited

namespace Node

def id : Node → Nat
  | mk id .. => id

def tag : Node → Tag
  | mk _ tag .. => tag

def scalars : Node → List (Field × Scalar)
  | mk _ _ scalars _ => scalars

/-- The children with their fields, in source order. -/
def children : Node → List (Field × Node)
  | mk _ _ _ children => children

def name (n : Node) : String := n.tag.name

def kind? (n : Node) : Option Kind :=
  match n.tag with
  | .kind k => some k
  | .unknown _ => none

def isKind (k : Kind) (n : Node) : Bool := n.tag == .kind k

/-- The children that stand in a field. -/
def all (f : Field) (n : Node) : List Node :=
  (n.children.filter (·.1 == f)).map (·.2)

/-- The first child of a field. -/
def get? (f : Field) (n : Node) : Option Node :=
  (n.children.find? (·.1 == f)).map (·.2)

def has (f : Field) (n : Node) : Bool := n.children.any (·.1 == f)

/-- The node's own text in a field, empty where it has none. -/
def textOf (f : Field) (n : Node) : String :=
  match n.scalars.lookup f with
  | some (.text s) => s
  | _ => ""

def text (n : Node) : String := n.textOf .text

/-- The node's own flag in a field, off where it has none. -/
def flag (f : Field) (n : Node) : Bool :=
  match n.scalars.lookup f with
  | some (.flag b) => b
  | _ => false

/-- Whether the node is one of the category. -/
def isIn (c : Category) (n : Node) : Bool :=
  match n.tag with
  | .kind k => c.kinds.contains k || (k == .keyword && c.spellings.contains n.text)
  | .unknown _ => false

/-- Whether the node is a keyword of the spelling. -/
def isKeyword (text : String) (n : Node) : Bool := n.isKind .keyword && n.text == text

end Node

end KotlinSyntax
