import KotlinSyntax.Node.Error

/-! Orders in which the nodes of a tree are listed, and the path that leads to each of them. -/
namespace KotlinSyntax

/-- A node with the nodes above it, the nearest first. -/
structure Path where
  node : Node
  above : List Node
  deriving Repr, Inhabited

namespace Path

def ofRoot (n : Node) : Path := ⟨n, []⟩

def parent? (p : Path) : Option Node := p.above.head?

def depth (p : Path) : Nat := p.above.length

/-- The node at the top. -/
def root (p : Path) : Node := p.above.getLast?.getD p.node

/-- The path of a child of the node. -/
def down (p : Path) (child : Node) : Path := ⟨child, p.node :: p.above⟩

/-- The path with another node at its end. -/
def withNode (p : Path) (n : Node) : Path := ⟨n, p.above⟩

/-- The names from the top down. -/
def render (p : Path) : String :=
  String.intercalate " > " ((p.node :: p.above).reverse.map (·.name))

end Path

namespace Node

mutual

/-- The node and all below it, each before what it holds. -/
def preorder : Node → List Node
  | mk id tag scalars children => mk id tag scalars children :: preorderAll children

def preorderAll : List (Field × Node) → List Node
  | [] => []
  | (_, n) :: rest => preorder n ++ preorderAll rest

end

mutual

/-- The node and all below it, each after what it holds. -/
def postorder : Node → List Node
  | mk id tag scalars children => postorderAll children ++ [mk id tag scalars children]

def postorderAll : List (Field × Node) → List Node
  | [] => []
  | (_, n) :: rest => postorder n ++ postorderAll rest

end

mutual

/-- The paths of the nodes in pre-order, below the given ones. -/
def pathsBelow (above : List Node) : Node → List Path
  | mk id tag scalars children =>
    ⟨mk id tag scalars children, above⟩ ::
      pathsBelowAll (mk id tag scalars children :: above) children

def pathsBelowAll (above : List Node) : List (Field × Node) → List Path
  | [] => []
  | (_, n) :: rest => pathsBelow above n ++ pathsBelowAll above rest

end

def paths (n : Node) : List Path := n.pathsBelow []

mutual

/-- How many nodes lie on the longest way down. -/
def height : Node → Nat
  | mk _ _ _ children => heightAll children + 1

def heightAll : List (Field × Node) → Nat
  | [] => 0
  | (_, n) :: rest => max (height n) (heightAll rest)

end

/-- The tree, if every node of it is of a known kind. -/
def recognized (place : Traversal) (n : Node) : Except NodeError Unit :=
  match n.preorder.find? (·.kind?.isNone) with
  | some m => .error (.unrecognized place m.name)
  | none => .ok ()

mutual

theorem pathsBelow_map_node (above : List Node) :
    (n : Node) → (n.pathsBelow above).map (·.node) = n.preorder
  | mk id tag scalars children => by
    simp [pathsBelow, preorder, pathsBelowAll_map_node _ children]

theorem pathsBelowAll_map_node (above : List Node) :
    (cs : List (Field × Node)) → (pathsBelowAll above cs).map (·.node) = preorderAll cs
  | [] => rfl
  | (_, n) :: rest => by
    simp [pathsBelowAll, preorderAll, pathsBelow_map_node above n, pathsBelowAll_map_node above rest]

end

/-- The paths list the same nodes as the pre-order. -/
theorem paths_map_node (n : Node) : n.paths.map (·.node) = n.preorder := pathsBelow_map_node [] n

end Node

end KotlinSyntax
