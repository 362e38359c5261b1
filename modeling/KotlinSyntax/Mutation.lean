import KotlinSyntax.Extra
import KotlinSyntax.Mutation.Part
import KotlinSyntax.Node.Walk

/-! Rebuilding a tree. Every node is offered to a hook before its children are rebuilt and to another one
after that. A node in whose subtree nothing changed is kept as the same node, so what an extras map keeps
for it stays valid; the extras of a node that is replaced go to what replaces it. -/
namespace KotlinSyntax

/-- What hooks draw on: the first free number and a state of their own. -/
structure Supply (σ : Type) where
  nextId : Nat
  own : σ

/-- Gives the node to put in the place of the one at the path. -/
abbrev Hook (σ : Type) := Path → EStateM NodeError (Supply σ) Node

/-- Keeps every node. -/
def Hook.identity (σ : Type) : Hook σ := fun p => pure p.node

structure Mutation (σ : Type) where
  /-- Runs before the children of the node are rebuilt. -/
  pre : Hook σ := .identity σ
  /-- Runs after that. -/
  post : Hook σ := .identity σ

inductive MutationError
  | node (e : NodeError)
  /-- The tree grew beyond the bound on its depth. -/
  | exhausted
  deriving DecidableEq, Repr, Inhabited

structure Mutation.State (σ : Type) where
  supply : Supply σ
  extras : Option ExtrasMap := none
  /-- The newest line first. -/
  log : List String := []

/-- What was done before a failure stays done. -/
abbrev Mutate (σ : Type) := EStateM MutationError (Mutation.State σ)

/-- A node in the place of another, and whether it is a different one. -/
structure Rebuilt where
  node : Node
  changed : Bool

namespace Mutation

variable {σ : Type}

def call (h : Hook σ) (p : Path) : Mutate σ Node := fun s =>
  match h p s.supply with
  | .ok n supply => .ok n { s with supply }
  | .error e supply => .error (.node e) { s with supply }

def note (line : String) : Mutate σ Unit := modify fun s => { s with log := line :: s.log }

/-- Hands the extras of a node over to the one that replaces it. -/
def moveExtras (source target : Node) : Mutate σ Unit := do
  match (← get).extras with
  | some m =>
    if m.canMove source.id target.id then
      note ("moving extras from " ++ source.name ++ " to " ++ target.name)
      modify fun s => { s with extras := some (m.move source.id target.id) }
  | none => return

/-- How a message names a node that is put in the place of another. -/
def describe (n : Node) : String := if n.isKind .keyword then "'" ++ n.text ++ "'" else n.name

/-- Whether a node may come to stand in the field of a node of the kind. -/
def fits (k : Kind) (f : Field) (n : Node) : Bool :=
  match k.parts.find? (·.field == f) with
  | some s => n.isIn s.takes
  | none => true

/-- Rebuilds a child. What comes out must fit where the child stood. -/
def visitChild (visit : Path → Mutate σ Rebuilt) (p : Path) (k : Kind) (c : Field × Node) :
    Mutate σ (Field × Rebuilt) := do
  let r ← visit (p.down c.2)
  if fits k c.1 r.node then return (c.1, r)
  else throw (.node (.invariant p.node.name
    (describe r.node ++ " cannot take the place of " ++ describe c.2)))

/-- A node of the kind with other children. -/
def remake (n : Node) (k : Kind) (children : List (Field × Node)) : Mutate σ Node := do
  note ("rebuilding " ++ n.name)
  let s ← get
  set { s with supply.nextId := s.supply.nextId + 1 }
  match Node.make s.supply.nextId k n.scalars children with
  | .ok n => return n
  | .error e => throw (.node e)

/-- Rebuilds the children of the node at the path, and the node if one of them changed. -/
def rebuild (visit : Path → Mutate σ Rebuilt) (p : Path) : Mutate σ Node := do
  match p.node.kind? with
  | none => throw (.node (.unrecognized .mutation p.node.name))
  | some k =>
    let rebuilt ← (gather k.parts p.node.children).mapM (visitChild visit p k)
    if rebuilt.any (·.2.changed) then
      remake p.node k (putBack p.node.children (rebuilt.map fun (f, r) => (f, r.node)))
    else return p.node

/-- Rebuilds the tree at the path, which may grow up to a depth. -/
def visit (m : Mutation σ) : Nat → Path → Mutate σ Rebuilt
  | 0, _ => throw .exhausted
  | depth + 1, p => do
    let before ← call m.pre p
    let rebuilt ← rebuild (visit m depth) (p.withNode before)
    let after ← call m.post (p.withNode rebuilt)
    if after.id == p.node.id then return ⟨p.node, false⟩
    else
      moveExtras p.node after
      return ⟨after, true⟩

/-- By how much hooks may let a tree grow in height. -/
def growth : Nat := 4000

/-- Rebuilds a tree. -/
def traverse (m : Mutation σ) (root : Node) : Mutate σ Node := do
  return (← m.visit (root.height + growth) (.ofRoot root)).node

end Mutation

end KotlinSyntax
