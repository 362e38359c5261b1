import KotlinSyntax.Mutation
import KotlinSyntax.Node.Draft

/-! Rules: hooks given by a pattern for the nodes they apply to and by what they put in their place.
Whatever a rule makes is a new node, while children that it carries over stay the same nodes. -/
namespace KotlinSyntax

/-- The nodes that a rule applies to. What is absent does not matter. -/
structure Pattern where
  name : Option String := none
  text : Option String := none
  parent : Option String := none
  depth : Option Nat := none
  /-- Only the match with this number, counted from 0. -/
  nth : Option Nat := none
  deriving Repr, Inhabited

namespace Pattern

def fits (pat : Pattern) (p : Path) : Bool :=
  pat.name.all (· == p.node.name) &&
    pat.text.all (fun t => p.node.scalars.lookup .text == some (.text t)) &&
    pat.parent.all (fun n => p.parent?.any (·.name == n)) &&
    pat.depth.all (· == p.depth)

end Pattern

/-- What a rule puts in the place of a node. -/
inductive Action
  | keep
  | replace (d : Draft)
  /-- The node with another text. -/
  | text (t : String)
  | copy
  /-- A node of the tag with this one as its expression. -/
  | wrap (tag : Tag)
  /-- The first node of a field. -/
  | child (f : Field)
  | item (f : Field) (i : Nat)
  /-- The node with other contents in some fields. -/
  | set (scalars : List (Field × Scalar)) (children : List (Field × List Draft))
  | remove (f : Field) (i : Nat)
  | reverse (f : Field)
  /-- Puts a node of a field at its end once more. -/
  | repeated (f : Field) (i : Nat)
  | append (f : Field) (d : Draft)
  deriving Repr, Inhabited

namespace Action

/-- The scalars with another value for a field. -/
def setScalar (f : Field) (v : Scalar) : List (Field × Scalar) → List (Field × Scalar)
  | [] => [(f, v)]
  | (g, w) :: rest => if f == g then (f, v) :: rest else (g, w) :: setScalar f v rest

/-- The children with other nodes in a field. -/
def setField (f : Field) (ns : List Node) (children : List (Field × Node)) : List (Field × Node) :=
  children.filter (·.1 != f) ++ ns.map (f, ·)

/-- The node again with other nodes in a field. -/
def withField (n : Node) (f : Field) (ns : List Node) : Build Node :=
  Node.build n.tag n.scalars (setField f ns n.children)

def buildAll : List Draft → Build (List Node)
  | [] => return []
  | d :: ds => do
    let n ← d.build
    let ns ← buildAll ds
    return n :: ns

def setFields : List (Field × List Draft) → List (Field × Node) → Build (List (Field × Node))
  | [], children => return children
  | (f, ds) :: rest, children => do
    let ns ← buildAll ds
    setFields rest (setField f ns children)

def run (n : Node) : Action → Build Node
  | keep => return n
  | replace d => d.build
  | text t => Node.build n.tag (setScalar .text (.text t) n.scalars) n.children
  | copy => Node.build n.tag n.scalars n.children
  | wrap tag => Node.build tag [] [(.expression, n)]
  | child f => return (n.get? f).getD n
  | item f i => return (n.all f)[i]?.getD n
  | set scalars children => do
    let own := scalars.foldl (fun acc s => setScalar s.1 s.2 acc) n.scalars
    let nodes ← setFields children n.children
    Node.build n.tag own nodes
  | remove f i => withField n f ((n.all f).eraseIdx i)
  | reverse f => withField n f (n.all f).reverse
  | repeated f i => withField n f (n.all f ++ (n.all f)[i]?.toList)
  | append f d => do
    let extra ← d.build
    withField n f (n.all f ++ [extra])

end Action

structure Rule where
  pattern : Pattern
  action : Action
  deriving Repr, Inhabited

/-- When a hook runs. -/
inductive Moment
  | pre | post
  deriving DecidableEq, Repr

/-- Rules with the number of matches each has had, and the paths that hooks were called with, the newest
first. -/
structure RuleBook where
  pre : List (Rule × Nat) := []
  post : List (Rule × Nat) := []
  trace : List (Moment × String) := []
  deriving Inhabited

namespace RuleBook

def ofRules (pre post : List Rule) : RuleBook := { pre := pre.map (·, 0), post := post.map (·, 0) }

/-- Counts the matches of each rule, and gives the first action that is due. -/
def consult (p : Path) : List (Rule × Nat) → List (Rule × Nat) × Option Action
  | [] => ([], none)
  | (r, count) :: rest =>
    let (rest, later) := consult p rest
    if r.pattern.fits p then
      let due := r.pattern.nth.all (· == count)
      ((r, count + 1) :: rest, if due then some r.action else later)
    else ((r, count) :: rest, later)

/-- The book after a call, and the action that is due. -/
def turn (m : Moment) (p : Path) (b : RuleBook) : RuleBook × Option Action :=
  let b := { b with trace := (m, p.render) :: b.trace }
  match m with
  | .pre => let (pre, a) := consult p b.pre; ({ b with pre }, a)
  | .post => let (post, a) := consult p b.post; ({ b with post }, a)

/-- The hook that follows the rules. -/
def hook (m : Moment) : Hook RuleBook := fun p s =>
  let (own, action) := turn m p s.own
  match action with
  | none => .ok p.node { s with own }
  | some a =>
    match (a.run p.node).run s.nextId with
    | .ok (n, nextId) => .ok n ⟨nextId, own⟩
    | .error e => .error e { s with own }

/-- Rebuilding by rules. -/
def mutation : Mutation RuleBook := ⟨hook .pre, hook .post⟩

end RuleBook

end KotlinSyntax
