import KotlinSyntax.Token
import KotlinSyntax.Raw.Kind

/-! The raw tree: leaves are tokens, and each node lists its parts in source order, trivia included.
A role tells which place of its parent a node fills where the kind alone does not. -/
namespace KotlinSyntax

/-- A token in the tree. Dangling commas count as trivia beside the kinds that always do. -/
structure Leaf where
  token : Token
  trivia : Bool
  deriving DecidableEq, Repr, Inhabited

/-- A token with the standing that its kind gives it. -/
def Leaf.ofToken (t : Token) : Leaf := ⟨t, t.kind.isTrivia⟩

inductive RawElement
  | leaf (l : Leaf)
  | node (kind : RawKind) (role : Option String) (children : List RawElement)
  deriving Repr, Inhabited

namespace RawElement

def isTrivia : RawElement → Bool
  | leaf l => l.trivia
  | node .. => false

/-- The parts of a node: its children without trivia. -/
def significant (es : List RawElement) : List RawElement := es.filter (!·.isTrivia)

/-- Where the element begins: the start of its first part, and 0 where there is none. -/
def offset : RawElement → Nat
  | leaf l => l.token.start
  | node _ _ [] => 0
  | node _ _ (first :: _) => first.offset

mutual

/-- The leaves in source order. -/
def leaves : RawElement → List Leaf
  | leaf l => [l]
  | node _ _ children => leavesAll children

def leavesAll : List RawElement → List Leaf
  | [] => []
  | e :: es => leaves e ++ leavesAll es

end

mutual

/-- How many elements there are in it, itself among them. -/
def size : RawElement → Nat
  | leaf _ => 1
  | node _ _ children => 1 + sizeAll children

def sizeAll : List RawElement → Nat
  | [] => 0
  | e :: es => size e + sizeAll es

end

/-- The source text that the element covers. -/
def text (e : RawElement) : String := String.join (e.leaves.map (·.token.text))

mutual

/-- One line for each element, two blanks deeper for each level. -/
def lines (colors : Bool) (indent : String) : RawElement → List String
  | leaf l => [indent ++ l.token.render colors]
  | node kind role children =>
    let role := match role with
      | some r => if r.isEmpty then "" else Style.blue.paint colors (" (" ++ r ++ ")")
      | none => ""
    (indent ++ Style.bold.paint colors kind.name ++ role) :: linesAll colors (indent ++ "  ") children

def linesAll (colors : Bool) (indent : String) : List RawElement → List String
  | [] => []
  | e :: es => lines colors indent e ++ linesAll colors indent es

end

def render (colors : Bool) (e : RawElement) : String := String.intercalate "\n" (e.lines colors "")

mutual

/-- Whether a node of one of the kinds stands inside the element. -/
def holds (p : RawKind → Bool) : RawElement → Bool
  | leaf _ => false
  | node _ _ children => holdsAny p children

def holdsAny (p : RawKind → Bool) : List RawElement → Bool
  | [] => false
  | e :: es => (match e with | node kind _ _ => p kind | leaf _ => false) || holds p e || holdsAny p es

end

end RawElement

end KotlinSyntax
