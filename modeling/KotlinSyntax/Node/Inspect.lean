import KotlinSyntax.Node.Walk

/-! Questions about single nodes: the categories they belong to, their modifiers, and what kind of class a
class declaration introduces. -/
namespace KotlinSyntax

namespace Category

/-- The categories that are listed for a node, each under its letter. -/
def letters : List (Char × Category) := [
  ('D', declaration), ('E', expression), ('S', statement), ('T', type), ('P', classParent),
  ('A', accessor), ('R', stringEntry), ('C', doubleColonReceiver), ('M', postModifier),
  ('X', extra), ('m', modifier), ('K', anyKeyword)]

end Category

namespace Node

/-- The letters of the categories that the node belongs to. -/
def letters (n : Node) : String :=
  String.ofList ((Category.letters.filter fun c => n.isIn c.2).map (·.1))

/-- Whether the modifiers hold the keyword. -/
def hasModifier (modifiers : Option Node) (text : String) : Bool :=
  modifiers.any fun m => (m.all .elements).any (·.isKeyword text)

/-- The annotations among the modifiers. -/
def annotationSetsOf (modifiers : Option Node) : List Node :=
  match modifiers with
  | some m => (m.all .elements).filter (·.isKind .annotationSet)
  | none => []

/-- The keyword that introduces a class declaration. -/
def classWord (n : Node) : String :=
  match n.get? .classDeclarationKeyword with
  | some k => k.text
  | none => ""

def isClass (n : Node) : Bool := n.classWord == "class"

def isObject (n : Node) : Bool := n.classWord == "object"

def isInterface (n : Node) : Bool := n.classWord == "interface"

def isCompanion (n : Node) : Bool := n.isObject && hasModifier (n.get? .modifiers) "companion"

def isEnum (n : Node) : Bool := n.isClass && hasModifier (n.get? .modifiers) "enum"

/-- Blank lines in a run of blanks: one less than its line breaks. -/
def blankLines (n : Node) : Nat := n.text.toList.count '\n' - 1

/-- Whether the kind has a place for modifiers. -/
def takesModifiers (n : Node) : Bool :=
  n.kind?.any fun k => (k.slot? .modifiers).isSome

/-- The node that comes after the first place where this one stands below its parent. -/
def next? (parent : Node) (n : Node) : Option Node :=
  ((parent.children.map (·.2)).dropWhile (·.id != n.id)).tail.head?

end Node

end KotlinSyntax
