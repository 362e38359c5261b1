import KotlinSyntax.Extra
import KotlinSyntax.Node.Walk

/-! Dumps: one line for each node, two blanks deeper for each level. A verbose dump adds the text and the
flags of each node, and with an extras map the extras have lines of their own. -/
namespace KotlinSyntax

namespace Node

/-- The first group that the kind belongs to, where it belongs to one. -/
def group? (k : Kind) : Option String :=
  if Category.extra.kinds.contains k then some "Extra"
  else if Category.declaration.kinds.contains k then some "Declaration"
  else if Category.expression.kinds.contains k then some "Expression"
  else if Category.type.kinds.contains k then some "Type"
  else none

/-- The name with the group in front. A keyword is listed under the name of its spelling. -/
def qualifiedName (tag : Tag) (text : String) : String :=
  match tag with
  | .kind .keyword => "Node.Keyword." ++ Keyword.listedName text
  | .kind k =>
    match group? k with
    | some g => "Node." ++ g ++ "." ++ k.name
    | none => "Node." ++ k.name
  | .unknown name => "Node." ++ name

end Node

namespace Dump

/-- How a character stands between quotes. -/
def escapeChar (c : Char) : List Char :=
  match c with
  | '\\' => ['\\', '\\']
  | '"' => ['\\', '"']
  | '\n' => ['\\', 'n']
  | '\r' => ['\\', 'r']
  | '\t' => ['\\', 't']
  | '\x08' => ['\\', 'b']
  | c => [c]

def escape (s : String) : String := String.ofList (s.toList.flatMap escapeChar)

def scalarText : Scalar → String
  | .text s => s
  | .flag b => if b then "true" else "false"

def attributes : List (Field × Scalar) → String
  | [] => ""
  | scalars =>
    let one (a : Field × Scalar) : String := a.1.key ++ "=\"" ++ escape (scalarText a.2) ++ "\""
    "\x7b" ++ String.intercalate ", " (scalars.map one) ++ "\x7d"

def indent (depth : Nat) : String := String.ofList (List.replicate (2 * depth) ' ')

/-- What a dump shows. -/
structure Options where
  extras : Option ExtrasMap := none
  verbose : Bool := false

def line (o : Options) (depth : Nat) (label : String) (tag : Tag) (scalars : List (Field × Scalar)) :
    String :=
  let text := match scalars.lookup .text with
    | some (.text s) => s
    | _ => ""
  indent depth ++ label ++ Node.qualifiedName tag text ++
    (if o.verbose then attributes scalars else "")

def extraLines (o : Options) (depth : Nat) (label : String) (es : List Extra) : List String :=
  es.map fun e => line o depth label (.kind e.kind) e.scalars

mutual

/-- The lines of a tree at a depth. What surrounds the root is left out. -/
def lines (o : Options) (depth : Nat) : Node → List String
  | .mk id tag scalars children =>
    let around := (o.extras.map (·.get id)).getD {}
    let inner := linesAll o (depth + 1) children
    let outer (label : String) (es : List Extra) : List String :=
      if depth == 0 then [] else extraLines o depth label es
    outer "BEFORE: " around.before ++ [line o depth "" tag scalars] ++ inner ++
      extraLines o (depth + 1) "WITHIN: " around.within ++ outer "AFTER: " around.after

def linesAll (o : Options) (depth : Nat) : List (Field × Node) → List String
  | [] => []
  | (_, n) :: rest => lines o depth n ++ linesAll o depth rest

end

end Dump

/-- The dump of a tree of known kinds. -/
def Node.dump (o : Dump.Options) (n : Node) : Except NodeError String := do
  n.recognized .walk
  return String.intercalate "\n" (Dump.lines o 0 n)

end KotlinSyntax
