import KotlinSyntax.Conversion.Reading
import KotlinSyntax.Extra

/-! Placing trivia. A run of trivia between two parts of a raw node goes
- up to its last semicolon after the part before it and the rest before the part after it, where both
  have nodes;
- else before the part after it;
- else after the part before it, but where only a closing token follows, what comes after the first line
  break is kept within the owner, on the line of that token;
- else within the owner, the nearest node around it. -/
namespace KotlinSyntax

/-- Why trivia cannot be placed. -/
inductive PlacementError
  /-- No node stands for the tree. -/
  | notConverted (kind : RawKind)
  /-- The leaf counts as trivia, but it is none. -/
  | notTrivia (text : String) (offset : Nat)
  | node (e : NodeError)
  deriving DecidableEq, Repr, Inhabited

namespace PlacementError

def message : PlacementError → String
  | notConverted kind => "ConverterWithExtras: " ++ kind.name ++ " was not converted"
  | notTrivia text offset =>
    "ConverterWithExtras: '" ++ text ++ "' at offset " ++ Number.decimal offset ++ " is not trivia"
  | node e => e.message

end PlacementError

namespace Placement

/-- Whether the leaf is a run of blanks that goes on to another line. -/
def isLineBreak (l : Leaf) : Bool := l.token.kind == .whitespace && Text.hasLineFeed l.token.text

/-- Whether the leaf is a run of blanks within a line. -/
def isInline (l : Leaf) : Bool := l.token.kind == .whitespace && !Text.hasLineFeed l.token.text

/-- For each leaf, whether nothing but blanks stands before it on its line. -/
def startsLine (fresh : Bool) : List Leaf → List Bool
  | [] => []
  | l :: ls => fresh :: startsLine (if isInline l then fresh else isLineBreak l) ls

/-- Whether a line ends before the first of the leaves, blanks aside. -/
def lineEnds : List Leaf → Bool
  | [] => true
  | l :: ls => if isInline l then lineEnds ls else isLineBreak l

/-- For each leaf, whether nothing but blanks stands after it on its line. -/
def endsLine : List Leaf → List Bool
  | [] => []
  | _ :: ls => lineEnds ls :: endsLine ls

/-- What a leaf of trivia becomes. -/
def extraFor (l : Leaf) (starts ends : Bool) : Except PlacementError Extra :=
  match l.token.kind with
  | .whitespace => (Extra.whitespace l.token.text).checked.mapError .node
  | .lineComment => .ok (.comment l.token.text starts true)
  | .blockComment => .ok (.comment l.token.text starts ends)
  | .semicolon => .ok .semicolon
  | _ =>
    if l.token.text == "," then .ok .trailingComma
    else .error (.notTrivia l.token.text l.token.start)

/-- What each leaf would become as trivia, in order. -/
def extrasFor (leaves : List Leaf) : List (Except PlacementError Extra) :=
  ((leaves.zip (startsLine true leaves)).zip (endsLine leaves)).map fun ((l, starts), ends) =>
    extraFor l starts ends

/-- The nodes that stand for elements, by the places of these. -/
abbrev Produced := Array (Option Node)

/-- The last node made for one of so many elements stands for it. The events come newest first. -/
def producedBy (events : List Event) (count : Nat) : Produced :=
  events.foldr (fun e found => match e.origin with
    | some o => found.setIfInBounds o.number (some e.node)
    | none => found) (Array.replicate count none)

/-- The node that stands for the element at a place, if there is one. -/
def nodeAt (produced : Produced) (number : Nat) : Option Node := produced[number]?.join

inductive Position
  | before | within | after
  deriving DecidableEq, Repr

structure State where
  extras : ExtrasMap := {}
  /-- What the leaves that are still to come would become. -/
  pending : List (Except PlacementError Extra) := []

abbrev Place := StateT State (Except PlacementError)

def nextExtra : Place (Option (Except PlacementError Extra)) := do
  let s ← get
  set { s with pending := s.pending.tail }
  return s.pending.head?

/-- Adds extras at a position of a node. -/
def append (n : Node) (p : Position) (es : List Extra) : Place Unit := do
  if es.isEmpty then return
  modify fun s =>
    let m := s.extras
    let a := m.get n.id
    { s with extras := m.insert n.id (match p with
      | .before => { a with before := a.before ++ es }
      | .within => { a with within := a.within ++ es }
      | .after => { a with after := a.after ++ es }) }

/-- A leaf of trivia with what it becomes. -/
abbrev Run := List (Leaf × Extra)

/-- Splits a run after the last leaf of a kind, if there is one. -/
def splitAfterLast (p : Leaf → Bool) (run : Run) : Option (Run × Run) :=
  let tail := (run.reverse.takeWhile fun x => !p x.1).reverse
  if tail.length == run.length then none else some (run.take (run.length - tail.length), tail)

/-- Splits a run after the first leaf of a kind, if there is one. -/
def splitAfterFirst (p : Leaf → Bool) (run : Run) : Option (Run × Run) :=
  let head := run.takeWhile fun x => !p x.1
  if head.length == run.length then none
  else some (run.take (head.length + 1), run.drop (head.length + 1))

def isSemicolon (l : Leaf) : Bool := l.token.kind == .semicolon

/-- Places a run between two parts. -/
def place (run : Run) (prev next : Option Node) (closing : Bool) (owner : Node) : Place Unit := do
  let extras (r : Run) : List Extra := r.map (·.2)
  match prev, next with
  | some p, some n =>
    match splitAfterLast isSemicolon run with
    | some (a, b) => append p .after (extras a); append n .before (extras b)
    | none => append n .before (extras run)
  | none, some n => append n .before (extras run)
  | some p, none =>
    match if closing then splitAfterFirst isLineBreak run else none with
    | some (a, b) => append p .after (extras a); append owner .within (extras b)
    | none => append p .after (extras run)
  | none, none => append owner .within (extras run)

/-- Places a run, if it is one. -/
def flush (run : Run) (prev next : Option Node) (closing : Bool) (owner : Node) : Place Unit :=
  if run.isEmpty then return else place run prev next closing owner

mutual

/-- Places the trivia inside a part, which has the given place in pre-order. -/
def walk (produced : Produced) (number : Nat) (owner : Node) : RawElement → Place Unit
  | .leaf _ => do let _ ← nextExtra
  | .node _ _ children =>
    walkAll produced (number + 1) ((nodeAt produced number).getD owner) none [] children

/-- Places the trivia among parts. The run is what has been met since the part before it. -/
def walkAll (produced : Produced) (number : Nat) (owner : Node) (prev : Option Node) (run : Run) :
    List RawElement → Place Unit
  | [] => flush run prev none true owner
  | e :: es => do
    match e with
    | .leaf l =>
      if l.trivia then
        match ← nextExtra with
        | some (.ok x) =>
          walkAll produced (number + 1) owner prev (run ++ [(l, x)]) es
        | some (.error err) => throw err
        | none => return
      else
        let here := nodeAt produced number
        flush run prev here (es.all (·.isTrivia)) owner
        let _ ← nextExtra
        walkAll produced (number + 1) owner here [] es
    | .node kind role children =>
      let here := nodeAt produced number
      flush run prev here (es.all (·.isTrivia)) owner
      walk produced number owner (.node kind role children)
      walkAll produced (number + e.size) owner here [] es

end

/-- Places all trivia of a tree that has been turned into nodes. -/
def collect (produced : Produced) (raw : RawElement) : Except PlacementError ExtrasMap := do
  let root ← match nodeAt produced 0, raw with
    | some root, _ => pure root
    | none, .node kind .. => throw (.notConverted kind)
    | none, .leaf l => throw (.notTrivia l.token.text l.token.start)
  let ((), s) ← (walk produced 0 root raw).run { pending := extrasFor raw.leaves }
  return s.extras

end Placement

end KotlinSyntax
