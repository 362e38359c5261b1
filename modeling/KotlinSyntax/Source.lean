import KotlinSyntax.Conversion
import KotlinSyntax.Error
import KotlinSyntax.Node.Dump
import KotlinSyntax.Writer

/-! From source text to a tree with its extras, and back. -/
namespace KotlinSyntax

/-- A tree, what surrounds its nodes, and the first number that none of them has. -/
structure Tree where
  root : Node
  extras : ExtrasMap := {}
  nextId : Nat := 0
  deriving Inhabited

namespace Tree

/-- The source text of the tree with its extras. -/
def write (t : Tree) : Except NodeError String := { extras := t.extras : Writer }.write t.root

/-- The text of the tree alone. -/
def plain (t : Tree) : Except NodeError String := ({} : Writer).write t.root

end Tree

/-- What came out, and what was logged on the way. -/
structure Outcome (α : Type) where
  result : Except Error α
  log : List String := []

namespace Source

structure Options where
  /-- Whether what stands between constructs is kept. -/
  extras : Bool := true
  fileName : Option String := none

/-- The raw tree of a source without errors. -/
def raw (form : Form) (fileName : Option String) (source : String) : Outcome RawElement :=
  match Lexer.tokenize source with
  | .error e => ⟨.error (.lex e), []⟩
  | .ok tokens =>
    match Grammar.run (Grammar.source form) tokens with
    | .error e s => ⟨.error (.grammar e), s.log⟩
    | .ok root s =>
      if s.faults.isEmpty then ⟨.ok root, s.log⟩ else ⟨.error (.faults s.faults fileName), s.log⟩

/-- The nodes for a raw tree, without extras. -/
def convertPlain (form : Form) (raw : RawElement) : Outcome Tree :=
  match Conversion.convertSource form raw {} with
  | .error e s => ⟨.error (.conversion e), s.log⟩
  | .ok root s => ⟨.ok { root, nextId := s.nextId }, s.log⟩

/-- The nodes for a raw tree, with its trivia as extras. -/
def convertFull (form : Form) (raw : RawElement) : Outcome Tree :=
  match Conversion.convertSource form raw {} with
  | .error e s => ⟨.error (.conversion e), s.log⟩
  | .ok root s =>
    match Placement.collect (Placement.producedBy s.events raw.size) raw with
    | .error e => ⟨.error (.placement e), s.log⟩
    | .ok extras =>
      ⟨.ok { root, extras, nextId := s.nextId },
        s.log ++ ["placed extras on " ++ toString extras.size ++ " nodes"]⟩

/-- Reads a source. -/
def parse (form : Form) (o : Options) (source : String) : Outcome Tree :=
  let rawTree := raw form o.fileName source
  match rawTree.result with
  | .error e => ⟨.error e, rawTree.log⟩
  | .ok root =>
    if o.extras then
      let tree := convertFull form root
      match tree.result with
      | .error e => ⟨.error e, rawTree.log ++ tree.log⟩
      | .ok t =>
        ⟨.ok t, rawTree.log ++ tree.log ++
          ["parsed " ++ o.fileName.getD unnamedSource ++ " as a " ++ form.name]⟩
    else
      let tree := convertPlain form root
      ⟨tree.result, rawTree.log ++ tree.log⟩

/-- What was made of a source, in order, and what stopped it. -/
def events (source target : Form) (text : String) : Except Error (List Event × Option Error) :=
  match (raw source none text).result with
  | .error e => .error e
  | .ok root =>
    match Conversion.convertSource target root {} with
    | .error e s => .ok (s.events.reverse, some (.conversion e))
    | .ok _ s => .ok (s.events.reverse, none)

/-- Whether the text of the tree alone reads back as the same tree. -/
def readsBack (form : Form) (t : Tree) : Except Error Bool := do
  let text ← t.plain.mapError .node
  let again ← (parse form { extras := false } text).result
  let verbose : Dump.Options := { verbose := true }
  let one ← (t.root.dump verbose).mapError .node
  let two ← (again.root.dump verbose).mapError .node
  return one == two

end Source

end KotlinSyntax
