import KotlinSyntax.Node.Error
import KotlinSyntax.Raw
import KotlinSyntax.Text.Decimal

/-! Reading the parts of a raw node. A rule takes the significant parts from front to back, turns each
into nodes, and ends with the node for the whole. Every node is recorded when it is made, children before
their parent, with the raw element that it stands for. -/
namespace KotlinSyntax

/-- Why a raw tree cannot be turned into nodes. -/
inductive ConversionError
  /-- A part of a raw node is missing, superfluous or of the wrong kind. -/
  | mismatch (expected : String) (owner : RawKind) (offset : Nat) (found : String)
  /-- The tree as a whole is of another form. -/
  | wrongForm (expected : RawKind) (offset : Nat) (found : RawKind)
  /-- The element is none that could stand there. -/
  | unexpected (expected : String) (found : String)
  /-- The source uses something that no node stands for. -/
  | unsupported (construct : String) (offset : Nat)
  | node (e : NodeError)
  deriving DecidableEq, Repr, Inhabited

/-- A raw element, told from others by its place in pre-order. -/
structure Origin where
  number : Nat
  element : RawElement
  deriving Repr, Inhabited

/-- A node that was made, and what it stands for if that is one element. -/
structure Event where
  node : Node
  origin : Option Origin
  deriving Repr, Inhabited

structure Conversion.State where
  nextId : Nat := 0
  /-- The newest first. -/
  events : List Event := []
  log : List String := []
  deriving Inhabited

/-- What happened before a failure stays known. -/
abbrev Convert := EStateM ConversionError Conversion.State

namespace Conversion

/-- What an element is read as. -/
inductive Goal
  /-- What its kind says. -/
  | part
  | declaration
  | statement
  | expression
  | type
  | classParent
  | stringEntry
  deriving DecidableEq, Repr, Inhabited

/-- A part of a raw node with the ways to read it. -/
structure Item where
  origin : Origin
  convert : Goal → Convert Node

/-- The raw node whose parts are read. -/
structure Owner where
  number : Nat
  kind : RawKind
  role : Option String
  children : List RawElement

namespace Owner

def element (o : Owner) : RawElement := .node o.kind o.role o.children

def origin (o : Owner) : Origin := ⟨o.number, o.element⟩

def offset (o : Owner) : Nat := o.element.offset

end Owner

/-- Takes parts of the owner from the front. -/
abbrev Reading := ReaderT Owner (StateT (List Item) Convert)

/-- How a message names an element with its place. -/
def describe : RawElement → String
  | .leaf l => "'" ++ l.token.text ++ "' at offset " ++ Number.decimal l.token.start
  | .node kind role children =>
    kind.name ++ " at offset " ++ Number.decimal (RawElement.node kind role children).offset

def note (line : String) : Convert Unit := modify fun s => { s with log := s.log ++ [line] }

/-- Makes a node. -/
def make (k : Kind) (scalars : List (Field × Scalar)) (children : List (Field × Node)) :
    Convert Node := do
  let s ← get
  set { s with nextId := s.nextId + 1 }
  match Node.make s.nextId k scalars children with
  | .ok n => return n
  | .error e => throw (.node e)

/-- Records a node. -/
def emit (origin : Option Origin) (n : Node) : Convert Node := do
  modify fun s => { s with events := ⟨n, origin⟩ :: s.events }
  return n

def unsupported (construct : String) (offset : Nat) : Convert α := throw (.unsupported construct offset)

/-- The parts that are left. -/
def rest : Reading (List Item) := get

def tokenText? : RawElement → Option String
  | .leaf l => some l.token.text
  | .node .. => none

def nodeKind? : RawElement → Option RawKind
  | .leaf _ => none
  | .node kind .. => some kind

/-- Whether the n-th part from here is a token of the text. -/
def seesToken (text : String) (n : Nat) (items : List Item) : Bool :=
  items[n]?.any fun i => tokenText? i.origin.element == some text

/-- Whether the next part is a token of the kind. -/
def seesKind (kind : TokenKind) (items : List Item) : Bool :=
  items.head?.any fun i => match i.origin.element with
    | .leaf l => l.token.kind == kind
    | .node .. => false

/-- Whether the next part is a node of the kind. -/
def seesNode (kind : RawKind) (items : List Item) : Bool :=
  items.head?.any fun i => nodeKind? i.origin.element == some kind

def mismatch (expected : String) : Reading α := do
  let o ← read
  let found := match (← rest).head? with
    | none => "nothing"
    | some i => match i.origin.element with
      | .leaf l => "'" ++ l.token.text ++ "'"
      | .node kind .. => kind.name
  throw (.mismatch expected o.kind o.offset found)

/-- The next part, whatever it is. -/
def next : Reading Item := do
  match ← rest with
  | i :: is => set is; return i
  | [] => mismatch "another child"

/-- The next part, which must be a token. -/
def anyToken : Reading Item := do
  match ← rest with
  | i :: is =>
    if (tokenText? i.origin.element).isSome then set is; return i else mismatch "a token"
  | [] => mismatch "a token"

/-- The next part, which must be a token of the text. -/
def token (text : String) : Reading Item := do
  let items ← rest
  match items with
  | i :: is => if seesToken text 0 items then set is; return i else mismatch ("'" ++ text ++ "'")
  | [] => mismatch ("'" ++ text ++ "'")

/-- What the rule reads, where it is due. -/
def onlyIf (due : Bool) (rule : Reading α) : Reading (Option α) :=
  if due then some <$> rule else return none

/-- A token of the text, where it is due. -/
def tokenIf (due : Bool) (text : String) : Reading Unit := do
  let _ ← onlyIf due (token text)

def optionalToken (text : String) : Reading (Option Item) := do
  onlyIf (seesToken text 0 (← rest)) (token text)

/-- Takes a token of the text where one comes next, and tells whether it did. -/
def skipToken (text : String) : Reading Bool := return (← optionalToken text).isSome

/-- The next part, which must be a node of the kind. -/
def node (kind : RawKind) : Reading Item := do
  let items ← rest
  match items with
  | i :: is => if seesNode kind items then set is; return i else mismatch kind.name
  | [] => mismatch kind.name

/-- The node for the next part, which must be of the kind. -/
def part (kind : RawKind) : Reading Node := do (← node kind).convert .part

def optionalPart (kind : RawKind) : Reading (Option Node) := do
  onlyIf (seesNode kind (← rest)) (part kind)

/-- The next part read towards a goal. -/
def nextAs (goal : Goal) : Reading Node := do (← next).convert goal

/-- Nothing may be left. -/
def close : Reading Unit := do
  if !(← rest).isEmpty then mismatch "no more children"

/-- The node for the owner. -/
def build (k : Kind) (scalars : List (Field × Scalar)) (children : List (Field × Node)) :
    Reading Node := do
  let n ← make k scalars children
  emit (← read).origin n

/-- The node for the owner, of which nothing may be left. -/
def finish (k : Kind) (scalars : List (Field × Scalar)) (children : List (Field × Node)) :
    Reading Node := do
  close
  build k scalars children

/-- A node that no element stands for. -/
def implied (k : Kind) (children : List (Field × Node)) : Reading Node := do
  let n ← make k [] children
  emit none n

def one (f : Field) (n : Node) : List (Field × Node) := [(f, n)]

def opt (f : Field) (n : Option Node) : List (Field × Node) := n.toList.map (f, ·)

def many (f : Field) (ns : List Node) : List (Field × Node) := ns.map (f, ·)

/-- The keyword for a token. -/
def keywordFor (text : String) (i : Item) : Reading Node := do
  let n ← make .keyword [(.text, .text text)] []
  emit i.origin n

def keyword (text : String) : Reading Node := do keywordFor text (← token text)

def optionalKeyword (text : String) : Reading (Option Node) := do
  onlyIf (seesToken text 0 (← rest)) (keyword text)

/-- A keyword of one of the spellings. -/
def keywordOf (spellings : List String) : Reading Node := do
  let i ← anyToken
  let text := (tokenText? i.origin.element).getD ""
  if spellings.contains text then keywordFor text i
  else mismatch ("a keyword, not '" ++ text ++ "'")

def name : Reading Node := do
  if seesKind .identifier (← rest) then
    let i ← anyToken
    let n ← make .nameExpression [(.text, .text ((tokenText? i.origin.element).getD ""))] []
    emit i.origin n
  else mismatch "an identifier"

def optionalName : Reading (Option Node) := do
  onlyIf (seesKind .identifier (← rest)) name

/-- A name after the sign that refers to a label. -/
def label : Reading (Option Node) := do
  onlyIf (← skipToken "@") name

/-- Applies a rule while the parts that are left allow it. Each round takes a part, so the number of
parts bounds the rounds. -/
def whileSees (allowed : List Item → Bool) (rule : Reading α) : Reading (List α) := do
  rounds ((← rest).length + 1)
where
  rounds : Nat → Reading (List α)
    | 0 => return []
    | n + 1 => do
      if allowed (← rest) then
        let a ← rule
        let as ← rounds n
        return a :: as
      else return []

/-- The parts up to the end of a list: its closing token or the end of the owner. -/
def listEnds (closing : Option String) (items : List Item) : Bool :=
  items.isEmpty || closing.any fun text => seesToken text 0 items

/-- Nodes with commas between them. A comma with nothing after it is kept as a keyword. -/
def separated (closing : Option String) (rule : Reading Node) :
    Reading (List Node × Option Node) := do
  rounds ((← rest).length + 1)
where
  rounds : Nat → Reading (List Node × Option Node)
    | 0 => return ([], none)
    | n + 1 => do
      let items ← rest
      if listEnds closing items then return ([], none)
      else if seesToken "," 0 items then
        let comma ← token ","
        if listEnds closing (← rest) then return ([], some (← keywordFor "," comma))
        else rounds n
      else
        let a ← rule
        let (as, comma) ← rounds n
        return (a :: as, comma)

/-- A list between two tokens. -/
def bracketed (opening closing : String) (rule : Reading Node) :
    Reading (List Node × Option Node) := do
  let _ ← token opening
  let list ← separated closing rule
  let _ ← token closing
  return list

/-- A type after a colon, where there is one. -/
def optionalType : Reading (Option Node) := do
  onlyIf (← skipToken ":") (part .typeReference)

/-- An expression that stands alone in a place of its own. -/
def container : Reading Node := do
  let e ← nextAs .expression
  implied .expressionContainer (one .expression e)

def annotationSets : Reading (List Node) :=
  whileSees (seesNode .annotationSet) (part .annotationSet)

def modifiers : Reading (Option Node) := optionalPart .modifierList

end Conversion

end KotlinSyntax
