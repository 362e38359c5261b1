import KotlinSyntax.Writer.Criteria
import KotlinSyntax.Writer.Layout

/-! Writing a tree. The output is kept as chunks that tell what each text is: the node's own, an extra, or
added by a criterion. With the extras of the source the chunks give the source back; without them the
criteria add what keeps the text readable as the same tree. -/
namespace KotlinSyntax

/-- A part of the output. -/
inductive Chunk
  /-- The node at the path begins here. -/
  | visit (path : Path)
  /-- Text that the node stands for. -/
  | own (text : String)
  | extra (e : Extra)
  /-- Text that a criterion asks for. -/
  | added (text : String)
  deriving Repr, Inhabited

def Chunk.text : Chunk → String
  | visit _ => ""
  | own text => text
  | extra e => e.text
  | added text => text

structure Writer where
  criteria : Writer.Criteria := {}
  extras : ExtrasMap := {}
  deriving Inhabited

namespace Writer

/-- What has been written. -/
structure State where
  /-- The chunks, the newest first. -/
  chunks : List Chunk := []
  /-- The extras written since a node last began. -/
  recent : List Extra := []
  /-- Whether the next node has to be kept apart. -/
  gap : Bool := false
  deriving Inhabited

namespace State

/-- The last unit written. -/
def last? (s : State) : Option String := s.chunks.findSome? fun c => Text.lastUnit? c.text

def put (c : Chunk) (s : State) : State := { s with chunks := c :: s.chunks }

def hasSemicolon (s : State) : Bool := s.recent.contains .semicolon

/-- Blanks from the source separate also within a line, since they did so there. -/
def isSeparated (s : State) : Bool := s.hasSemicolon || s.recent.any (·.isWhitespace)

end State

/-- Puts down a chunk, and a blank before it where a criterion asks for one. -/
def append (w : Writer) (c : Chunk) (s : State) : State :=
  if w.criteria.space.any fun needs => needs s.last? (Text.firstUnit? c.text) then
    (s.put (.added " ")).put c
  else s.put c

def writeExtras (w : Writer) (es : List Extra) (s : State) : State :=
  let s := es.foldl (fun s e => w.append (.extra e) s) s
  { s with recent := s.recent ++ es }

/-- The line break or blank before a node, where one is due. -/
def lead (w : Writer) (p : Path) (s : State) : State :=
  let s := if w.criteria.newline.any (· p) && !s.isSeparated then w.append (.added "\n") s else s
  let s := if s.gap && s.recent.isEmpty then w.append (.added " ") s else s
  { s with gap := false, recent := [] }

/-- A semicolon, unless one was just written. -/
def semicolon (w : Writer) (s : State) : State :=
  if s.hasSemicolon then s else w.append (.added ";") s

/-- A child with what writes it. -/
structure Part where
  field : Field
  node : Node
  write : State → State

/-- Writes the parts of a list. -/
def writeList (w : Writer) (p : Path) (separator : String) : List Part → State → State
  | [], s => s
  | part :: rest, s =>
    let s := part.write s
    let s := if rest.isEmpty || separator.isEmpty then s else w.append (.own separator) s
    let next := rest.head?.map (·.node)
    let s := if w.criteria.separator.any fun needs => needs (p.down part.node) next then
      w.semicolon s else s
    writeList w p separator rest s

/-- The parts that stand in a field. -/
def inField (f : Field) (parts : List Part) : List Part := parts.filter (·.field == f)

def writePiece (w : Writer) (p : Path) (parts : List Part) (s : State) : Piece → State
  | .token text => if text.isEmpty then s else w.append (.own text) s
  | .glued text => s.put (.own text)
  | .child f => (inField f parts).foldl (fun s part => part.write s) s
  | .list f separator => writeList w p separator (inField f parts) s
  | .each f terminator =>
    (inField f parts).foldl (fun s part => w.append (.own terminator) (part.write s)) s
  | .entriesEnd => w.semicolon s
  | .close text => w.append (.own text) (w.writeExtras (w.extras.within p.node) s)
  | .gap => { s with gap := true }

/-- The pieces of the node at the path. -/
def pieces (p : Path) : List Piece :=
  match p.node.kind? with
  | some k => p.node.layout p.parent? k
  | none => []

/-- Writes the node at the path with what surrounds it. What is kept within it comes before the token
that closes it, or at the end. -/
def writeNode (w : Writer) (p : Path) (parts : List Part) (s : State) : State :=
  let s := w.lead p (w.writeExtras (w.extras.before p.node) s)
  let s := s.put (.visit p)
  let s := (pieces p).foldl (w.writePiece p parts) s
  let s := if (pieces p).any (·.isClose) then s else w.writeExtras (w.extras.within p.node) s
  w.writeExtras (w.extras.after p.node) s

mutual

/-- Writes the node below the given ones. -/
def visit (w : Writer) (above : List Node) : Node → State → State
  | .mk id tag scalars children =>
    w.writeNode ⟨.mk id tag scalars children, above⟩
      (w.parts (.mk id tag scalars children :: above) children)

def parts (w : Writer) (above : List Node) : List (Field × Node) → List Part
  | [] => []
  | (f, n) :: rest => ⟨f, n, w.visit above n⟩ :: w.parts above rest

end

/-- All chunks in order. -/
def chunks (w : Writer) (n : Node) : List Chunk := (w.visit [] n {}).chunks.reverse

def text (w : Writer) (n : Node) : String := String.join ((w.chunks n).map (·.text))

/-- The text of a tree of known kinds. -/
def write (w : Writer) (n : Node) : Except NodeError String := do
  n.recognized .writer
  return w.text n

end Writer

end KotlinSyntax
