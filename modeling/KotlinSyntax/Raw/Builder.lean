import KotlinSyntax.Raw

/-! The builder hands out significant tokens and gathers all tokens into raw nodes. Two counters move
over the tokens: `cursor` counts the significant ones that were taken, `pos` is the first token that no
node holds yet. Trivia waits until the next significant token is taken and then goes into the node under
construction, so a node begins and ends with a significant token unless a comment is bound to it. -/
namespace KotlinSyntax

inductive BuilderError
  | pastEnd
  | emptyNode (kind : RawKind)
  | noTokens
  deriving DecidableEq, Repr

def BuilderError.message : BuilderError → String
  | pastEnd => "TreeBuilder: advanced past end of input"
  | emptyNode kind => "TreeBuilder: empty " ++ kind.name
  | noTokens => "Lexeme.glue: no tokens"

/-- A node under construction. Trivia in front of its first part is kept apart and ends up in the node
that the finished one is added to. -/
structure Marker where
  leading : List Leaf := []
  children : Array RawElement := #[]
  deriving Repr, Inhabited

/-- A finished element with the trivia in front of it. -/
structure Parsed where
  leading : List Leaf
  element : RawElement
  deriving Repr, Inhabited

namespace Marker

def empty : Marker := {}

def addTrivia (m : Marker) (trivia : List Leaf) : Marker :=
  if m.children.isEmpty then { m with leading := m.leading ++ trivia }
  else { m with children := m.children ++ trivia.map RawElement.leaf }

def push (m : Marker) (e : RawElement) : Marker := { m with children := m.children.push e }

def add (m : Marker) (p : Parsed) : Marker := (m.addTrivia p.leading).push p.element

/-- Adds the element if there is one. -/
def add? (m : Marker) (p : Option Parsed) : Marker :=
  match p with
  | some p => m.add p
  | none => m

/-- Takes over all that the other marker gathered. -/
def absorb (m other : Marker) : Marker :=
  let m := m.addTrivia other.leading
  { m with children := m.children ++ other.children }

/-- Takes over all that it gathered itself, so that everything is there once more. -/
def double (m : Marker) : Marker :=
  let m := m.addTrivia m.leading
  { m with children := m.children ++ m.children }

/-- A node whose first part is already there. -/
def ofParsed (p : Parsed) : Marker := ⟨p.leading, #[p.element]⟩

def done (m : Marker) (kind : RawKind) (role : Option String) : Except BuilderError Parsed :=
  if m.children.isEmpty then .error (.emptyNode kind) else .ok ⟨m.leading, .node kind role m.children.toList⟩

end Marker

/-- Gives a node its role; a leaf has none. -/
def Parsed.withRole (p : Parsed) (role : String) : Parsed :=
  match p.element with
  | .node kind _ children => { p with element := .node kind (some role) children }
  | .leaf _ => p

structure Builder where
  tokens : Array Token
  /-- The indices of the significant tokens. -/
  significant : Array Nat
  cursor : Nat := 0
  pos : Nat := 0
  deriving Repr, Inhabited

structure Builder.Snapshot where
  cursor : Nat
  pos : Nat
  deriving DecidableEq, Repr, Inhabited

namespace Builder

def ofTokens (tokens : List Token) : Builder :=
  { tokens := tokens.toArray
    significant := ((tokens.zipIdx.filter fun t => !t.1.kind.isTrivia).map (·.2)).toArray }

/-- The index of the significant token that lies `n` behind the next one. -/
def index? (b : Builder) (n : Int) : Option Nat :=
  let i := b.cursor + n
  if i < 0 then none else b.significant[i.toNat]?

def peek (b : Builder) (n : Int := 0) : Option Token := (b.index? n).bind (b.tokens[·]?)

def atEnd (b : Builder) : Bool := b.peek.isNone

/-- Where the next significant token begins, or the text ends. -/
def offset (b : Builder) : Nat :=
  match b.peek with
  | some t => t.start
  | none => (b.tokens.back?.map (·.stop)).getD 0

/-- How many significant tokens are left. -/
def remaining (b : Builder) : Nat := b.significant.size - b.cursor

/-- The trivia in front of the `n`th token to come. -/
def gap (b : Builder) (n : Int) : List Token :=
  let start := ((b.index? (n - 1)).map (· + 1)).getD 0
  let stop := (b.index? n).getD b.tokens.size
  (b.tokens.extract start stop).toList

def newlineBefore (b : Builder) (n : Int := 0) : Bool := (b.gap n).any (·.breaksLine)

def semicolonBefore (b : Builder) (n : Int := 0) : Bool := (b.gap n).any (·.kind == .semicolon)

def separatedBefore (b : Builder) (n : Int := 0) : Bool := b.newlineBefore n || b.semicolonBefore n

/-- Whether the `n`th token to come follows the one before it directly. -/
def adjacent (b : Builder) (n : Int := 0) : Bool := (b.gap n).isEmpty

/-- Moves the tokens up to `stop` into the marker. -/
def takeTrivia (b : Builder) (m : Marker) (stop : Nat) : Builder × Marker :=
  ({ b with pos := max b.pos stop },
    m.addTrivia ((b.tokens.extract b.pos stop).toList.map Leaf.ofToken))

/-- Moves the next `count` tokens into the marker as one leaf. -/
def take (b : Builder) (m : Marker) (count : Nat) (trivia : Bool) :
    Builder × Marker × Except BuilderError Leaf :=
  match b.index? 0, b.index? (count - 1) with
  | some first, some last =>
    let (b, m) := b.takeTrivia m first
    let parts := (b.tokens.extract first (last + 1)).toList
    match if count = 1 then parts.head? else Token.glue? parts with
    | some token =>
      ({ b with cursor := b.cursor + count, pos := last + 1 }, m.push (.leaf ⟨token, trivia⟩),
        .ok ⟨token, trivia⟩)
    | none => (b, m, .error .noTokens)
  | _, _ => (b, m, .error .pastEnd)

/-- Pulls a comment that ends the current line into the marker. -/
def bindTrailingComment (b : Builder) (m : Marker) : Builder × Marker :=
  let blank := b.tokens[b.pos]?.any fun t => t.kind == .whitespace && !t.breaksLine
  let next := if blank then b.pos + 1 else b.pos
  if b.tokens[next]?.any (·.kind == .lineComment) then b.takeTrivia m (next + 1) else (b, m)

/-- Finishes the root with all trivia that is left. -/
def finish (b : Builder) (m : Marker) (kind : RawKind) : Builder × Marker × RawElement :=
  let (b, m) := b.takeTrivia m b.tokens.size
  (b, m, .node kind none (m.leading.map .leaf ++ m.children.toList))

def snapshot (b : Builder) : Snapshot := ⟨b.cursor, b.pos⟩

def restore (b : Builder) (s : Snapshot) : Builder := { b with cursor := s.cursor, pos := s.pos }

end Builder

end KotlinSyntax
