import KotlinSyntax.Grammar.Sight

/-! The monad of the grammar. A rule either gives an element and leaves the builder behind it, or fails.
It adds faults and lines of the log to what was there without seeing them, so what it gives depends on the
tokens alone. Whoever catches a failure goes on from the builder in front of the rule: a speculation drops
the faults that the rule added, recovery keeps them. What was noted in the log stays. -/
namespace KotlinSyntax

/-- What is wrong with the source at some place. -/
inductive Complaint
  | expected (what : String)
  | expectedText (text : String)
  | unexpected (text : String)
  | unexpectedEnd
  | not (what : String)
  | unterminatedTemplate
  deriving DecidableEq, Repr

def Complaint.description : Complaint → String
  | expected what => "expected " ++ what
  | expectedText text => "expected '" ++ text ++ "'"
  | unexpected text => "unexpected '" ++ text ++ "'"
  | unexpectedEnd => "unexpected end of input"
  | not what => "not " ++ what
  | unterminatedTemplate => "unterminated string template"

structure Fault where
  complaint : Complaint
  offset : Nat
  deriving DecidableEq, Repr

def Fault.message (f : Fault) : String :=
  f.complaint.description ++ " at offset " ++ toString f.offset

inductive Grammar.Failure
  /-- The tokens do not fit the rule. -/
  | rejected (fault : Fault)
  /-- A rule used the builder wrongly. -/
  | builder (e : BuilderError)
  /-- The bound on the depth of rules was too small. -/
  | exhausted
  deriving DecidableEq, Repr

structure Grammar.State where
  builder : Builder
  faults : List Fault := []
  log : List String := []
  deriving Inhabited

/-- What the surroundings of a rule allow. -/
structure Grammar.Scope where
  trailingLambdas : Bool := true

/-- What a rule adds to the faults and to the log, and a value with the builder behind it, or why there
is none. -/
structure Grammar.Answer (α : Type) where
  faults : List Fault := []
  log : List String := []
  result : Except Grammar.Failure (α × Builder)

def Grammar (α : Type) : Type := Grammar.Scope → Builder → Grammar.Answer α

namespace Grammar

instance : Monad Grammar where
  pure a := fun _ b => { result := .ok (a, b) }
  bind g f := fun scope b =>
    match g scope b with
    | ⟨faults, log, .ok (a, b)⟩ =>
      let next := f a scope b
      ⟨faults ++ next.faults, log ++ next.log, next.result⟩
    | ⟨faults, log, .error e⟩ => ⟨faults, log, .error e⟩

def fail (e : Failure) : Grammar α := fun _ _ => { result := .error e }

/-- The text of a brace that opens a block. -/
def openBrace : String := "\x7b"

/-- The text of a brace that closes a block. -/
def closeBrace : String := "\x7d"

/-- The builder as it stands. -/
def look : Grammar Builder := fun _ b => { result := .ok (b, b) }

/-- Goes on from another builder. -/
def goTo (b : Builder) : Grammar Unit := fun _ _ => { result := .ok ((), b) }

/-- What the surroundings allow. -/
def surroundings : Grammar Scope := fun scope b => { result := .ok (scope, b) }

def reject (complaint : Complaint) : Grammar α := do
  fail (.rejected ⟨complaint, (← look).offset⟩)

/-- Records a fault and goes on. -/
def complain (complaint : Complaint) : Grammar Unit := fun _ b =>
  { faults := [⟨complaint, b.offset⟩], result := .ok ((), b) }

def complainUnless (fine : Bool) (complaint : Complaint) : Grammar Unit :=
  if fine then return () else complain complaint

def note (line : String) : Grammar Unit := fun _ b => { log := [line], result := .ok ((), b) }

def take (m : Marker) (count : Nat) (trivia : Bool) : Grammar Marker := do
  let (b, m, leaf) := (← look).take m count trivia
  goTo b
  match leaf with
  | .ok _ => return m
  | .error e => fail (.builder e)

/-- Moves the next token into the marker. -/
def advance (m : Marker) : Grammar Marker := take m 1 false

/-- Moves the next two tokens into the marker. -/
def advanceTwice (m : Marker) : Grammar Marker := do advance (← advance m)

/-- Moves several tokens into the marker as one operator. -/
def advanceGlued (m : Marker) (count : Nat) : Grammar Marker := take m count false

/-- Moves the next token into the marker as trivia. -/
def advanceAsTrivia (m : Marker) : Grammar Marker := take m 1 true

/-- The next token as an element of its own. -/
def token : Grammar Parsed := do
  let (b, m, leaf) := (← look).take .empty 1 false
  goTo b
  match leaf with
  | .ok leaf => return ⟨m.leading, .leaf leaf⟩
  | .error e => fail (.builder e)

def done (m : Marker) (kind : RawKind) (role : Option String := none) : Grammar Parsed :=
  match m.done kind role with
  | .ok p => return p
  | .error e => fail (.builder e)

/-- A node, unless nothing was gathered for it. -/
def doneUnlessEmpty (m : Marker) (kind : RawKind) : Grammar (Option Parsed) :=
  if m.children.isEmpty then return none else some <$> done m kind

def bindTrailingComment (m : Marker) : Grammar Marker := do
  let (b, m) := (← look).bindTrailingComment m
  goTo b
  return m

/-- Runs a rule; on rejection rewinds and gives nothing. -/
def speculate (rule : Grammar α) : Grammar (Option α) := fun scope b =>
  match rule scope b with
  | ⟨faults, log, .ok (a, b)⟩ => ⟨faults, log, .ok (some a, b)⟩
  | ⟨_, log, .error (.rejected _)⟩ => ⟨[], log, .ok (none, b)⟩
  | ⟨faults, log, .error e⟩ => ⟨faults, log, .error e⟩

/-- Whether the rule would succeed here. Nothing is taken. -/
def lookahead (rule : Grammar α) : Grammar Bool := fun scope b =>
  match rule scope b with
  | ⟨_, log, .ok _⟩ => ⟨[], log, .ok (true, b)⟩
  | ⟨_, log, .error (.rejected _)⟩ => ⟨[], log, .ok (false, b)⟩
  | ⟨faults, log, .error e⟩ => ⟨faults, log, .error e⟩

def withTrailingLambdas (allowed : Bool) (rule : Grammar α) : Grammar α := fun _ b =>
  rule { trailingLambdas := allowed } b

/-- One turn of a loop ends it or asks for another. -/
inductive Turn (α : Type)
  | again (a : α)
  | stop (a : α)

def turns (step : α → Grammar (Turn α)) : Nat → α → Grammar α
  | 0, _ => fail .exhausted
  | n + 1, a => do
    match ← step a with
    | .again a => turns step n a
    | .stop a => return a

/-- Repeats a step. Each turn but the last takes a token, so the tokens left bound the turns. -/
def iterate (step : α → Grammar (Turn α)) (a : α) : Grammar α := do
  turns step ((← look).remaining + 1) a

/-- Repeats a step as long as the test holds. -/
def iterateWhile (test : Builder → Bool) (step : α → Grammar α) (a : α) : Grammar α :=
  iterate (fun a => do
    if test (← look) then return .again (← step a) else return .stop a) a

/-- Takes one more token, unless nothing is left or a boundary between statements has been reached. -/
def skipTurn : Marker × Nat → Grammar (Turn (Marker × Nat))
  | (m, depth) => do
    let b ← look
    let boundary := !m.children.isEmpty && depth = 0 && (b.separatedBefore || b.sees closeBrace)
    if b.atEnd || boundary then return .stop (m, depth)
    else
      let depth := if b.sees openBrace then depth + 1 else if b.sees closeBrace then depth - 1 else depth
      return .again (← advance m, depth)

/-- All tokens up to the next boundary, as an error node. -/
def skipToBoundary : Grammar (Option Parsed) := do
  let (m, _) ← iterate skipTurn (Marker.empty, 0)
  doneUnlessEmpty m .errorElement

/-- Adds what the rule gives. On rejection the fault is recorded and the tokens up to the next boundary
are added instead. -/
def recovering (m : Marker) (rule : Grammar Parsed) : Grammar Marker := fun scope b =>
  match rule scope b with
  | ⟨faults, log, .ok (p, b)⟩ => ⟨faults, log, .ok (m.add p, b)⟩
  | ⟨faults, log, .error (.rejected fault)⟩ =>
    let line := "recovering from \"" ++ fault.complaint.description ++ "\" at offset " ++ toString fault.offset
    let skipped := (do return m.add? (← skipToBoundary) : Grammar Marker) scope b
    ⟨faults ++ fault :: skipped.faults, log ++ line :: skipped.log, skipped.result⟩
  | ⟨faults, log, .error e⟩ => ⟨faults, log, .error e⟩

def expect (m : Marker) (text : String) : Grammar Marker := do
  if (← look).sees text then advance m else reject (.expectedText text)

def expectKind (m : Marker) (kind : TokenKind) (what : String) : Grammar Marker := do
  if (← look).seesKind kind then advance m else reject (.expected what)

def expectName (m : Marker) : Grammar Marker := expectKind m .identifier "an identifier"

def expectAny (m : Marker) (texts : List String) (what : String) : Grammar Marker := do
  if (← look).seesAny texts then advance m else reject (.expected what)

/-- Moves the next token into the marker where the test holds. -/
def advanceIf (test : Builder → Bool) (m : Marker) : Grammar Marker := do
  if test (← look) then advance m else return m

/-- Moves the next two tokens into the marker where the test holds. -/
def advanceTwiceIf (test : Builder → Bool) (m : Marker) : Grammar Marker := do
  if test (← look) then advanceTwice m else return m

/-- Adds what the rule gives where the test holds. -/
def addIf (test : Builder → Bool) (rule : Grammar Parsed) (m : Marker) : Grammar Marker := do
  if test (← look) then return m.add (← rule) else return m

/-- An item and the comma behind it. The list ends in front of the closing text or where no comma is. -/
def commaTurn (close : String) (item : Grammar Parsed) (m : Marker) : Grammar (Turn Marker) := do
  if (← look).sees close then return .stop m
  else
    let m := m.add (← item)
    if (← look).sees "," then return .again (← advance m) else return .stop m

/-- Items with commas between them, up to the closing text. A comma may stand in front of it. -/
def commaList (m : Marker) (close : String) (item : Grammar Parsed) : Grammar Marker :=
  iterate (commaTurn close item) m

/-- A list between two texts, as a node of its own. -/
def bracketed (kind : RawKind) (opening closing : String) (item : Grammar Parsed) : Grammar Parsed := do
  let m ← expect .empty opening
  let m ← commaList m closing item
  done (← expect m closing) kind

/-- The rules through which the grammar recurs. -/
inductive Rule
  | expression
  | unary
  | typeReference (receiver : Bool)
  | annotationSet
  | statement
  | classBody (isEnum : Bool)
  deriving DecidableEq, Repr

/-- How a rule calls the others. -/
abbrev Recur := Rule → Grammar Parsed

end Grammar

end KotlinSyntax
