import KotlinSyntax.Value

/-! Logging: what is logged goes to every listener in the order in which they subscribed. A capture
listens for as long as its body runs and keeps the lines. -/
namespace KotlinSyntax

namespace Log

/-- A step of a program that logs. -/
inductive Step
  | subscribe (id : String)
  | unsubscribe (id : String)
  | log (args : List Value)
  | capture (id : String) (body : List Step)
  | fail (message : String)
  deriving Repr, Inhabited

/-- What a listener has heard: the values of each entry, or its line. -/
inductive Entry
  | args (vs : List Value)
  | line (s : String)
  deriving Repr, Inhabited

structure Listener where
  id : String
  /-- Whether lines are kept instead of values. -/
  lines : Bool
  deriving DecidableEq, Repr, Inhabited

structure State where
  listeners : List Listener := []
  /-- What each listener has heard, also after it left. -/
  sinks : List (String × List Entry) := []
  deriving Repr, Inhabited

namespace State

/-- Opens a sink, where there is none of the name. -/
def opening (s : State) (id : String) : State :=
  if (s.sinks.lookup id).isSome then s else { s with sinks := s.sinks ++ [(id, [])] }

def record (s : State) (id : String) (e : Entry) : State :=
  { s with sinks := s.sinks.map fun (k, es) => if k == id then (k, es ++ [e]) else (k, es) }

def join (s : State) (l : Listener) : State :=
  { s.opening l.id with listeners := s.listeners ++ [l] }

def leave (s : State) (l : Listener) : State := { s with listeners := s.listeners.filter (· != l) }

def log (s : State) (args : List Value) : State :=
  s.listeners.foldl (fun s l =>
    s.record l.id (if l.lines then .line (Value.line args) else .args args)) s

end State

mutual

/-- Runs a step. A failure is handed on with its message. -/
def step (s : State) : Step → State × Option String
  | .subscribe id => (s.join ⟨id, false⟩, none)
  | .unsubscribe id => (s.leave ⟨id, false⟩, none)
  | .log args => (s.log args, none)
  | .capture id body =>
    match steps (s.join ⟨id, true⟩) body with
    | (s, none) => (s.leave ⟨id, true⟩, none)
    | (s, some message) => ((s.leave ⟨id, true⟩).record id (.line ("threw " ++ message)), none)
  | .fail message => (s, some message)

/-- Runs steps up to the first failure. -/
def steps (s : State) : List Step → State × Option String
  | [] => (s, none)
  | st :: rest =>
    match step s st with
    | (s, none) => steps s rest
    | (s, some message) => (s, some message)

end

/-- Insertion by name. -/
def insertSorted (e : String × List Entry) : List (String × List Entry) → List (String × List Entry)
  | [] => [e]
  | x :: xs => if e.1 < x.1 then e :: x :: xs else x :: insertSorted e xs

/-- What every listener of a program has heard, sorted by name. -/
def run (program : List Step) : List (String × List Entry) :=
  (steps {} program).1.sinks.foldl (fun acc e => insertSorted e acc) []

end Log

end KotlinSyntax
