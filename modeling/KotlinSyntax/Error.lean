import KotlinSyntax.Grammar.File
import KotlinSyntax.Placement

/-! Everything that can go wrong between a source and its tree, and the words for it. -/
namespace KotlinSyntax

/-- How messages name a source without a name of its own. -/
def unnamedSource : String := "<input>"

def lexMessage (description : String) (offset : Number) : String :=
  "LexError: " ++ description ++ " at offset " ++ offset.render

/-- Syntax errors, one line for each. -/
def faultsMessage (faults : List (String × Number)) (fileName : String) : String :=
  let line (f : String × Number) : String := "  " ++ fileName ++ ":" ++ f.2.render ++ ": " ++ f.1
  "ParseError: " ++ toString faults.length ++ " syntax error(s)\n" ++
    String.intercalate "\n" (faults.map line)

def unsupportedMessage (construct : String) (offset : Option Number) : String :=
  let place := match offset with
    | some n => " at offset " ++ n.render
    | none => ""
  "UnsupportedConstructError: " ++ construct ++ place

namespace ConversionError

def message : ConversionError → String
  | mismatch expected owner offset found =>
    "Converter: expected " ++ expected ++ " in " ++ owner.name ++ " at offset " ++ Number.decimal offset ++
      ", found " ++ found
  | wrongForm expected offset found =>
    "Converter: expected " ++ expected.name ++ " at offset " ++ Number.decimal offset ++ ", found " ++
      found.name
  | unexpected expected found => "Converter: expected " ++ expected ++ ", found " ++ found
  | unsupported construct offset => unsupportedMessage construct (some (.ofInt offset))
  | node e => e.message

end ConversionError

namespace Grammar.Failure

def message : Failure → String
  | rejected fault => fault.message
  | builder e => e.message
  | exhausted => "rules nested too deeply"

end Grammar.Failure

inductive Error
  | lex (e : LexError)
  /-- The source breaks the grammar in some places. -/
  | faults (faults : List Fault) (fileName : Option String)
  | grammar (e : Grammar.Failure)
  | conversion (e : ConversionError)
  | placement (e : PlacementError)
  | node (e : NodeError)
  deriving DecidableEq, Repr

namespace Error

def message : Error → String
  | lex e => lexMessage e.cause.description (.ofInt e.offset)
  | faults fs fileName =>
    faultsMessage (fs.map fun f => (f.complaint.description, .ofInt f.offset))
      (fileName.getD unnamedSource)
  | grammar e => e.message
  | conversion e => e.message
  | placement e => e.message
  | node e => e.message

/-- Whether the source is to blame. -/
def isFrontEnd : Error → Bool
  | lex _ | faults .. | conversion (.unsupported ..) => true
  | _ => false

end Error

end KotlinSyntax
