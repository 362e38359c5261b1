/-! The forms of a source. -/
namespace KotlinSyntax

/-- A file holds declarations; a script holds statements. -/
inductive Form
  | file | script
  deriving DecidableEq, Repr, Inhabited

def Form.name : Form → String
  | file => "file"
  | script => "script"

end KotlinSyntax
