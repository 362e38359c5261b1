import KotlinSyntax.Form
import KotlinSyntax.Token.Lexer
import KotlinSyntax.Grammar.Expression

/-! Whole sources. The rules are tied together with a bound on their depth: a rule that calls another at
the same token calls a lower one, so a fixed number of calls for each token is enough. -/
namespace KotlinSyntax

namespace Grammar

/-- What a rule stands for, given how to call the rules again. -/
def body (recur : Recur) : Rule → Grammar Parsed
  | .expression => expression recur
  | .unary => unary recur
  | .typeReference receiver => typeReference recur receiver
  | .annotationSet => annotationSet recur
  | .statement => statement recur
  | .classBody isEnum => classBody recur isEnum

/-- A rule with at most `depth` calls nested in each other. -/
def rule : Nat → Rule → Grammar Parsed
  | 0, _ => fail .exhausted
  | depth + 1, r => body (rule depth) r

/-- How deep rules may nest over so many tokens. -/
def depthFor (tokens : Nat) : Nat := 8 * (tokens + 1)

/-- A rule at the current place. -/
def apply (r : Rule) : Grammar Parsed := do rule (depthFor (← look).significant.size) r

def qualifiedNameInto (m : Marker) : Grammar Marker := do
  let m ← expectName m
  iterateWhile (fun b => b.sees "." && b.seesName 1 && !b.newlineBefore) advanceTwice m

def packageDirective : Grammar Parsed := do
  let m ← advance .empty
  done (← qualifiedNameInto m) .packageDirective

def importAliasInto (m : Marker) : Grammar Marker := do
  let b ← look
  if b.sees "as" && !b.newlineBefore then
    let aliased ← advance .empty
    let aliased ← expectName aliased
    return m.add (← done aliased .importAlias)
  else return m

def importDirective : Grammar Parsed := do
  let m ← advance .empty
  let m ← expectName m
  let m ← iterate (fun m => do
    let b ← look
    if b.sees "." && !b.newlineBefore then
      let m ← advance m
      if (← look).sees "*" then return .stop (← advance m) else return .again (← expectName m)
    else return .stop m) m
  done (← importAliasInto m) .importDirective

def importList : Grammar Parsed := do
  let m ← iterateWhile (·.sees "import") (fun m => return m.add (← importDirective)) .empty
  done m .importList

def packageInto (m : Marker) : Grammar Marker := do
  if (← look).sees "package" then recovering m packageDirective else return m

def importsInto (m : Marker) : Grammar Marker := do
  if (← look).sees "import" then recovering m importList else return m

/-- An annotation of the whole file comes next. -/
def atFileAnnotations (b : Builder) : Bool :=
  b.sees "@" && b.sees "file" 1 && b.sees ":" 2 && b.adjacent 1

/-- Annotations of the file, its package and its imports. -/
def headerInto (m : Marker) : Grammar Marker := do
  let m ← iterateWhile atFileAnnotations (recovering · (apply .annotationSet)) m
  importsInto (← packageInto m)

def finish (m : Marker) (kind : RawKind) : Grammar RawElement := do
  let (b, _, root) := (← look).finish m kind
  goTo b
  return root

def file : Grammar RawElement := do
  let m ← headerInto .empty
  let recur := rule (depthFor (← look).significant.size)
  let m ← iterateWhile (!·.atEnd) (recovering · (declarationOnly recur .file "a declaration")) m
  finish m .file

def script : Grammar RawElement := do
  let m ← headerInto .empty
  let recur := rule (depthFor (← look).significant.size)
  finish (← statementsInto recur (fun _ => false) m) .script

def source : Form → Grammar RawElement
  | .file => file
  | .script => script

/-- Runs a rule over the tokens from their start. -/
def run (g : Grammar α) (tokens : List Token) : EStateM.Result Failure State α :=
  match g {} (.ofTokens tokens) with
  | ⟨faults, log, .ok (a, b)⟩ => .ok a ⟨b, faults, log⟩
  | ⟨faults, log, .error e⟩ => .error e ⟨.ofTokens tokens, faults, log⟩

end Grammar

end KotlinSyntax
