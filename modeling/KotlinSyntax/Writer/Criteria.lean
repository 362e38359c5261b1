import KotlinSyntax.Extra
import KotlinSyntax.Node.Inspect
import KotlinSyntax.Text.Letter
import KotlinSyntax.Text.Units

/-! Criteria: where a writer puts a blank, a line break or a semicolon that the tree does not hold,
because without it the text would read differently. -/
namespace KotlinSyntax

namespace Writer

/-- Whether the text is one letter, digit or underscore. -/
def isNonSymbol (unit : Option String) : Bool :=
  match unit.map (·.toList) with
  | some [c] => Text.continuesName c
  | _ => false

/-- Whether a blank goes between the last unit written and the first unit of what follows. -/
abbrev SpaceCriterion := Option String → Option String → Bool

/-- Whether a line break goes before the node. -/
abbrev NewlineCriterion := Path → Bool

/-- Whether a semicolon goes after the node of a list, before the one that follows. -/
abbrev SeparatorCriterion := Path → Option Node → Bool

def spaceCriteria : List SpaceCriterion := [
  fun last next => last == some ">" && next == some "=",
  fun last next => isNonSymbol last && isNonSymbol next,
  fun last next => last == some "-" && next == some "-",
  fun last next => last == some "+" && next == some "+",
  fun last next => isNonSymbol last && next == some "@"]

/-- Whether the node is the very node that stands first in the field of its parent. -/
def isFirst (parent : Node) (f : Field) (n : Node) : Bool :=
  (parent.get? f).any (·.id == n.id)

/-- Whether the node lists statements. -/
def ownsStatements (n : Node) : Bool :=
  n.isKind .blockExpression || n.isKind .lambdaBody || n.isKind .kotlinScript

/-- Statements after the first in a block, a lambda or a script. -/
def laterStatement : NewlineCriterion := fun p =>
  p.parent?.any fun owner =>
    ownsStatements owner && p.node.isIn .statement && !isFirst owner .statements p.node

/-- Declarations after the first in a file or the body of a class. -/
def laterDeclaration : NewlineCriterion := fun p =>
  p.parent?.any fun owner =>
    (owner.isKind .kotlinFile || owner.isKind .classBody) && p.node.isIn .declaration &&
      !isFirst owner .declarations p.node

def laterBranch : NewlineCriterion := fun p =>
  p.parent?.any fun owner =>
    owner.isKind .whenExpression && p.node.isKind .whenBranch &&
      !isFirst owner .whenBranches p.node

/-- An accessor must not continue the expression before it. -/
def accessorAfterExpression : NewlineCriterion := fun p =>
  p.parent?.any fun owner =>
    owner.isKind .propertyDeclaration && p.node.isIn .accessor &&
      (if isFirst owner .accessors p.node then owner.has .initializer || owner.has .propertyDelegate
      else match owner.all .accessors with
        | first :: second :: _ => second.id == p.node.id && first.has .equals
        | _ => false)

/-- Keeps an annotation from applying to the left operand only. -/
def annotatedOperation : NewlineCriterion := fun p =>
  p.parent?.any fun owner =>
    owner.isKind .annotatedExpression &&
      (p.node.isKind .binaryExpression || p.node.isKind .binaryTypeExpression)

def newlineCriteria : List NewlineCriterion :=
  [laterStatement, laterDeclaration, laterBranch, accessorAfterExpression, annotatedOperation]

/-- A name that is spelled like a modifier would modify the declaration after it. -/
def nameBeforeDeclaration : SeparatorCriterion := fun p next =>
  p.node.isKind .nameExpression && Keyword.modifiers.contains p.node.text &&
    next.any (·.isIn .declaration) && p.parent?.any ownsStatements

/-- A lambda on its own would become the last argument of the call before it. -/
def callBeforeLambda : SeparatorCriterion := fun p next =>
  p.node.isKind .callExpression && !p.node.has .lambdaArg && next.any (·.isKind .lambdaExpression)

def separatorCriteria : List SeparatorCriterion := [nameBeforeDeclaration, callBeforeLambda]

/-- The criteria that a writer goes by. -/
structure Criteria where
  space : List SpaceCriterion := spaceCriteria
  newline : List NewlineCriterion := newlineCriteria
  separator : List SeparatorCriterion := separatorCriteria
  deriving Inhabited

/-- One digit for each answer. -/
def bits (answers : List Bool) : String :=
  String.ofList (answers.map fun b => if b then '1' else '0')

/-- Which of the usual criteria ask for a blank. -/
def spaceBits (last next : Option String) : String := bits (spaceCriteria.map fun f => f last next)

/-- Where the usual criteria ask for something in a tree: the path, and which of them ask for a line
break before the node and for a semicolon after it. -/
def asked (n : Node) : List (Path × String × String) :=
  let row (p : Path) : Path × List Bool × List Bool :=
    let next := p.parent?.bind fun owner => owner.next? p.node
    (p, newlineCriteria.map (· p), separatorCriteria.map fun f => f p next)
  let rows := (n.paths.map row).filter fun (_, lines, separators) => (lines ++ separators).any id
  rows.map fun (p, lines, separators) => (p, bits lines, bits separators)

end Writer

end KotlinSyntax
