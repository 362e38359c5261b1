import KotlinSyntax.Node
import KotlinSyntax.Text.Blank

/-! Demands: combinations of fields that a kind requires or refuses, beyond what each field takes. They
are tried in the order of the list, and a node must meet all of them. -/
namespace KotlinSyntax

/-- A condition on a node, with the words for a node that breaks it. -/
structure Demand where
  message : String
  meets : Node → Bool

namespace Demand

/-- Both fields are filled, or neither is. -/
def paired (a b : Field) (message : String) : Demand := ⟨message, fun n => n.has a == n.has b⟩

/-- The first field is filled only together with the second. -/
def needs (a b : Field) (message : String) : Demand := ⟨message, fun n => !n.has a || n.has b⟩

/-- The two fields are never filled together. -/
def excludes (a b : Field) (message : String) : Demand := ⟨message, fun n => !n.has a || !n.has b⟩

/-- The field holds at least one node. -/
def filled (f : Field) (message : String) : Demand := ⟨message, fun n => n.has f⟩

def pairedParentheses : Demand := paired .lPar .rPar "lPar and rPar must be paired"

def bodyForEquals : Demand := needs .equals .body "equals needs a body"

/-- Whether a condition tests for a type. -/
def testsType (n : Node) : Bool :=
  (n.get? .operator).any fun o => o.text == "is" || o.text == "!is"

/-- Whether an expression may stand in a template without braces. -/
def isBrief (n : Node) : Bool :=
  n.isKind .nameExpression || (n.isKind .thisExpression && !n.has .label)

end Demand

namespace Kind

open Demand

def demands : Kind → List Demand
  | propertyDeclaration => [
    filled .bindings "at least one variable required",
    pairedParentheses,
    ⟨"multiple variables require grouping parentheses",
      fun n => (n.all .bindings).length ≤ 1 || n.has .lPar⟩,
    ⟨"a single variable must not be grouped in parentheses",
      fun n => (n.all .bindings).length != 1 || !n.has .lPar⟩,
    needs .trailingComma .lPar "trailing comma requires grouping parentheses",
    paired .equals .initializer "equals and initializer must be paired",
    excludes .propertyDelegate .initializer
      "a property cannot have both a delegate and an initializer",
    ⟨"at most one getter allowed",
      fun n => ((n.all .accessors).filter (·.isKind .getter)).length ≤ 1⟩,
    ⟨"at most one setter allowed",
      fun n => ((n.all .accessors).filter (!·.isKind .getter)).length ≤ 1⟩]
  | getter => [
    pairedParentheses, needs .body .lPar "a getter body requires parentheses", bodyForEquals]
  | setter => [paired .params .body "params and body must be paired", bodyForEquals]
  | functionDeclaration => [bodyForEquals]
  | functionParam => [paired .equals .defaultValue "equals and default value must be paired"]
  | whenBranch => [
    excludes .whenConditions .elseKeyword "a branch with conditions cannot be an else branch",
    ⟨"a branch without conditions must be an else branch",
      fun n => n.has .whenConditions || n.has .elseKeyword⟩,
    needs .trailingComma .whenConditions "an else branch cannot have a trailing comma"]
  | whenCondition => [
    ⟨"a type condition takes a type only",
      fun n => !testsType n || (n.has .typeRef && !n.has .expression)⟩,
    ⟨"an expression or range condition takes an expression only",
      fun n => testsType n || (n.has .expression && !n.has .typeRef)⟩]
  | templateStringEntry => [
    ⟨"a short template can only wrap a name or this",
      fun n => !n.flag .isShort || (n.get? .expression).any isBrief⟩]
  | escapeStringEntry => [
    ⟨"escape sequences start with a backslash", fun n => n.text.toList.head? == some '\\'⟩]
  | typeArg => [
    ⟨"a star projection has no type or modifiers",
      fun n => !n.flag .asterisk || (!n.has .typeRef && !n.has .modifiers)⟩,
    ⟨"a type argument needs a type", fun n => n.flag .asterisk || n.has .typeRef⟩]
  | lambdaParam => [
    filled .bindings "at least one variable required",
    pairedParentheses,
    ⟨"multiple variables require grouping parentheses",
      fun n => (n.all .bindings).length == 1 || n.has .lPar⟩,
    needs .trailingComma .lPar "trailing comma requires grouping parentheses",
    paired .colon .destructTypeRef "colon and destructuring type must be paired",
    needs .colon .lPar "a destructuring type requires grouping parentheses"]
  | whenExpression => [
    pairedParentheses, paired .lPar .expression "a subject needs parentheses"]
  | nullableType | typeRef => [pairedParentheses]
  | importDirective => [
    ⟨"a wildcard import cannot be aliased", fun n => !n.flag .wildcard || !n.has .importAlias⟩,
    filled .names "an import needs a name"]
  | nameExpression => [⟨"a name cannot be empty", fun n => !n.text.isEmpty⟩]
  | whitespace => [
    ⟨"whitespace must be non-empty blank text",
      fun n => !n.text.isEmpty && n.text.toList.all Text.isBlank⟩]
  | _ => []

end Kind

namespace Node

/-- The first demand of its kind that the node breaks. -/
def broken? (n : Node) : Option Demand :=
  n.kind?.bind fun k => k.demands.find? fun d => !d.meets n

end Node

end KotlinSyntax
