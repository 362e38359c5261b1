import KotlinSyntax.Keyword
import KotlinSyntax.Raw.Builder

/-! Tests on the tokens to come. Nothing here moves the builder. -/
namespace KotlinSyntax

/-- Words and operators are told apart by their spelling alone. -/
def Token.spells (t : Token) (text : String) : Bool :=
  t.text == text && (t.kind == .keyword || t.kind == .operator || t.kind == .identifier)

namespace Builder

def sees (b : Builder) (text : String) (n : Int := 0) : Bool := (b.peek n).any (·.spells text)

def seesAny (b : Builder) (texts : List String) : Bool := texts.any (b.sees ·)

def seesKind (b : Builder) (kind : TokenKind) (n : Int := 0) : Bool := (b.peek n).any (·.kind == kind)

def seesName (b : Builder) (n : Int := 0) : Bool := b.seesKind .identifier n

/-- The significant tokens to come. -/
def ahead (b : Builder) : List Token :=
  (b.significant.extract b.cursor b.significant.size).toList.filterMap (b.tokens[·]?)

/-- The tokens of an operator that is read in pieces. -/
def pieces (op : String) : List String :=
  if op == "?." then ["?", "."]
  else if op == "?:" then ["?", ":"]
  else if op == ">=" then [">", "="]
  else if op == "as?" then ["as", "?"]
  else [op]

/-- Over how many tokens the operator stands here; 0 if it does not. The pieces must touch. -/
def operatorCount (b : Builder) (op : String) : Nat :=
  let parts := pieces op
  if parts.zipIdx.all fun (part, i) => b.sees part i && (i == 0 || b.adjacent i) then parts.length else 0

/-- The same for the first of the operators that stands here. -/
def operatorsCount (b : Builder) (ops : List String) : Nat :=
  ((ops.map b.operatorCount).find? (0 < ·)).getD 0

/-- The place of the parenthesis that closes `depth` open ones, counted from `n`. -/
def closingParen? (n depth : Nat) : List Token → Option Nat
  | [] => none
  | t :: rest =>
    if t.spells "(" then closingParen? (n + 1) (depth + 1) rest
    else if t.spells ")" then
      if depth ≤ 1 then if depth = 1 then some n else none
      else closingParen? (n + 1) (depth - 1) rest
    else closingParen? (n + 1) depth rest

/-- Whether a parenthesis begins the parameters of a function type, which an arrow follows. -/
def startsFunctionType (b : Builder) (n : Nat := 0) : Bool :=
  b.sees "(" n && match closingParen? n 0 (b.ahead.drop n) with
    | some close => b.sees "->" (close + 1)
    | none => false

end Builder

namespace Grammar

/-- Keywords that begin a declaration. -/
def declarationKeywords : List String :=
  ["class", "interface", "object", "fun", "val", "var", "typealias"]

/-- Where modifiers may stand. -/
inductive ModifierPlace
  | declaration | accessor | parameter | typeParameter | typeArgument | type
  deriving DecidableEq, Repr

def headSpells (text : String) : List Token → Bool
  | t :: _ => t.spells text
  | [] => false

/-- Whether a declaration, with the modifiers in front of it, begins here. -/
def startsDeclaration : List Token → Bool
  | [] => false
  | t :: rest =>
    match t.kind with
    | .keyword => declarationKeywords.contains t.text
    | .operator => t.text == "@"
    | _ =>
      t.text == "constructor" ||
        (!rest.isEmpty && Keyword.modifiers.contains t.text &&
          if t.text == "fun" then headSpells "interface" rest
          else t.kind == .identifier && startsDeclaration rest)

/-- Whether a modifier of an accessor stands here. -/
def modifiesAccessor : List Token → Bool
  | t :: rest =>
    !rest.isEmpty && Keyword.modifiers.contains t.text && t.kind == .identifier &&
      (["get", "set", "@"].any (headSpells · rest) || modifiesAccessor rest)
  | [] => false

/-- Whether the next token is a modifier: a name that is spelled like one is told by what follows it. -/
def atModifier (place : ModifierPlace) : List Token → Bool
  | t :: next :: rest =>
    let soft := t.kind == .identifier
    let nextIsName := next.kind == .identifier
    Keyword.modifiers.contains t.text &&
      match place with
      | .declaration =>
        if t.text == "fun" then next.spells "interface" else soft && startsDeclaration (next :: rest)
      | .accessor => modifiesAccessor (t :: next :: rest)
      | .parameter => soft && (nextIsName || ["val", "var", "@"].any next.spells)
      | .typeParameter => ["in", "out", "reified"].contains t.text && (nextIsName || next.spells "@")
      | .typeArgument => ["in", "out"].contains t.text && (nextIsName || ["(", "@"].any next.spells)
      | .type => t.text == "suspend" && soft && (next.spells "(" || nextIsName)
  | _ => false

/-- The same at a builder, which looks ahead only where a word of a modifier comes next. -/
def standsModifier (place : ModifierPlace) (b : Builder) : Bool :=
  b.peek.any (fun t => Keyword.modifiers.contains t.text) && atModifier place b.ahead

end Grammar

end KotlinSyntax
