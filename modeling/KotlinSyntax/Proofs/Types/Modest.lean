import KotlinSyntax.Proofs.Conversion.Reading
import KotlinSyntax.Proofs.Parse.Spelling

/-! Modest types: those without modifiers, annotations, contexts and dangling commas. What is written of one is a list
of words, and the raw tree of one has a leaf for each of them. -/
namespace KotlinSyntax

open Conversion (one opt many)

inductive TypePart
  | name | argument | arguments | qualifier | simple | nullable | parameter | parameters | function | reference
  deriving DecidableEq, Repr

namespace TypePart

/-- A type that a function may extend. -/
def isNamed : TypePart → Bool
  | simple | nullable => true
  | _ => false

def isType : TypePart → Bool
  | simple | nullable | function => true
  | _ => false

end TypePart

def isTypeName (text : String) : Bool := Lexer.isIdentifier text && text != "dynamic"

def inParentheses (left right : Nat) (type : Node) : List (Field × Node) :=
  one .lPar (.mk left (.kind .keyword) [(.text, .text "(")] []) ++ one .type type ++
    one .rPar (.mk right (.kind .keyword) [(.text, .text ")")] [])

inductive Modest : TypePart → Node → Prop
  | name {id : Nat} {text : String} (is : isTypeName text = true) :
      Modest .name (.mk id (.kind .nameExpression) [(.text, .text text)] [])
  | star {id : Nat} : Modest .argument (.mk id (.kind .typeArg) [(.asterisk, .flag true)] [])
  | argument {id : Nat} {type : Node} (is : Modest .reference type) :
      Modest .argument (.mk id (.kind .typeArg) [(.asterisk, .flag false)] (one .typeRef type))
  | arguments {id : Nat} {elements : List Node} (each : ∀ a ∈ elements, Modest .argument a) :
      Modest .arguments (.mk id (.kind .typeArgs) [] (many .elements elements))
  | qualifier {id : Nat} {name : Node} {args : Option Node} (is : Modest .name name)
      (has : ∀ list ∈ args, Modest .arguments list) :
      Modest .qualifier (.mk id (.kind .simpleTypeQualifier) [] (one .name name ++ opt .typeArgs args))
  | simple {id : Nat} {qualifiers : List Node} {name : Node} {args : Option Node}
      (each : ∀ q ∈ qualifiers, Modest .qualifier q) (is : Modest .name name)
      (has : ∀ list ∈ args, Modest .arguments list) :
      Modest .simple (.mk id (.kind .simpleType) []
        (many .qualifiers qualifiers ++ one .name name ++ opt .typeArgs args))
  | nullable {id : Nat} {type : Node} (is : Modest .simple type) :
      Modest .nullable (.mk id (.kind .nullableType) [] (one .type type))
  | parameter {id : Nat} {name : Option Node} {type : Node} (named : ∀ n ∈ name, Modest .name n)
      (is : Modest .reference type) :
      Modest .parameter (.mk id (.kind .functionTypeParam) [] (opt .name name ++ one .typeRef type))
  | parameters {id : Nat} {elements : List Node} (each : ∀ p ∈ elements, Modest .parameter p) :
      Modest .parameters (.mk id (.kind .functionTypeParams) [] (many .elements elements))
  | function {id : Nat} {params result : Node} (takes : Modest .parameters params) (gives : Modest .reference result) :
      Modest .function (.mk id (.kind .functionType) [] (one .params params ++ one .returnTypeRef result))
  | extension {id receiver reference : Nat} {part : TypePart} {type params result : Node} (named : part.isNamed = true)
      (is : Modest part type) (takes : Modest .parameters params) (gives : Modest .reference result) :
      Modest .function (.mk id (.kind .functionType) [] (one .functionTypeReceiver
        (.mk receiver (.kind .functionTypeReceiver) [] (one .typeRef
          (.mk reference (.kind .typeRef) [] (one .type type)))) ++ one .params params ++ one .returnTypeRef result))
  | reference {id : Nat} {part : TypePart} {type : Node} (held : part.isType = true) (is : Modest part type) :
      Modest .reference (.mk id (.kind .typeRef) [] (one .type type))
  | grouped {id left right : Nat} {part : TypePart} {type : Node} (held : part.isType = true) (is : Modest part type) :
      Modest .reference (.mk id (.kind .typeRef) [] (inParentheses left right type))
  | groupedNullable {id nullable left right : Nat} {part : TypePart} {type : Node} (held : part.isType = true)
      (is : Modest part type) :
      Modest .reference (.mk id (.kind .typeRef) [] (one .type
        (.mk nullable (.kind .nullableType) [] (inParentheses left right type))))

/-! The raw tree of a type. -/

def wordToken (w : String) : Token := ⟨if Lexer.isIdentifier w then .identifier else .operator, 0, 0, w⟩

def wordLeaf (w : String) : RawElement := .leaf ⟨wordToken w, false⟩

def Kind.ofRaw : Kind → RawKind
  | .typeRef => .typeReference
  | .simpleType => .userType
  | .simpleTypeQualifier => .typeQualifier
  | .nullableType => .nullableType
  | .typeArgs => .typeArgumentList
  | .typeArg => .typeProjection
  | .functionType => .functionType
  | .functionTypeReceiver => .functionTypeReceiver
  | .functionTypeParams => .functionTypeParameterList
  | .functionTypeParam => .functionTypeParameter
  | _ => .unsupported

def Piece.raw (parts : List (Field × RawElement)) : Piece → List RawElement
  | token text => [wordLeaf text]
  | glued text => [wordLeaf text]
  | child f => under f parts
  | list f separator => (under f parts).intersperse (wordLeaf separator)
  | each f terminator => (under f parts).flatMap ([·, wordLeaf terminator])
  | entriesEnd => []
  | close text => [wordLeaf text]
  | gap => []

namespace Node

mutual

/-- The raw tree that the node stands for, without trivia. -/
def raw : Node → RawElement
  | mk id tag scalars children =>
    match tag with
    | .kind .nameExpression | .kind .keyword => wordLeaf (mk id tag scalars children).text
    | .kind k => .node k.ofRaw none (((mk id tag scalars children).layout none k).flatMap (Piece.raw (rawAll children)))
    | .unknown _ => .node .unsupported none []

def rawAll : List (Field × Node) → List (Field × RawElement)
  | [] => []
  | (f, n) :: rest => (f, raw n) :: rawAll rest

end

theorem rawAll_eq (children : List (Field × Node)) : rawAll children = children.map fun c => (c.1, c.2.raw) := by
  induction children with
  | nil => rfl
  | cons c rest ih => rw [rawAll, List.map_cons, ih]

end Node

section

variable (f g : Field) (n : Node) (m : Option Node) (ns : List Node) (xs ys : List (Field × Node))

@[simp] theorem rawAll_append : Node.rawAll (xs ++ ys) = Node.rawAll xs ++ Node.rawAll ys := by
  simp only [Node.rawAll_eq, List.map_append]

@[simp] theorem under_raw_one : under f (Node.rawAll (one g n)) = if g = f then [n.raw] else [] := by
  simp only [one, Node.rawAll, under, List.filter_cons, List.filter_nil, beq_iff_eq]
  split <;> rfl

@[simp] theorem under_raw_opt : under f (Node.rawAll (opt g m)) = if g = f then m.toList.map Node.raw else [] := by
  cases m with
  | none => simp [opt, Node.rawAll]
  | some n => exact under_raw_one f g n

@[simp] theorem under_raw_many : under f (Node.rawAll (many g ns)) = if g = f then ns.map Node.raw else [] := by
  induction ns with
  | nil => simp [many, Node.rawAll]
  | cons n ns ih =>
    have split : many g (n :: ns) = one g n ++ many g ns := rfl
    rw [split, rawAll_append, under_append, ih, under_raw_one]
    split <;> rfl

end

/-! The words and the raw tree of each kind of part. -/

section

variable (id left right : Nat) (text : String) (n name type params result : Node) (args m : Option Node)
  (ns qualifiers : List Node) (fields : List (Field × Node))

theorem text_mk (tag : Tag) : (Node.mk id tag [(.text, .text text)] fields).text = text := rfl

theorem flag_mk (tag : Tag) (b : Bool) : (Node.mk id tag [(.asterisk, .flag b)] fields).flag .asterisk = b := rfl

attribute [local simp] Node.words_mk Node.layout Piece.words tokenWords Node.raw Piece.raw inParentheses Kind.ofRaw
  Node.bracketed Node.led Node.ended text_mk flag_mk

@[simp] theorem words_name : (Node.mk id (.kind .nameExpression) [(.text, .text text)] []).words = [text] := by simp

@[simp] theorem raw_name : (Node.mk id (.kind .nameExpression) [(.text, .text text)] []).raw = wordLeaf text := by simp

@[simp] theorem words_star : (Node.mk id (.kind .typeArg) [(.asterisk, .flag true)] []).words = ["*"] := by simp [Node.wordsAll]

@[simp] theorem raw_star : (Node.mk id (.kind .typeArg) [(.asterisk, .flag true)] []).raw =
    .node .typeProjection none [wordLeaf "*"] := by simp [Node.rawAll]

@[simp] theorem words_argument : (Node.mk id (.kind .typeArg) [(.asterisk, .flag false)] (one .typeRef type)).words = type.words := by
  simp

@[simp] theorem raw_argument : (Node.mk id (.kind .typeArg) [(.asterisk, .flag false)] (one .typeRef type)).raw =
    .node .typeProjection none [type.raw] := by simp

@[simp] theorem words_arguments : (Node.mk id (.kind .typeArgs) [] (many .elements ns)).words =
    "<" :: joinWords "," (ns.map Node.words) ++ [">"] := by simp

@[simp] theorem raw_arguments : (Node.mk id (.kind .typeArgs) [] (many .elements ns)).raw = .node .typeArgumentList none
    (wordLeaf "<" :: (ns.map Node.raw).intersperse (wordLeaf ",") ++ [wordLeaf ">"]) := by simp

@[simp] theorem words_qualifier : (Node.mk id (.kind .simpleTypeQualifier) [] (one .name name ++ opt .typeArgs args)).words =
    name.words ++ optWords args := by simp

@[simp] theorem raw_qualifier : (Node.mk id (.kind .simpleTypeQualifier) [] (one .name name ++ opt .typeArgs args)).raw =
    .node .typeQualifier none (name.raw :: args.toList.map Node.raw) := by simp

@[simp] theorem words_simple : (Node.mk id (.kind .simpleType) []
    (many .qualifiers qualifiers ++ one .name name ++ opt .typeArgs args)).words =
      qualifiers.flatMap (fun q => q.words ++ ["."]) ++ name.words ++ optWords args := by
  simp [List.flatMap_map]

@[simp] theorem raw_simple : (Node.mk id (.kind .simpleType) []
    (many .qualifiers qualifiers ++ one .name name ++ opt .typeArgs args)).raw = .node .userType none
      (qualifiers.flatMap (fun q => [q.raw, wordLeaf "."]) ++ name.raw :: args.toList.map Node.raw) := by
  simp [List.flatMap_map]

@[simp] theorem words_nullable : (Node.mk id (.kind .nullableType) [] (one .type type)).words = type.words ++ ["?"] := by simp

@[simp] theorem raw_nullable : (Node.mk id (.kind .nullableType) [] (one .type type)).raw =
    .node .nullableType none [type.raw, wordLeaf "?"] := by simp

@[simp] theorem words_parameter : (Node.mk id (.kind .functionTypeParam) [] (opt .name m ++ one .typeRef type)).words =
    endedWords m ":" ++ type.words := by
  cases m <;> simp

@[simp] theorem raw_parameter : (Node.mk id (.kind .functionTypeParam) [] (opt .name m ++ one .typeRef type)).raw =
    .node .functionTypeParameter none (m.toList.flatMap (fun n => [n.raw, wordLeaf ":"]) ++ [type.raw]) := by
  cases m <;> simp

@[simp] theorem words_parameters : (Node.mk id (.kind .functionTypeParams) [] (many .elements ns)).words =
    "(" :: joinWords "," (ns.map Node.words) ++ [")"] := by simp

@[simp] theorem raw_parameters : (Node.mk id (.kind .functionTypeParams) [] (many .elements ns)).raw =
    .node .functionTypeParameterList none
      (wordLeaf "(" :: (ns.map Node.raw).intersperse (wordLeaf ",") ++ [wordLeaf ")"]) := by simp

@[simp] theorem words_function : (Node.mk id (.kind .functionType) [] (one .params params ++ one .returnTypeRef result)).words =
    params.words ++ "->" :: result.words := by simp

@[simp] theorem raw_function : (Node.mk id (.kind .functionType) [] (one .params params ++ one .returnTypeRef result)).raw =
    .node .functionType none [params.raw, wordLeaf "->", result.raw] := by simp

@[simp] theorem words_extension : (Node.mk id (.kind .functionType) []
    (one .functionTypeReceiver n ++ one .params params ++ one .returnTypeRef result)).words =
      n.words ++ params.words ++ "->" :: result.words := by simp

@[simp] theorem raw_extension : (Node.mk id (.kind .functionType) []
    (one .functionTypeReceiver n ++ one .params params ++ one .returnTypeRef result)).raw =
      .node .functionType none [n.raw, params.raw, wordLeaf "->", result.raw] := by simp

@[simp] theorem words_receiver : (Node.mk id (.kind .functionTypeReceiver) [] (one .typeRef type)).words = type.words ++ ["."] := by
  simp

@[simp] theorem raw_receiver : (Node.mk id (.kind .functionTypeReceiver) [] (one .typeRef type)).raw =
    .node .functionTypeReceiver none [type.raw, wordLeaf "."] := by simp

@[simp] theorem words_reference : (Node.mk id (.kind .typeRef) [] (one .type type)).words = type.words := by simp

@[simp] theorem raw_reference : (Node.mk id (.kind .typeRef) [] (one .type type)).raw = .node .typeReference none [type.raw] := by
  simp

@[simp] theorem words_grouped : (Node.mk id (.kind .typeRef) [] (inParentheses left right type)).words =
    "(" :: type.words ++ [")"] := by simp

@[simp] theorem raw_grouped : (Node.mk id (.kind .typeRef) [] (inParentheses left right type)).raw =
    .node .typeReference none [wordLeaf "(", type.raw, wordLeaf ")"] := by simp

@[simp] theorem words_groupedNullable : (Node.mk id (.kind .nullableType) [] (inParentheses left right type)).words =
    "(" :: type.words ++ [")", "?"] := by simp

@[simp] theorem raw_groupedNullable : (Node.mk id (.kind .nullableType) [] (inParentheses left right type)).raw =
    .node .nullableType none [wordLeaf "(", type.raw, wordLeaf ")", wordLeaf "?"] := by simp

end

end KotlinSyntax
