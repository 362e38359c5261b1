import KotlinSyntax.Raw
import KotlinSyntax.Node.Walk
import KotlinSyntax.Writer.Layout

/-! The words of a tree: the texts that its layout implies, in order. What is added for the sake of
readability is no word, so the words of a node are what must be found in the source. -/
namespace KotlinSyntax

def RawElement.words (e : RawElement) : List String :=
  (e.leaves.filter (!·.trivia)).map (·.token.text)

/-- The tokens that a text stands for. The end of a wildcard import stands for two. -/
def tokenWords : Kind → String → List String
  | .importDirective, ".*" => [".", "*"]
  | _, text => [text]

def joinWords (separator : String) : List (List String) → List String
  | [] => []
  | [ws] => ws
  | ws :: rest => ws ++ (if separator.isEmpty then [] else [separator]) ++ joinWords separator rest

def under {α : Type} (f : Field) (parts : List (Field × α)) : List α := (parts.filter (·.1 == f)).map (·.2)

def Piece.words (k : Kind) (parts : List (Field × List String)) : Piece → List String
  | token text => tokenWords k text
  | glued text => [text]
  | child f => (under f parts).flatten
  | list f separator => joinWords separator (under f parts)
  | each f terminator => (under f parts).flatMap (· ++ [terminator])
  | entriesEnd => []
  | close text => [text]
  | gap => []

namespace Node

def spell (n : Node) (parts : List (Field × List String)) : List String :=
  match n.kind? with
  | some k => (n.layout none k).flatMap (Piece.words k parts)
  | none => []

mutual

def words : Node → List String
  | mk id tag scalars children => (mk id tag scalars children).spell (wordsAll children)

def wordsAll : List (Field × Node) → List (Field × List String)
  | [] => []
  | (f, n) :: rest => (f, words n) :: wordsAll rest

end

def Known (n : Node) : Prop := ∀ m ∈ n.preorder, m.kind?.isSome = true

/-- What a node is above does not change its words. -/
theorem words_layout (parent : Option Node) (n : Node) (k : Kind) (parts : List (Field × List String)) :
    (n.layout parent k).flatMap (Piece.words k parts) = (n.layout none k).flatMap (Piece.words k parts) := by
  cases k <;> try rfl
  simp only [layout]
  split
  · simp [Piece.words]
  · rfl

theorem wordsAll_eq (children : List (Field × Node)) :
    wordsAll children = children.map fun c => (c.1, c.2.words) := by
  induction children with
  | nil => rfl
  | cons c rest ih => rw [wordsAll, List.map_cons, ih]

theorem preorderAll_eq (children : List (Field × Node)) :
    preorderAll children = children.flatMap (·.2.preorder) := by
  induction children with
  | nil => rfl
  | cons c rest ih => rw [preorderAll, List.flatMap_cons, ih]

theorem known_mk {id : Nat} {k : Kind} {scalars : List (Field × Scalar)} {children : List (Field × Node)}
    (h : ∀ c ∈ children, c.2.Known) : (mk id (.kind k) scalars children).Known := by
  intro m member
  rw [preorder, preorderAll_eq] at member
  rcases List.mem_cons.mp member with rfl | member
  · rfl
  · obtain ⟨c, inside, below⟩ := List.mem_flatMap.mp member
    exact h c inside m below

/-- A tree of known kinds is recognized everywhere. -/
theorem Known.recognized {n : Node} (h : n.Known) (place : Traversal) : n.recognized place = .ok () := by
  have none : n.preorder.find? (·.kind?.isNone) = none := by
    rw [List.find?_eq_none]
    intro m member
    have known := h m member
    cases found : m.kind? with
    | none => simp [found] at known
    | some k => simp
  simp only [Node.recognized, none]

theorem words_mk (id : Nat) (k : Kind) (scalars : List (Field × Scalar)) (children : List (Field × Node)) :
    (mk id (.kind k) scalars children).words = ((mk id (.kind k) scalars children).layout none k).flatMap
      (Piece.words k (wordsAll children)) := by
  rw [words]
  rfl

end Node

/-! The words of children that are given label by label. -/

def optWords (n : Option Node) : List String := (n.map Node.words).getD []

def manyWords (ns : List Node) : List String := ns.flatMap Node.words

@[simp] theorem optWords_none : optWords none = [] := rfl

@[simp] theorem optWords_some (n : Node) : optWords (some n) = n.words := rfl

@[simp] theorem manyWords_nil : manyWords [] = [] := rfl

@[simp] theorem manyWords_cons (n : Node) (ns : List Node) : manyWords (n :: ns) = n.words ++ manyWords ns := rfl

@[simp] theorem wordsAll_append (xs ys : List (Field × Node)) :
    Node.wordsAll (xs ++ ys) = Node.wordsAll xs ++ Node.wordsAll ys := by
  simp only [Node.wordsAll_eq, List.map_append]

@[simp] theorem under_nil {α : Type} (f : Field) : under f ([] : List (Field × α)) = [] := rfl

@[simp] theorem under_append {α : Type} (f : Field) (xs ys : List (Field × α)) :
    under f (xs ++ ys) = under f xs ++ under f ys := by
  simp only [under, List.filter_append, List.map_append]

/-- A word and a child behind it, unless the child is absent. -/
def ledWords (lead : String) (n : Option Node) : List String := (n.map fun n => lead :: n.words).getD []

def endedWords (n : Option Node) (tail : String) : List String := (n.map fun n => n.words ++ [tail]).getD []

@[simp] theorem ledWords_none (lead : String) : ledWords lead none = [] := rfl

@[simp] theorem ledWords_some (lead : String) (n : Node) : ledWords lead (some n) = lead :: n.words := rfl

@[simp] theorem endedWords_none (tail : String) : endedWords none tail = [] := rfl

@[simp] theorem endedWords_some (n : Node) (tail : String) : endedWords (some n) tail = n.words ++ [tail] := rfl

@[simp] theorem manyWords_toList (n : Option Node) : manyWords n.toList = optWords n := by
  cases n <;> simp

@[simp] theorem ite_led (lead : String) (n : Option Node) :
    (if n.isSome = true then lead :: optWords n else []) = ledWords lead n := by
  cases n <;> rfl

@[simp] theorem ite_ended (n : Option Node) (tail : String) :
    (if n.isSome = true then optWords n ++ [tail] else []) = endedWords n tail := by
  cases n <;> rfl

@[simp] theorem flatten_many (ns : List Node) : (ns.map Node.words).flatten = manyWords ns := by
  simp [manyWords, List.flatMap_def]

theorem tokenWords_of_ne {k : Kind} (h : k ≠ .importDirective) (text : String) : tokenWords k text = [text] := by
  unfold tokenWords
  split
  · contradiction
  · rfl

section Layout

variable (n : Node) (k : Kind) (parts : List (Field × List String)) (f : Field) (text : String)

@[simp] theorem led_words : (n.led text f).flatMap (Piece.words k parts) =
    if n.has f then tokenWords k text ++ (under f parts).flatten else [] := by
  unfold Node.led
  split <;> simp [Piece.words]

@[simp] theorem ended_words : (n.ended f text).flatMap (Piece.words k parts) =
    if n.has f then (under f parts).flatten ++ tokenWords k text else [] := by
  unfold Node.ended
  split <;> simp [Piece.words]

@[simp] theorem atLabel_words : n.atLabel.flatMap (Piece.words k parts) =
    if n.has .label then "@" :: (under .label parts).flatten else [] := by
  unfold Node.atLabel
  split <;> simp [Piece.words]

@[simp] theorem bracketed_words (opening closing : String) : (Node.bracketed opening closing f).flatMap
    (Piece.words k parts) = tokenWords k opening ++ joinWords "," (under f parts) ++
      (under .trailingComma parts).flatten ++ [closing] := by
  simp [Node.bracketed, Piece.words]

end Layout

@[simp] theorem has_mk (id : Nat) (tag : Tag) (scalars : List (Field × Scalar)) (children : List (Field × Node))
    (f : Field) : (Node.mk id tag scalars children).has f = children.any (·.1 == f) := rfl

@[simp] theorem joinWords_empty (wss : List (List String)) : joinWords "" wss = wss.flatten := by
  induction wss with
  | nil => rfl
  | cons ws rest ih =>
    cases rest with
    | nil => simp [joinWords]
    | cons next rest =>
      rw [joinWords, ih]
      · simp
      · simp

end KotlinSyntax
