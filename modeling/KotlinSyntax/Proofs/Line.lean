import Mathlib.Data.List.Chain
import KotlinSyntax.Conversion.Reading
import KotlinSyntax.Proofs.Writer

/-! Writing on one line. No criterion asks for a line break or a semicolon within a type or an operation, so the words
of a tree of these are written one behind the other, with a blank between two of them where a criterion asks for one. -/
namespace KotlinSyntax

open Conversion (one opt many)

/-- The kinds of types, and of names that are joined by operators. -/
def lineKinds : List Kind := [.typeRef, .simpleType, .simpleTypeQualifier, .nullableType, .typeArgs, .typeArg,
  .functionType, .functionTypeReceiver, .functionTypeParams, .functionTypeParam, .nameExpression, .keyword,
  .binaryExpression, .binaryInfixExpression]

def Piece.isInline : Piece → Bool
  | token text | close text => !text.isEmpty
  | list _ separator => !separator.isEmpty
  | each _ terminator => !terminator.isEmpty
  | child _ => true
  | glued _ | entriesEnd | gap => false

structure Node.Inline (n : Node) (k : Kind) : Prop where
  kind : n.tag = .kind k
  member : k ∈ lineKinds
  pieces : ∀ piece ∈ n.layout none k, piece.isInline = true

def Node.AllInline (n : Node) : Prop := ∀ m ∈ n.preorder, ∃ k, m.Inline k

def EachInline (children : List (Field × Node)) : Prop := ∀ c ∈ children, c.2.AllInline

theorem allInline_mk {id : Nat} {k : Kind} {scalars : List (Field × Scalar)} {children : List (Field × Node)}
    (kind : k ∈ lineKinds) (pieces : ∀ piece ∈ (Node.mk id (.kind k) scalars children).layout none k, piece.isInline = true)
    (each : EachInline children) : (Node.mk id (.kind k) scalars children).AllInline := by
  intro m member
  rw [Node.preorder, Node.preorderAll_eq] at member
  rcases List.mem_cons.mp member with rfl | member
  · exact ⟨k, rfl, kind, pieces⟩
  · obtain ⟨c, inside, below⟩ := List.mem_flatMap.mp member
    exact each c inside m below

section Labels

variable (f : Field) (n : Node) (m : Option Node) (ns : List Node) (xs ys : List (Field × Node))

@[simp] theorem eachInline_nil : EachInline [] ↔ True := by simp [EachInline]

@[simp] theorem eachInline_append : EachInline (xs ++ ys) ↔ EachInline xs ∧ EachInline ys := List.forall_mem_append

@[simp] theorem eachInline_one : EachInline (one f n) ↔ n.AllInline := by simp [EachInline, one]

@[simp] theorem eachInline_opt : EachInline (opt f m) ↔ ∀ n ∈ m, n.AllInline := by cases m <;> simp [EachInline, opt]

@[simp] theorem eachInline_many : EachInline (many f ns) ↔ ∀ n ∈ ns, n.AllInline := by simp [EachInline, many]

end Labels

namespace Writer

variable {s s₁ s₂ : State} {ws vs : List String}

def Apart (a b : String) : Prop := ∀ needs ∈ spaceCriteria, needs (Text.lastUnit? a) (Text.firstUnit? b) = false

def asksBlank (last : Option String) (w : String) : Bool :=
  spaceCriteria.any fun needs => needs (last.bind Text.lastUnit?) (Text.firstUnit? w)

/-- The words behind the last one, with the blanks that criteria ask for. -/
def spaced (last : Option String) : List String → String
  | [] => ""
  | w :: ws => (if asksBlank last w then " " else "") ++ w ++ spaced (some w) ws

theorem asksBlank_none (w : String) : asksBlank none w = false := by
  simp [asksBlank, spaceCriteria, isNonSymbol]

theorem asksBlank_of_apart {a b : String} (apart : Apart a b) : asksBlank (some a) b = false := by
  rw [asksBlank, List.any_eq_false]
  intro needs member
  simpa using apart needs member

theorem spaced_append (last : Option String) (ws vs : List String) :
    spaced last (ws ++ vs) = spaced last ws ++ spaced (ws.getLast?.or last) vs := by
  induction ws generalizing last with
  | nil => simp [spaced]
  | cons w ws ih =>
    have behind : ((w :: ws).getLast?).or last = ws.getLast?.or (some w) := by
      rw [List.getLast?_cons]
      cases ws.getLast? <;> rfl
    rw [List.cons_append, spaced, spaced, ih, behind, ← String.append_assoc]

/-- Words that may touch are joined. -/
theorem spaced_of_apart {last : Option String} (chain : (last.toList ++ ws).IsChain Apart) :
    spaced last ws = String.join ws := by
  induction ws generalizing last with
  | nil => rfl
  | cons w ws ih =>
    have quiet : asksBlank last w = false := by
      cases last with
      | none => exact asksBlank_none w
      | some a => exact asksBlank_of_apart ((List.isChain_cons_cons.mp chain).1)
    have behind : ((some w).toList ++ ws).IsChain Apart := (List.isChain_append.mp chain).2.1
    rw [spaced, quiet, ih behind, String.join_cons]
    simp

structure State.Behind (s : State) (last : Option String) : Prop where
  recent : s.recent = []
  gap : s.gap = false
  last : s.last? = last.bind Text.lastUnit?

/-- Going on from one state to another puts down the words, and nothing else but the blanks that criteria ask for. -/
def Lays (s : State) (ws : List String) (s' : State) : Prop :=
  ∀ last, s.Behind last → s'.Behind (ws.getLast?.or last) ∧
    ∃ new : List Chunk, s'.chunks = new.reverse ++ s.chunks ∧ String.join (new.map (·.text)) = spaced last ws

namespace Lays

theorem refl (s : State) : Lays s [] s := fun last behind => ⟨by simpa using behind, [], rfl, rfl⟩

theorem trans (h : Lays s ws s₁) (k : Lays s₁ vs s₂) : Lays s (ws ++ vs) s₂ := by
  intro last behind
  obtain ⟨behind, new, chunks, texts⟩ := h last behind
  obtain ⟨behind, more, chunks', texts'⟩ := k _ behind
  refine ⟨?_, new ++ more, ?_, ?_⟩
  · rwa [List.getLast?_append, Option.or_assoc]
  · rw [chunks', chunks, List.reverse_append, List.append_assoc]
  · rw [List.map_append, String.join_append, texts, texts', spaced_append]

theorem foldl {α : Type} {step : State → α → State} {words : α → List String} (xs : List α) (s : State)
    (each : ∀ s, ∀ x ∈ xs, Lays s (words x) (step s x)) : Lays s (xs.flatMap words) (xs.foldl step s) := by
  induction xs generalizing s with
  | nil => exact .refl s
  | cons x xs ih =>
    rw [List.foldl_cons, List.flatMap_cons]
    exact (each s x (List.mem_cons_self ..)).trans (ih _ fun s y member => each s y (List.mem_cons_of_mem x member))

theorem visit (p : Path) (s : State) : Lays s [] (s.put (.visit p)) := by
  intro last behind
  refine ⟨⟨behind.recent, behind.gap, ?_⟩, [.visit p], rfl, ?_⟩
  · exact behind.last
  · simp [Chunk.text, String.join, spaced]

/-- What surrounds nodes is left out. -/
theorem writeExtras (s : State) : Lays s [] (({} : Writer).writeExtras [] s) := by
  intro last behind
  refine ⟨⟨?_, behind.gap, behind.last⟩, [], rfl, rfl⟩
  simp [Writer.writeExtras, behind.recent]

end Lays

theorem last?_put_own {word : String} (some : word ≠ "") (s : State) :
    (s.put (.own word)).last? = Text.lastUnit? word := by
  obtain ⟨c, front⟩ : ∃ c, word.toList.getLast? = Option.some c := by
    rw [← Option.isSome_iff_exists, List.getLast?_isSome]
    simpa using some
  simp [State.last?, State.put, Chunk.text, Text.lastUnit?, front]

theorem own_lays {word : String} (some : word ≠ "") (s : State) : Lays s [word] (({} : Writer).append (.own word) s) := by
  intro last behind
  have asked : (({} : Writer).criteria.space.any fun needs => needs s.last? (Text.firstUnit? (Chunk.own word).text)) =
      asksBlank last word := by
    rw [behind.last]
    rfl
  rw [Writer.append, asked]
  split
  · rename_i blank
    refine ⟨⟨behind.recent, behind.gap, last?_put_own some _⟩, [.added " ", .own word], rfl, ?_⟩
    simp [Chunk.text, spaced, blank]
  · rename_i none
    refine ⟨⟨behind.recent, behind.gap, last?_put_own some _⟩, [.own word], rfl, ?_⟩
    simp [Chunk.text, spaced, none]

/-! Nodes on one line. -/

variable {owner : Node} {k : Kind}

theorem isKind_false (inline : owner.Inline k) (other : Kind) (foreign : other ∉ lineKinds) : owner.isKind other = false := by
  rw [Node.isKind, inline.kind, beq_eq_false_iff_ne]
  rintro ⟨rfl⟩
  exact foreign inline.member

theorem no_newline {p : Path} (parent : ∀ owner ∈ p.parent?, ∃ k, owner.Inline k) :
    newlineCriteria.any (· p) = false := by
  unfold Path.parent? at *
  cases above : p.above.head? with
  | none => simp [newlineCriteria, laterStatement, laterDeclaration, laterBranch, accessorAfterExpression,
      annotatedOperation, Path.parent?, above]
  | some owner =>
    obtain ⟨k, inline⟩ := parent owner above
    have never := isKind_false inline
    simp [newlineCriteria, laterStatement, laterDeclaration, laterBranch, accessorAfterExpression,
      annotatedOperation, Path.parent?, above, ownsStatements, never .blockExpression (by decide),
      never .lambdaBody (by decide), never .kotlinScript (by decide), never .kotlinFile (by decide),
      never .classBody (by decide), never .whenExpression (by decide), never .propertyDeclaration (by decide),
      never .annotatedExpression (by decide)]

theorem no_separator {p : Path} {n : Node} {j : Kind} (owner : p.node.Inline k) (inline : n.Inline j) (next : Option Node) :
    separatorCriteria.any (fun needs => needs (p.down n) next) = false := by
  have never := isKind_false owner
  have call := isKind_false inline .callExpression (by decide)
  simp [separatorCriteria, nameBeforeDeclaration, callBeforeLambda, Path.parent?, Path.down, ownsStatements, call,
    never .blockExpression (by decide), never .lambdaBody (by decide), never .kotlinScript (by decide)]

theorem lead_lays {p : Path} (parent : ∀ owner ∈ p.parent?, ∃ k, owner.Inline k) (s : State) :
    Lays s [] (({} : Writer).lead p s) := by
  intro last behind
  have line : (({} : Writer).criteria.newline.any (· p)) = false := no_newline parent
  have same : ({} : Writer).lead p s = s := by
    obtain ⟨chunks, recent, gap⟩ := s
    obtain rfl : recent = [] := behind.recent
    obtain rfl : gap = false := behind.gap
    simp [Writer.lead, line]
  rw [same]
  exact Lays.refl s last behind

def Part.LaysDown (part : Part) : Prop := ∀ s, Lays s part.node.words (part.write s)

variable {parts : List Part}

theorem writeList_lays {p : Path} (owner : p.node.Inline k) {separator : String} (some : separator ≠ "")
    (each : ∀ part ∈ parts, part.LaysDown ∧ ∃ j, part.node.Inline j) (s : State) :
    Lays s (joinWords separator (parts.map (·.node.words))) (({} : Writer).writeList p separator parts s) := by
  induction parts generalizing s with
  | nil => exact .refl s
  | cons part rest ih =>
    obtain ⟨first, j, inline⟩ := each part (List.mem_cons_self ..)
    have later := ih fun part member => each part (List.mem_cons_of_mem _ member)
    have quiet := no_separator owner inline (rest.head?.map (·.node))
    have quiet' : (({} : Writer).criteria.separator.any fun needs => needs (p.down part.node) (rest.head?.map (·.node))) =
        false := quiet
    rw [writeList]
    simp only [quiet', Bool.false_eq_true, if_false]
    cases rest with
    | nil => simpa [joinWords, writeList] using first s
    | cons next rest =>
      have spelled : joinWords separator ((part :: next :: rest).map (·.node.words)) = part.node.words ++
          ([separator] ++ joinWords separator ((next :: rest).map (·.node.words))) := by
        simp [joinWords, some]
      rw [spelled, if_neg (by simp [some])]
      exact (first s).trans ((own_lays some _).trans (later _))

theorem writePiece_lays {p : Path} (owner : p.node.Inline k) (each : ∀ part ∈ parts, part.LaysDown ∧ ∃ j, part.node.Inline j)
    {piece : Piece} (inline : piece.isInline = true) (s : State) :
    Lays s (piece.words k (labels parts)) (({} : Writer).writePiece p parts s piece) := by
  have inside (f : Field) : ∀ part ∈ inField f parts, part.LaysDown ∧ ∃ j, part.node.Inline j :=
    fun part member => each part (List.mem_filter.mp member).1
  have plain (text : String) : tokenWords k text = [text] := by
    apply tokenWords_of_ne
    rintro rfl
    exact absurd owner.member (by decide)
  cases piece with
  | token text =>
    have some : text ≠ "" := by simpa [Piece.isInline] using inline
    have written : ({} : Writer).writePiece p parts s (.token text) = ({} : Writer).append (.own text) s := if_neg (by simpa using some)
    rw [written, Piece.words, plain]
    exact own_lays some s
  | child f =>
    rw [Piece.words, under_labels, ← List.flatMap_def]
    exact .foldl _ s fun s part member => (inside f part member).1 s
  | list f separator =>
    rw [Piece.words, under_labels]
    exact writeList_lays owner (by simpa [Piece.isInline] using inline) (inside f) s
  | each f terminator =>
    have some : terminator ≠ "" := by simpa [Piece.isInline] using inline
    rw [Piece.words, under_labels, List.flatMap_map]
    exact .foldl _ s fun s part member => ((inside f part member).1 s).trans (own_lays some _)
  | close text =>
    have some : text ≠ "" := by simpa [Piece.isInline] using inline
    exact (Lays.writeExtras s).trans (own_lays some _)
  | glued text => cases inline
  | entriesEnd => cases inline
  | gap => cases inline

theorem layout_inline {n : Node} (inline : n.Inline k) (parent : Option Node) : n.layout parent k = n.layout none k := by
  have member := inline.member
  cases k <;> first | rfl | (exfalso; revert member; decide)

theorem writeNode_lays {p : Path} (owner : p.node.Inline k) (parent : ∀ owner ∈ p.parent?, ∃ k, owner.Inline k)
    (each : ∀ part ∈ parts, part.LaysDown ∧ ∃ j, part.node.Inline j) (s : State) :
    Lays s (p.node.spell (labels parts)) (({} : Writer).writeNode p parts s) := by
  have kind : p.node.kind? = some k := by
    rw [Node.kind?, owner.kind]
  have pieces : pieces p = p.node.layout none k := by
    rw [Writer.pieces, kind]
    exact layout_inline owner p.parent?
  have front := ((Lays.writeExtras s).trans (lead_lays parent _)).trans (.visit p _)
  have filled : ∀ s, Lays s ((p.node.layout none k).flatMap (Piece.words k (labels parts)))
      ((Writer.pieces p).foldl (({} : Writer).writePiece p parts) s) := by
    rw [pieces]
    exact fun s => .foldl _ s fun s piece member => writePiece_lays owner each (owner.pieces piece member) s
  have closed (c : Bool) (s : State) : Lays s [] (if c then s else ({} : Writer).writeExtras [] s) := by
    cases c
    · exact .writeExtras s
    · exact .refl s
  have whole := ((front.trans (filled _)).trans (closed ((Writer.pieces p).any (·.isClose)) _)).trans (.writeExtras _)
  simp only [List.nil_append, List.append_nil] at whole
  rw [Node.spell, kind]
  exact whole

mutual

theorem visit_lays (above : List Node) (parent : ∀ owner ∈ above.head?, ∃ k, owner.Inline k) : (n : Node) → n.AllInline →
    ∀ s, Lays s n.words (({} : Writer).visit above n s)
  | .mk id tag scalars children, inline, s => by
    obtain ⟨k, owner⟩ := inline (.mk id tag scalars children) (by simp [Node.preorder])
    have parts := parts_lay (.mk id tag scalars children :: above) (by simpa using ⟨k, owner⟩) children
      fun c member m below => inline m (by
        rw [Node.preorder, Node.preorderAll_eq]
        exact List.mem_cons_of_mem _ (List.mem_flatMap.mpr ⟨c, member, below⟩))
    rw [Node.words, ← labels_parts]
    exact writeNode_lays (p := ⟨.mk id tag scalars children, above⟩) owner parent parts s

theorem parts_lay (above : List Node) (parent : ∀ owner ∈ above.head?, ∃ k, owner.Inline k) :
    (children : List (Field × Node)) → (∀ c ∈ children, c.2.AllInline) →
      ∀ part ∈ ({} : Writer).parts above children, part.LaysDown ∧ ∃ j, part.node.Inline j
  | [], _ => by simp [Writer.parts]
  | (f, n) :: rest, inline => by
    have first := inline (f, n) (List.mem_cons_self ..)
    intro part member
    rcases List.mem_cons.mp member with rfl | member
    · refine ⟨visit_lays above parent n first, first n ?_⟩
      cases n
      simp [Node.preorder]
    · exact parts_lay above parent rest (fun c member => inline c (List.mem_cons_of_mem _ member)) part member

end

/-- A tree of such nodes is written word by word. -/
theorem write_spaced {n : Node} (inline : n.AllInline) : ({} : Writer).write n = .ok (spaced none n.words) := by
  have known : n.Known := by
    intro m member
    obtain ⟨k, is⟩ := inline m member
    rw [Node.kind?, is.kind]
    rfl
  obtain ⟨_, new, chunks, texts⟩ := visit_lays [] (by simp) n inline {} none ⟨rfl, rfl, rfl⟩
  have text : ({} : Writer).text n = spaced none n.words := by
    rw [Writer.text, Writer.chunks, chunks]
    simpa using texts
  rw [Writer.write, known.recognized, text]
  rfl

/-- If no criterion asks for a blank, the words are joined. -/
theorem write_inline {n : Node} (inline : n.AllInline) (chain : n.words.IsChain Apart) :
    ({} : Writer).write n = .ok (String.join n.words) := by
  rw [write_spaced inline, spaced_of_apart chain]

end Writer

end KotlinSyntax
