import Mathlib.Data.List.Infix
import KotlinSyntax.Node.Draft
import KotlinSyntax.Proofs.Plain

/-! Orders of traversal. The walk lists the children of a node as they are held, while a writer goes by the layout of
the kind. On a tree whose children stand in the order of the fields both meet the same paths. -/
namespace KotlinSyntax

namespace Node

/-- Every node is of a known kind, and its children stand in the order of the fields of that kind. -/
def Arranged (n : Node) : Prop :=
  ∀ m ∈ n.preorder, ∃ k, m.tag = .kind k ∧ arrange k m.children = m.children

variable {id : Nat} {tag : Tag} {scalars : List (Field × Scalar)} {children : List (Field × Node)}

/-- What holds of a node if it holds of its children holds of every tree. -/
theorem induct {motive : Node → Prop}
    (mk : ∀ id tag scalars children, (∀ c ∈ children, motive c.2) → motive (.mk id tag scalars children)) (n : Node) :
    motive n := by
  obtain ⟨id, tag, scalars, children⟩ := n
  refine mk id tag scalars children fun c member => ?_
  have smaller : sizeOf c.2 < sizeOf (Node.mk id tag scalars children) := by
    have := List.sizeOf_lt_of_mem member
    have : sizeOf c = 1 + sizeOf c.1 + sizeOf c.2 := by cases c; rfl
    simp only [Node.mk.sizeOf_spec]
    omega
  exact induct mk c.2
termination_by sizeOf n
decreasing_by exact smaller

theorem mem_preorder_self (n : Node) : n ∈ n.preorder := by
  cases n
  exact List.mem_cons_self ..

theorem mem_preorder_child {c : Field × Node} (member : c ∈ children) {m : Node} (below : m ∈ c.2.preorder) :
    m ∈ (mk id tag scalars children).preorder := by
  rw [preorder, preorderAll_eq]
  exact List.mem_cons_of_mem _ (List.mem_flatMap.mpr ⟨c, member, below⟩)

theorem Arranged.child (h : (mk id tag scalars children).Arranged) {c : Field × Node} (member : c ∈ children) :
    c.2.Arranged :=
  fun m below => h m (mem_preorder_child member below)

theorem pathsBelowAll_eq (above : List Node) (cs : List (Field × Node)) :
    pathsBelowAll above cs = cs.flatMap (·.2.pathsBelow above) := by
  induction cs with
  | nil => rfl
  | cons c rest ih => rw [pathsBelowAll, List.flatMap_cons, ih]

theorem postorderAll_eq (cs : List (Field × Node)) : postorderAll cs = cs.flatMap (·.2.postorder) := by
  induction cs with
  | nil => rfl
  | cons c rest ih => rw [postorderAll, List.flatMap_cons, ih]

theorem postorder_eq (n : Node) : n.postorder = n.children.flatMap (·.2.postorder) ++ [n] := by
  cases n with
  | mk id tag scalars children => rw [postorder, postorderAll_eq]; rfl

theorem height_le_heightAll {c : Field × Node} (member : c ∈ children) : c.2.height ≤ heightAll children := by
  induction children with
  | nil => cases member
  | cons first rest ih =>
    rw [heightAll]
    rcases List.mem_cons.mp member with rfl | member
    · exact Nat.le_max_left ..
    · exact Nat.le_trans (ih member) (Nat.le_max_right ..)

theorem make_ok {id : Nat} {k : Kind} {scalars : List (Field × Scalar)} {children : List (Field × Node)} {n : Node}
    (h : make id k scalars children = .ok n) : n = .mk id (.kind k) scalars children ∧ n.broken? = none := by
  unfold make checked at h
  split at h
  · cases h
  · rename_i unbroken
    cases h
    exact ⟨rfl, unbroken⟩

theorem arranged_mk {k : Kind} (order : arrange k children = children) (below : ∀ c ∈ children, c.2.Arranged) :
    (mk id (.kind k) scalars children).Arranged := by
  intro m member
  rw [preorder, preorderAll_eq] at member
  rcases List.mem_cons.mp member with rfl | member
  · exact ⟨k, rfl, order⟩
  · obtain ⟨c, inside, further⟩ := List.mem_flatMap.mp member
    exact below c inside m further

/-- The node at a position, which is a way down: the places of the children among their siblings. -/
def at? : List Nat → Node → Option Node
  | [], n => some n
  | i :: rest, n => n.children[i]?.bind fun c => at? rest c.2

theorem at?_concat (pos : List Nat) (i : Nat) (n : Node) :
    n.at? (pos ++ [i]) = (n.at? pos).bind fun m => m.children[i]?.map (·.2) := by
  induction pos generalizing n with
  | nil =>
    rw [List.nil_append, at?, at?, Option.bind_some]
    cases n.children[i]? <;> rfl
  | cons j rest ih =>
    rw [List.cons_append, at?, at?, Option.bind_assoc]
    exact Option.bind_congr fun c _ => ih c.2

/-! The path to a node is a way down from the root. -/

inductive Reaches (root : Node) : Path → Prop
  | here : Reaches root (.ofRoot root)
  | down (p : Path) (f : Field) (c : Node) (above : Reaches root p) (member : (f, c) ∈ p.node.children) :
      Reaches root (p.down c)

theorem Reaches.root {root : Node} {p : Path} (h : Reaches root p) : p.root = root := by
  induction h with
  | here => rfl
  | down p f c above member ih =>
    rw [← ih]
    simp only [Path.root, Path.down, List.getLast?_cons, Option.getD_some]

theorem Reaches.parent {root : Node} {p : Path} (h : Reaches root p) :
    ∀ q ∈ p.parent?, ∃ f, (f, p.node) ∈ q.children := by
  intro q parent
  cases h with
  | here => cases parent
  | down p f c above member =>
    cases parent
    exact ⟨f, member⟩

/-- The nodes from the root down to the one at the path are those that a position passes on its way. -/
theorem Reaches.passes {root : Node} {p : Path} (h : Reaches root p) :
    ∃ pos : List Nat, p.depth = pos.length ∧
      pos.inits.map (root.at? ·) = (p.above.reverse ++ [p.node]).map some := by
  suffices passes : ∃ pos : List Nat, p.depth = pos.length ∧ root.at? pos = some p.node ∧
      pos.inits.map (root.at? ·) = (p.above.reverse ++ [p.node]).map some by
    obtain ⟨pos, deep, _, way⟩ := passes
    exact ⟨pos, deep, way⟩
  induction h with
  | here => exact ⟨[], rfl, rfl, rfl⟩
  | down p f c above member ih =>
    obtain ⟨pos, deep, found, way⟩ := ih
    obtain ⟨i, held⟩ := List.getElem?_of_mem member
    have next : root.at? (pos ++ [i]) = some c := by rw [at?_concat, found, Option.bind_some, held, Option.map_some]
    refine ⟨pos ++ [i], ?_, next, ?_⟩
    · rw [List.length_append, ← deep]
      rfl
    · rw [List.inits_append, List.map_append, way]
      simp [Path.down, next]

theorem reaches_pathsBelow {root : Node} (n : Node) (above : List Node) (h : Reaches root ⟨n, above⟩) :
    ∀ p ∈ n.pathsBelow above, Reaches root p := by
  induction n using Node.induct generalizing above with
  | mk id tag scalars children ih =>
    intro p member
    rw [pathsBelow, pathsBelowAll_eq] at member
    rcases List.mem_cons.mp member with rfl | member
    · exact h
    · obtain ⟨⟨f, c⟩, inside, further⟩ := List.mem_flatMap.mp member
      exact ih (f, c) inside _ (Reaches.down _ f c h inside) p further

/-! The layout of a kind names its fields in their order. -/

end Node

def Piece.field? : Piece → Option Field
  | child f | list f _ | each f _ => some f
  | _ => none

/-- What a piece contributes, given what each field does. -/
def Piece.among {α : Type} (g : Field → List α) (piece : Piece) : List α := (piece.field?.map g).getD []

namespace Node

section Layout

variable {α : Type} {g : Field → List α} {n : Node}

theorem led_among (empty : ∀ f, n.has f = false → g f = []) (text : String) (f : Field) :
    (n.led text f).flatMap (Piece.among g) = g f := by
  unfold led
  split
  · simp [Piece.among, Piece.field?]
  · rename_i none
    rw [empty f (by simpa using none)]
    rfl

theorem ended_among (empty : ∀ f, n.has f = false → g f = []) (f : Field) (text : String) :
    (n.ended f text).flatMap (Piece.among g) = g f := by
  unfold ended
  split
  · simp [Piece.among, Piece.field?]
  · rename_i none
    rw [empty f (by simpa using none)]
    rfl

theorem atLabel_among (empty : ∀ f, n.has f = false → g f = []) : n.atLabel.flatMap (Piece.among g) = g .label := by
  unfold atLabel
  split
  · simp [Piece.among, Piece.field?]
  · rename_i none
    rw [empty .label (by simpa using none)]
    rfl

theorem layout_among (empty : ∀ f, n.has f = false → g f = []) (parent : Option Node) (k : Kind) :
    (n.layout parent k).flatMap (Piece.among g) = k.slots.flatMap fun s => g s.field := by
  have led := led_among empty
  have ended := ended_among empty
  have label := atLabel_among empty
  cases k <;>
    simp only [layout, Kind.slots, Slot.one, Slot.optional, Slot.many, bracketed, List.flatMap_append,
      List.flatMap_cons, List.flatMap_nil, List.append_nil, List.nil_append, List.append_assoc, led, ended, label,
      Piece.among, Piece.field?, Option.map_some, Option.map_none, Option.getD_some, Option.getD_none]
  -- what is left depends on a flag or a filled field, and says nothing of another field
  all_goals split <;> simp_all [Piece.among, Piece.field?]

end Layout

theorem flatMap_arrange {α : Type} {k : Kind} {children : List (Field × Node)} (h : arrange k children = children)
    (g : Field × Node → List α) :
    (k.slots.flatMap fun s => (children.filter (·.1 == s.field)).flatMap g) = children.flatMap g := by
  have whole := congrArg (List.flatMap g) h
  rwa [arrange, List.flatMap_assoc] at whole

end Node

def Chunk.path? : Chunk → Option Path
  | visit p => some p
  | _ => none

namespace Writer

/-- The paths of the nodes that a writer visits. -/
def visits (w : Writer) (n : Node) : List Path := (w.chunks n).filterMap Chunk.path?

theorem filterMap_path_extra (es : List Extra) : (es.map Chunk.extra).filterMap Chunk.path? = [] := by
  simp [List.filterMap_map, Function.comp_def, Chunk.path?]

/-- A view of chunks that no text of a node shows finds in a piece what the nodes of its field show, or the extras
before the token that closes the node. -/
theorem filterMap_chunks {β : Type} {view : Chunk → Option β} (hidden : ∀ text, view (.own text) = none)
    (within : List Extra) (parts : List (Field × List Chunk)) (piece : Piece) :
    (piece.chunks within parts).filterMap view = if piece.isClose then (within.map .extra).filterMap view
      else piece.among fun f => (under f parts).flatMap (List.filterMap view) := by
  cases piece with
  | token text =>
    simp only [Piece.chunks]
    split
    · rfl
    · simp [hidden, Piece.isClose, Piece.among, Piece.field?]
  | glued text => simp [Piece.chunks, hidden, Piece.isClose, Piece.among, Piece.field?]
  | child f =>
    simp [Piece.chunks, Piece.isClose, Piece.among, Piece.field?, List.filterMap_flatten, List.flatMap_def]
  | list f separator =>
    have between : (if separator.isEmpty then [] else [Chunk.own separator]).filterMap view = [] := by
      split <;> simp [hidden]
    rw [Piece.chunks, filterMap_intercalate, between, intercalate_nil]
    rfl
  | each f terminator =>
    have none : [Chunk.own terminator].filterMap view = [] := by simp [hidden]
    simp [Piece.chunks, Piece.isClose, Piece.among, Piece.field?, List.filterMap_flatMap, none]
  | entriesEnd => rfl
  | close text => simp [Piece.chunks, Piece.isClose, hidden]
  | gap => rfl

theorem among_of_isClose {α : Type} (g : Field → List α) {piece : Piece} (closes : piece.isClose = true) :
    piece.among g = [] := by
  cases piece <;> first | rfl | cases closes

/-- The paths in a piece are those of the field that it stands for. -/
theorem filterMap_path_chunks (within : List Extra) (parts : List (Field × List Chunk)) (piece : Piece) :
    (piece.chunks within parts).filterMap Chunk.path? =
      piece.among fun f => (under f parts).flatMap (List.filterMap Chunk.path?) := by
  rw [filterMap_chunks fun _ => rfl]
  split
  · rename_i closes
    rw [filterMap_path_extra, among_of_isClose _ closes]
  · rfl

/-- The fields of a node hold nothing but its children. -/
theorem filter_of_not_has {n : Node} {f : Field} (none : n.has f = false) : n.children.filter (·.1 == f) = [] := by
  rw [List.filter_eq_nil_iff]
  intro c member filled
  have has : n.has f = true := List.any_eq_true.mpr ⟨c, member, filled⟩
  rw [none] at has
  cases has

/-- What stands in the fields, given child by child. -/
theorem layout_children {α : Type} {n : Node} {k : Kind} (order : Node.arrange k n.children = n.children)
    (parent : Option Node) (g : Field × Node → List α) :
    (n.layout parent k).flatMap (Piece.among fun f => (n.children.filter (·.1 == f)).flatMap g) =
      n.children.flatMap g := by
  rw [Node.layout_among (fun f none => by rw [filter_of_not_has none, List.flatMap_nil]), Node.flatMap_arrange order]

/-- The nodes of an arranged tree begin in the order of the walk. -/
theorem plain_paths (m : ExtrasMap) (n : Node) (arranged : n.Arranged) (above : List Node) :
    (n.plain m above).filterMap Chunk.path? = n.pathsBelow above := by
  induction n using Node.induct generalizing above with
  | mk id tag scalars children ih =>
    obtain ⟨k, is, order⟩ := arranged _ (Node.mem_preorder_self _)
    have pieces : pieces ⟨.mk id tag scalars children, above⟩ =
        (Node.mk id tag scalars children).layout above.head? k := by
      simp only [Writer.pieces, Node.kind?, is, Path.parent?]
    have below (f : Field) :
        (under f (Node.plainAll m (.mk id tag scalars children :: above) children)).flatMap
            (List.filterMap Chunk.path?) =
          (children.filter (·.1 == f)).flatMap (·.2.pathsBelow (.mk id tag scalars children :: above)) := by
      rw [Node.plainAll_eq, under, List.filter_map, List.map_map, List.flatMap_map]
      exact List.flatMap_congr fun c member =>
        ih c (List.mem_filter.mp member).1 (arranged.child (List.mem_filter.mp member).1) _
    have closing (c : Bool) (es : List Extra) :
        (if c then [] else es.map Chunk.extra).filterMap Chunk.path? = [] := by
      cases c
      · exact filterMap_path_extra es
      · rfl
    rw [Node.plain, Path.plain, Node.pathsBelow, Node.pathsBelowAll_eq]
    simp only [List.filterMap_append, filterMap_path_extra, List.filterMap_cons, Chunk.path?, closing,
      List.filterMap_flatMap, filterMap_path_chunks, below, pieces, List.nil_append, List.append_nil]
    exact congrArg _ (layout_children order above.head? _)

/-- A writer visits an arranged tree in the order of the walk. -/
theorem visits_eq {w : Writer} (n : Node) (arranged : n.Arranged) : w.visits n = n.paths := by
  rw [visits, filterMap_plain fun _ => rfl, plain_paths _ n arranged]
  rfl

end Writer

/-- Two operands and a sign between them, of which the first may be no operand at all. -/
def Mutation.operation (first : Kind) : Node :=
  .mk 3 (.kind .binaryExpression) [] [
    (.lhs, .mk 0 (.kind first) [(.text, .text "in")] []),
    (.operator, .mk 1 (.kind .keyword) [(.text, .text "+")] []),
    (.rhs, .mk 2 (.kind .nameExpression) [(.text, .text "a")] [])]

theorem Mutation.operation_arranged {first : Kind} (plain : first.slots = []) : (operation first).Arranged := by
  intro m member
  simp only [operation, Node.preorder, Node.preorderAll, List.append_nil, List.cons_append, List.nil_append,
    List.mem_cons, List.not_mem_nil, or_false] at member
  rcases member with rfl | rfl | rfl | rfl
  · exact ⟨_, rfl, rfl⟩
  · refine ⟨first, rfl, ?_⟩
    simp [Node.arrange, plain, Node.children]
  · exact ⟨_, rfl, rfl⟩
  · exact ⟨_, rfl, rfl⟩

end KotlinSyntax
