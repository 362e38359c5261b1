import Mathlib.Data.List.Perm.Basic
import Mathlib.Data.List.ProdSigma
import KotlinSyntax.Proofs.Emission
import KotlinSyntax.Proofs.Placement

/-! What is written of a source with its extras. Trivia may move against the words next to it, and a criterion may ask
for a separator where the source had none, so the text is not always the source. But no token is lost or doubled: the
words come in their order, and each piece of trivia comes once. -/
namespace KotlinSyntax

/-- What a list holds, key by key. -/
theorem flatMap_filter_perm {α κ : Type} [DecidableEq κ] (key : α → κ) (keys : List κ) (distinct : keys.Nodup)
    (xs : List α) (known : ∀ x ∈ xs, key x ∈ keys) : (keys.flatMap fun k => xs.filter (key · == k)).Perm xs := by
  induction keys generalizing xs with
  | nil =>
    cases xs with
    | nil => exact .nil
    | cons x xs => cases known x (List.mem_cons_self ..)
  | cons k keys ih =>
    obtain ⟨fresh, distinct⟩ := List.nodup_cons.mp distinct
    have others : (keys.flatMap fun k' => xs.filter (key · == k')) =
        keys.flatMap fun k' => (xs.filter fun x => !(key x == k)).filter (key · == k') := by
      refine List.flatMap_congr fun k' member => ?_
      rw [List.filter_filter]
      refine List.filter_congr fun x _ => ?_
      by_cases own : key x = k'
      · have differs : key x ≠ k := fun same => fresh (same ▸ own ▸ member)
        simp [own, own ▸ differs]
      · simp [own]
    rw [List.flatMap_cons, others]
    refine (List.Perm.append_left _ (ih distinct _ fun x member => ?_)).trans (List.filter_append_perm _ xs)
    obtain ⟨inside, differs⟩ := List.mem_filter.mp member
    rcases List.mem_cons.mp (known x inside) with same | further
    · simp [same] at differs
    · exact further

def Chunk.extra? : Chunk → Option Extra
  | extra e => some e
  | _ => none

namespace ExtrasMap

/-- All that is kept for a node. -/
def around (m : ExtrasMap) (n : Node) : List Extra := m.before n ++ m.within n ++ m.after n

/-- What is kept for the nodes of a tree, position by position. -/
theorem flatMap_around (m : ExtrasMap) (n : Node) :
    n.preorder.flatMap m.around =
      (n.ids ×ˢ [Placement.Position.before, .within, .after]).flatMap fun at_ => m.held at_.1 at_.2 := by
  simp only [SProd.sprod, List.product, Node.ids, List.flatMap_assoc, List.flatMap_map, List.map_cons, List.map_nil,
    List.flatMap_cons, List.flatMap_nil, List.append_nil]
  exact List.flatMap_congr fun n _ => List.append_assoc ..

end ExtrasMap

namespace Writer

theorem filterMap_extra (es : List Extra) : (es.map Chunk.extra).filterMap Chunk.extra? = es := by
  simp [List.filterMap_map, Function.comp_def, Chunk.extra?]

/-- Pieces that do not close the node hold what its children hold. -/
theorem filterMap_extra_open (within : List Extra) (parts : List (Field × List Chunk)) {pieces : List Piece}
    (inner : pieces.any (·.isClose) = false) :
    (pieces.flatMap (Piece.chunks within parts)).filterMap Chunk.extra? =
      pieces.flatMap (Piece.among fun f => (under f parts).flatMap (List.filterMap Chunk.extra?)) := by
  rw [List.filterMap_flatMap]
  refine List.flatMap_congr fun piece member => ?_
  rw [filterMap_chunks fun _ => rfl, if_neg (by simpa using List.any_eq_false.mp inner piece member)]

/-- The pieces of a node hold what its children hold and what is kept within it, unless that comes behind them. -/
theorem filterMap_extra_pieces {n : Node} {k : Kind} (is : n.kind? = some k) (parent : Option Node)
    (within : List Extra) (parts : List (Field × List Chunk)) :
    (((n.layout parent k).flatMap (Piece.chunks within parts)).filterMap Chunk.extra? ++
      if (n.layout parent k).any (·.isClose) then [] else within).Perm
    (within ++ (n.layout parent k).flatMap
      (Piece.among fun f => (under f parts).flatMap (List.filterMap Chunk.extra?))) := by
  cases closing : n.closing? with
  | none =>
    have inner := Node.layout_any_isClose is closing parent
    rw [filterMap_extra_open within parts inner, inner]
    exact List.perm_append_comm
  | some token =>
    obtain ⟨front, back, layout, first, last, -⟩ := Node.layout_closes is closing parent
    have is_close : (Piece.close token).isClose = true := rfl
    have closes : (front ++ .close token :: back).any (·.isClose) = true := by
      simp [Piece.isClose]
    have kept : ((Piece.close token).chunks within parts).filterMap Chunk.extra? = within := by
      rw [filterMap_chunks fun _ => rfl, if_pos is_close, filterMap_extra]
    rw [layout, closes, if_pos rfl, List.append_nil]
    simp only [List.flatMap_append, List.flatMap_cons, List.filterMap_append, filterMap_extra_open within parts first,
      filterMap_extra_open within parts last, kept, among_of_isClose _ is_close, List.nil_append]
    rw [← List.append_assoc, ← List.append_assoc]
    exact List.perm_append_comm.append_right _

/-- What is kept for the nodes of a tree is written once. -/
theorem plain_extras (m : ExtrasMap) (n : Node) (arranged : n.Arranged) (above : List Node) :
    ((n.plain m above).filterMap Chunk.extra?).Perm (n.preorder.flatMap m.around) := by
  induction n using Node.induct generalizing above with
  | mk id tag scalars children ih =>
    obtain ⟨k, is, order⟩ := arranged _ (Node.mem_preorder_self _)
    have kind : (Node.mk id tag scalars children).kind? = some k := by simp [Node.kind?, is]
    have pieces : pieces ⟨.mk id tag scalars children, above⟩ =
        (Node.mk id tag scalars children).layout above.head? k := by
      simp only [Writer.pieces, kind, Path.parent?]
    have below (f : Field) :
        (under f (Node.plainAll m (.mk id tag scalars children :: above) children)).flatMap
          (List.filterMap Chunk.extra?) = (children.filter (·.1 == f)).flatMap fun c =>
            (c.2.plain m (.mk id tag scalars children :: above)).filterMap Chunk.extra? := by
      rw [Node.plainAll_eq, under, List.filter_map, List.map_map, List.flatMap_map]
      rfl
    have inside := filterMap_extra_pieces kind above.head? (m.within (.mk id tag scalars children))
      (Node.plainAll m (.mk id tag scalars children :: above) children)
    have held := layout_children (n := .mk id tag scalars children) order above.head? fun c =>
      (c.2.plain m (.mk id tag scalars children :: above)).filterMap Chunk.extra?
    simp only [below, Node.children] at inside held
    rw [held] at inside
    have whole : (children.flatMap fun c =>
        (c.2.plain m (.mk id tag scalars children :: above)).filterMap Chunk.extra?).Perm
          (children.flatMap fun c => c.2.preorder.flatMap m.around) :=
      .flatMap_left _ fun c member => ih c member (arranged.child member) _
    have closing (c : Bool) (es : List Extra) :
        (if c then [] else es.map Chunk.extra).filterMap Chunk.extra? = if c then [] else es := by
      cases c
      · exact filterMap_extra es
      · rfl
    rw [Node.plain, Path.plain, Node.preorder, Node.preorderAll_eq, List.flatMap_cons, List.flatMap_assoc]
    simp only [List.filterMap_append, List.filterMap_cons, filterMap_extra, closing, Chunk.extra?, pieces,
      ExtrasMap.around, List.append_assoc] at inside whole ⊢
    rw [← List.append_assoc (List.filterMap _ _)]
    refine .append_left _ (((inside.trans (whole.append_left _)).append_right _).trans ?_)
    rw [List.append_assoc]
    exact List.perm_append_comm.append_left _

/-- Of an arranged tree a writer puts down each extra once. -/
theorem chunks_extras (w : Writer) (root : Node) (arranged : root.Arranged) :
    ((w.chunks root).filterMap Chunk.extra?).Perm (root.preorder.flatMap w.extras.around) := by
  rw [filterMap_plain fun _ => rfl]
  exact plain_extras w.extras root arranged []

end Writer

namespace Placement

theorem Becomes.text {l : Leaf} {x : Extra} (h : Becomes l x) : x.text = l.token.text := by
  cases h with
  | whitespace kind => rfl
  | comment kind startsLine endsLine => rfl
  | semicolon kind text => exact text.symm
  | trailingComma kind text => exact text.symm

/-- What is dealt out to the nodes of a tree is kept there. -/
theorem Adds.around {m : ExtrasMap} {xs : List Placing} (h : Adds {} m xs) {n : Node} (distinct : n.ids.Nodup)
    (homes : ∀ x ∈ xs, x.id ∈ n.ids) : (n.preorder.flatMap m.around).Perm (xs.map (·.extra)) := by
  have positions : [Position.before, .within, .after].Nodup := by decide
  have known : ∀ x ∈ xs, (x.id, x.position) ∈ n.ids ×ˢ [Position.before, .within, .after] := by
    intro x member
    refine List.pair_mem_product.mpr ⟨homes x member, ?_⟩
    cases x.position <;> decide
  have dealt := (flatMap_filter_perm (fun x : Placing => (x.id, x.position)) _ (distinct.product positions) xs
    known).map (·.extra)
  rw [List.map_flatMap] at dealt
  rw [m.flatMap_around]
  refine .trans (.of_eq ?_) dealt
  refine List.flatMap_congr fun at_ _ => ?_
  have empty : ({} : ExtrasMap).held at_.1 at_.2 = [] := by
    cases at_.2 <;> rfl
  rw [h.held, empty, List.nil_append]
  refine congrArg _ (List.filter_congr fun x _ => ?_)
  rw [Bool.eq_iff_iff]
  simp [Prod.ext_iff]

end Placement

namespace Source

open Placement Conversion

/-- A tree with extras is written as the words of the source in their order, each piece of its trivia once, and
nothing else but separators that criteria ask for. -/
theorem written_words_and_trivia (form : Form) (fileName : Option String) (source : String) (tree : Tree)
    (h : (parse form { extras := true, fileName } source).result = .ok tree) :
    ∃ root, (raw form fileName source).result = .ok root ∧
      ∃ cs, tree.write = .ok (String.join (cs.map Chunk.text)) ∧
        Writer.Written (fun _ => True) cs root.words ∧
        ((cs.filterMap Chunk.extra?).map (·.text)).Perm ((root.leaves.filter (·.trivia)).map (·.token.text)) := by
  obtain ⟨root, read, converted⟩ := parse_full_ok h
  have readable := raw_readable read
  have stands := convertFull_standsFor readable converted
  obtain ⟨ids, xs, leaves, becomes, homes, adds⟩ := convertFull_places readable (raw_spelled read) converted
  refine ⟨root, read, ({ extras := tree.extras } : Writer).chunks tree.root, ?_, ?_, ?_⟩
  · rw [Tree.write, Writer.write, stands.known.recognized]
    rfl
  · rw [← stands.words]
    exact Writer.chunks_written (fun _ _ _ => trivial) tree.root
  · have once := Writer.chunks_extras { extras := tree.extras } tree.root (convertFull_arranged readable converted)
    have extras := once.trans (adds.around ids homes)
    have texts : (xs.map (·.extra)).map (·.text) = (root.leaves.filter (·.trivia)).map (·.token.text) := by
      rw [← leaves, List.map_map, List.map_map]
      exact List.map_congr_left fun x member => (becomes x member).text
    exact texts ▸ extras.map (·.text)

end Source

end KotlinSyntax
