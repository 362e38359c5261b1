import KotlinSyntax.Proofs.Traversal
import KotlinSyntax.Proofs.Writer

/-! Emission. Apart from separators, a writer puts down the extras before a node, the texts of the node and of its
children in order, and the extras after it. The extras within the node come once: before the token that closes it
or, where no token does, behind all else. -/
namespace KotlinSyntax

def Chunk.kept? : Chunk → Option String
  | visit _ => none
  | own text => some text
  | extra e => some e.text
  | added _ => none

inductive Share
  /-- A text of the node itself. -/
  | own (text : String)
  /-- All texts of a child. -/
  | child (texts : List String)
  deriving DecidableEq, Repr

namespace Share

def texts : Share → List String
  | own text => [text]
  | child texts => texts

def child? : Share → Option (List String)
  | own _ => none
  | child texts => some texts

/-- The texts of the shares, with further ones before the last share that is the token. -/
def fill (token : String) (within : List String) : List Share → List String
  | [] => []
  | s :: rest =>
    if s = own token ∧ own token ∉ rest then within ++ s.texts ++ rest.flatMap texts
    else s.texts ++ fill token within rest

theorem fill_append {token : String} {within : List String} {front back : List Share} (last : own token ∉ back) :
    fill token within (front ++ own token :: back) =
      front.flatMap texts ++ within ++ token :: back.flatMap texts := by
  induction front with
  | nil => simp [fill, last, texts]
  | cons s front ih =>
    have further : own token ∈ front ++ own token :: back := List.mem_append_right _ (List.mem_cons_self ..)
    rw [List.cons_append, fill, if_neg fun h => h.2 further, ih]
    simp only [List.flatMap_cons, List.append_assoc]

end Share

def Piece.shares (parts : List (Field × List String)) : Piece → List Share
  | token text => if text.isEmpty then [] else [.own text]
  | glued text => [.own text]
  | child f => (under f parts).map .child
  | list f separator =>
    List.intercalate (if separator.isEmpty then [] else [.own separator])
      ((under f parts).map fun texts => [.child texts])
  | each f terminator => (under f parts).flatMap fun texts => [.child texts, .own terminator]
  | entriesEnd => []
  | close text => [.own text]
  | gap => []

namespace Node

/-- The token that closes a node, behind what is kept within it. -/
def closing? (n : Node) : Option String :=
  n.kind?.bind fun
    | .classBody | .blockExpression | .lambdaExpression | .whenExpression => some "\x7d"
    | .functionParams | .functionTypeParams | .valueArgs | .contextReceivers | .parenthesizedExpression => some ")"
    | .typeParams | .typeArgs => some ">"
    | .contractEffects | .collectionLiteralExpression | .arrayAccessExpression => some "]"
    | .stringLiteralExpression => some n.quotes
    | .templateStringEntry => if n.flag .isShort then none else some "\x7d"
    | .superExpression => if n.has .typeArgTypeRef then some ">" else none
    | _ => none

def share (n : Node) (parts : List (Field × List String)) : List Share :=
  match n.kind? with
  | some k => (n.layout none k).flatMap (Piece.shares parts)
  | none => []

def surround (m : ExtrasMap) (n : Node) (shares : List Share) : List String :=
  (m.before n).map (·.text) ++
    (match n.closing? with
      | some token => Share.fill token ((m.within n).map (·.text)) shares
      | none => shares.flatMap Share.texts ++ (m.within n).map (·.text)) ++
    (m.after n).map (·.text)

mutual

/-- The texts that are put down for a tree. -/
def emit (m : ExtrasMap) : Node → List String
  | .mk id tag scalars children =>
    surround m (.mk id tag scalars children) ((Node.mk id tag scalars children).share (emitAll m children))

def emitAll (m : ExtrasMap) : List (Field × Node) → List (Field × List String)
  | [] => []
  | (f, n) :: rest => (f, emit m n) :: emitAll m rest

end

def shares (m : ExtrasMap) (n : Node) : List Share := n.share (emitAll m n.children)

theorem emit_eq (m : ExtrasMap) (n : Node) : n.emit m = n.surround m (n.shares m) := by
  cases n
  rw [emit]
  rfl

theorem emitAll_eq (m : ExtrasMap) (children : List (Field × Node)) :
    emitAll m children = children.map fun c => (c.1, c.2.emit m) := by
  induction children with
  | nil => rfl
  | cons c rest ih => rw [emitAll, List.map_cons, ih]

/-- What a node is above does not change its shares. -/
theorem layout_shares (parent : Option Node) (n : Node) (k : Kind) (parts : List (Field × List String)) :
    (n.layout parent k).flatMap (Piece.shares parts) = (n.layout none k).flatMap (Piece.shares parts) := by
  cases k <;> try rfl
  simp only [layout]
  split
  · simp [Piece.shares]
  · rfl

/-! A layout closes once where the kind has a closing token, and nowhere else. -/

/-- The pieces close once, by the token, which is none of the texts that follow. -/
def Closes (token : String) (pieces : List Piece) : Prop :=
  ∃ front back, pieces = front ++ .close token :: back ∧ front.any (·.isClose) = false ∧
    back.any (·.isClose) = false ∧ ∀ parts, .own token ∉ back.flatMap (Piece.shares parts)

theorem closes_of_getLast? {token : String} {pieces : List Piece} (last : pieces.getLast? = some (.close token))
    (once : pieces.countP (·.isClose) = 1) : Closes token pieces := by
  obtain ⟨front, rfl⟩ := List.getLast?_eq_some_iff.mp last
  have none : front.countP (·.isClose) = 0 := by
    simpa [List.countP_append, Piece.isClose] using once
  refine ⟨front, [], rfl, ?_, rfl, fun _ => List.not_mem_nil⟩
  simpa [List.countP_eq_zero] using none

section Layout

variable (n : Node) (text : String) (f : Field)

@[simp] theorem led_any_isClose : (n.led text f).any (·.isClose) = false := by
  unfold led
  split <;> rfl

@[simp] theorem ended_any_isClose : (n.ended f text).any (·.isClose) = false := by
  unfold ended
  split <;> rfl

@[simp] theorem atLabel_any_isClose : n.atLabel.any (·.isClose) = false := by
  unfold atLabel
  split <;> rfl

@[simp] theorem ended_countP_isClose : (n.ended f text).countP (·.isClose) = 0 := by
  unfold ended
  split <;> rfl

end Layout

theorem layout_closes {n : Node} {k : Kind} (is : n.kind? = some k) {token : String} (closing : n.closing? = some token)
    (parent : Option Node) : Closes token (n.layout parent k) := by
  rw [closing?, is, Option.bind_some] at closing
  cases k <;> simp only [Option.some.injEq, reduceCtorEq] at closing
  case superExpression =>
    split at closing
    · rename_i typed
      cases closing
      refine ⟨[.token "super", .token "<", .child .typeArgTypeRef], n.atLabel, by simp [layout, typed], rfl,
        atLabel_any_isClose n, fun parts => ?_⟩
      unfold atLabel
      split <;> simp [Piece.shares]
    · cases closing
  case templateStringEntry =>
    split at closing
    · cases closing
    · rename_i long
      cases closing
      exact closes_of_getLast? (by simp [layout, long]) (by simp [layout, long, Piece.isClose])
  all_goals
    subst closing
    refine closes_of_getLast? (by simp [layout, bracketed, List.getLast?_cons]) ?_
    simp only [layout, bracketed, List.countP_append, ended_countP_isClose]
  case classBody => split <;> rfl
  all_goals rfl

theorem layout_any_isClose {n : Node} {k : Kind} (is : n.kind? = some k) (unclosed : n.closing? = none)
    (parent : Option Node) : (n.layout parent k).any (·.isClose) = false := by
  rw [closing?, is, Option.bind_some] at unclosed
  cases k <;> simp only [reduceCtorEq, ite_eq_left_iff, ite_eq_right_iff, imp_false, not_not] at unclosed
  case superExpression =>
    simp only [layout, unclosed]
    exact atLabel_any_isClose n
  case templateStringEntry =>
    simp only [layout, unclosed, if_true]
    rfl
  all_goals
    simp only [layout, List.any_append, List.any_cons, led_any_isClose, ended_any_isClose, atLabel_any_isClose]
  case importDirective | typeArg | valueArg | lambdaArg | annotationEntry => split <;> rfl
  all_goals rfl

end Node

/-! The plain chunks of a tree hold the texts that are put down for it. -/

namespace Writer

theorem filterMap_kept_extra (es : List Extra) :
    (es.map Chunk.extra).filterMap Chunk.kept? = es.map (·.text) := by
  induction es with
  | nil => rfl
  | cons e rest ih => simp only [List.map_cons, List.filterMap_cons, Chunk.kept?, ih]

theorem filterMap_kept_chunks (within : List Extra) (parts : List (Field × List Chunk)) {piece : Piece}
    (inner : piece.isClose = false) : (piece.chunks within parts).filterMap Chunk.kept? =
      (piece.shares (parts.map fun part => (part.1, part.2.filterMap Chunk.kept?))).flatMap Share.texts := by
  have labelled (f : Field) : under f (parts.map fun part => (part.1, part.2.filterMap Chunk.kept?)) =
      (under f parts).map (List.filterMap Chunk.kept?) := by
    simp [under, List.filter_map, Function.comp_def]
  have kept (text : String) : [Chunk.own text].filterMap Chunk.kept? = [text] := rfl
  cases piece with
  | token text =>
    simp only [Piece.chunks, Piece.shares]
    split <;> rfl
  | glued text => rfl
  | child f =>
    simp [Piece.chunks, Piece.shares, labelled, List.filterMap_flatten, List.flatMap_def, Share.texts,
      Function.comp_def]
  | list f separator =>
    have between : (if separator.isEmpty then [] else [Chunk.own separator]).filterMap Chunk.kept? =
        (if separator.isEmpty then [] else [Share.own separator]).flatMap Share.texts := by
      split <;> rfl
    simp only [Piece.chunks, Piece.shares, labelled, filterMap_intercalate, flatMap_intercalate, between, List.map_map]
    refine congrArg _ (List.map_congr_left fun texts _ => ?_)
    simp [Share.texts]
  | each f terminator =>
    simp [Piece.chunks, Piece.shares, labelled, List.filterMap_flatMap, List.flatMap_map, kept, List.flatMap_assoc,
      Share.texts]
  | entriesEnd => rfl
  | close text => cases inner
  | gap => rfl

theorem filterMap_kept_pieces (within : List Extra) (parts : List (Field × List Chunk)) {pieces : List Piece}
    (inner : pieces.any (·.isClose) = false) : (pieces.flatMap (Piece.chunks within parts)).filterMap Chunk.kept? =
      (pieces.flatMap (Piece.shares (parts.map fun part => (part.1, part.2.filterMap Chunk.kept?)))).flatMap
        Share.texts := by
  rw [List.filterMap_flatMap, List.flatMap_assoc]
  refine List.flatMap_congr fun piece member => filterMap_kept_chunks within parts ?_
  simpa using List.any_eq_false.mp inner piece member

/-- The texts of a node, given the chunks of its children. -/
theorem filterMap_kept_plain (m : ExtrasMap) (p : Path) {k : Kind} (is : p.node.kind? = some k)
    (parts : List (Field × List Chunk)) : (p.plain m parts).filterMap Chunk.kept? =
      p.node.surround m (p.node.share (parts.map fun part => (part.1, part.2.filterMap Chunk.kept?))) := by
  have pieces : pieces p = p.node.layout p.parent? k := by simp only [Writer.pieces, is]
  simp only [Node.surround, Node.share, is, ← Node.layout_shares p.parent?, Path.plain, pieces, List.filterMap_append,
    List.filterMap_cons, Chunk.kept?, filterMap_kept_extra]
  cases closing : p.node.closing? with
  | none =>
    have inner := Node.layout_any_isClose is closing p.parent?
    simp only [inner, filterMap_kept_pieces _ _ inner, Bool.false_eq_true, if_false, filterMap_kept_extra,
      List.append_assoc]
  | some token =>
    obtain ⟨front, back, layout, first, last, absent⟩ := Node.layout_closes is closing p.parent?
    have closes : (front ++ .close token :: back).any (·.isClose) = true := by
      simp [Piece.isClose]
    simp only [layout, closes, if_true, List.flatMap_append, List.flatMap_cons, List.filterMap_append,
      filterMap_kept_pieces _ _ first, filterMap_kept_pieces _ _ last, Piece.chunks, filterMap_kept_extra, Piece.shares,
      List.cons_append, List.nil_append, Share.fill_append (absent _)]
    simp [Chunk.kept?]

theorem plain_kept (m : ExtrasMap) (n : Node) (known : n.Known) (above : List Node) :
    (n.plain m above).filterMap Chunk.kept? = n.emit m := by
  induction n using Node.induct generalizing above with
  | mk id tag scalars children ih =>
    obtain ⟨k, is⟩ := Option.isSome_iff_exists.mp (known _ (Node.mem_preorder_self _))
    have below : ((Node.plainAll m (.mk id tag scalars children :: above) children).map fun part =>
        (part.1, part.2.filterMap Chunk.kept?)) = Node.emitAll m children := by
      rw [Node.plainAll_eq, Node.emitAll_eq, List.map_map]
      refine List.map_congr_left fun c member => ?_
      have kept := ih c member (fun n inside => known n (Node.mem_preorder_child member inside))
        (.mk id tag scalars children :: above)
      exact congrArg _ kept
    rw [Node.plain, Node.emit, filterMap_kept_plain m ⟨.mk id tag scalars children, above⟩ is, below]

/-- Without separators the output of a writer is what is put down for the tree. -/
theorem chunks_kept (w : Writer) (root : Node) (known : root.Known) :
    (w.chunks root).filterMap Chunk.kept? = root.emit w.extras := by
  rw [filterMap_plain fun _ => rfl, plain_kept _ root known]

/-! The children of a node have their shares in order. -/

theorem filterMap_child_shares (parts : List (Field × List String)) (piece : Piece) :
    (piece.shares parts).filterMap Share.child? = piece.among fun f => under f parts := by
  have child (texts : List String) : [Share.child texts].filterMap Share.child? = [texts] := rfl
  cases piece with
  | token text =>
    simp only [Piece.shares]
    split <;> rfl
  | glued text => rfl
  | child f => simp [Piece.shares, Piece.among, Piece.field?, Function.comp_def, Share.child?]
  | list f separator =>
    have between : (if separator.isEmpty then [] else [Share.own separator]).filterMap Share.child? = [] := by
      split <;> rfl
    rw [Piece.shares, filterMap_intercalate, between, intercalate_nil, List.map_map, ← List.flatMap_def]
    simp [Piece.among, Piece.field?, child, Function.comp_def]
  | each f terminator =>
    have both (texts : List String) : [Share.child texts, .own terminator].filterMap Share.child? = [texts] := rfl
    simp [Piece.shares, Piece.among, Piece.field?, List.filterMap_flatMap, both]
  | entriesEnd => rfl
  | close text => rfl
  | gap => rfl

theorem shares_children (m : ExtrasMap) {n : Node} {k : Kind} (is : n.kind? = some k)
    (order : Node.arrange k n.children = n.children) :
    (n.shares m).filterMap Share.child? = n.children.map (·.2.emit m) := by
  have below (f : Field) :
      under f (Node.emitAll m n.children) = (n.children.filter (·.1 == f)).flatMap fun c => [c.2.emit m] := by
    rw [Node.emitAll_eq, under, List.filter_map, List.map_map, ← List.map_eq_flatMap]
    rfl
  simp only [Node.shares, Node.share, is, List.filterMap_flatMap, filterMap_child_shares, below]
  rw [List.map_eq_flatMap]
  exact layout_children order none _

/-- Where a node has a closing token, it is among its shares. -/
theorem shares_closing (m : ExtrasMap) {n : Node} {k : Kind} (is : n.kind? = some k) {token : String}
    (closing : n.closing? = some token) :
    ∃ front back, n.shares m = front ++ .own token :: back ∧ .own token ∉ back := by
  obtain ⟨front, back, layout, -, -, absent⟩ := Node.layout_closes is closing none
  refine ⟨front.flatMap (Piece.shares (Node.emitAll m n.children)),
    back.flatMap (Piece.shares (Node.emitAll m n.children)), ?_, absent _⟩
  simp only [Node.shares, Node.share, is, layout, List.flatMap_append, List.flatMap_cons, Piece.shares,
    List.cons_append, List.nil_append]

theorem Written.separators {P : Extra → Prop} {cs : List Chunk} {ws : List String} (h : Written P cs ws) {text : String}
    (member : .added text ∈ cs) : text ∈ [" ", "\n", ";"] := by
  induction h with
  | nil => cases member
  | visit p tail ih | own texts tail ih | extra e sort tail ih => exact ih (by simpa using member)
  | added t separator tail ih =>
    rcases List.mem_cons.mp member with same | further
    · cases same
      simpa [isSeparator, or_assoc] using separator
    · exact ih further
  | empty tail ih => exact ih member

/-- A writer writes a tree of known kinds. Apart from separators that criteria ask for, it puts down the extras before
each node, what the node and its children in order hold, and the extras after it; the extras within the node come once
and right before its closing token or, where it has none, right before the extras after it. -/
theorem extras_written_in_place (w : Writer) (root : Node) (arranged : root.Arranged) :
    w.write root = .ok (String.join ((w.chunks root).map (·.text))) ∧
    (∀ text, .added text ∈ w.chunks root → text ∈ [" ", "\n", ";"]) ∧
    (w.chunks root).filterMap Chunk.kept? = root.emit w.extras ∧
    ∀ n ∈ root.preorder,
      (n.shares w.extras).filterMap Share.child? = n.children.map (·.2.emit w.extras) ∧
      match n.closing? with
      | some token => ∃ front back, n.shares w.extras = front ++ .own token :: back ∧ .own token ∉ back ∧
          n.emit w.extras = (w.extras.before n).map (·.text) ++
            (front.flatMap Share.texts ++ (w.extras.within n).map (·.text) ++ token :: back.flatMap Share.texts) ++
            (w.extras.after n).map (·.text)
      | none => n.emit w.extras = (w.extras.before n).map (·.text) ++
          ((n.shares w.extras).flatMap Share.texts ++ (w.extras.within n).map (·.text)) ++
          (w.extras.after n).map (·.text) := by
  have known : root.Known := by
    intro n inside
    obtain ⟨k, is, -⟩ := arranged n inside
    simp [Node.kind?, is]
  refine ⟨?_, ?_, chunks_kept w root known, fun n inside => ?_⟩
  · rw [Writer.write, known.recognized]
    rfl
  · have written : Written (fun _ => True) (w.chunks root) root.words :=
      chunks_written (fun _ _ _ => trivial) root
    exact fun text member => written.separators member
  · obtain ⟨k, tag, order⟩ := arranged n inside
    have is : n.kind? = some k := by simp [Node.kind?, tag]
    refine ⟨shares_children w.extras is order, ?_⟩
    have emitted := Node.emit_eq w.extras n
    unfold Node.surround at emitted
    cases closing : n.closing? with
    | none =>
      rw [closing] at emitted
      exact emitted
    | some token =>
      rw [closing] at emitted
      obtain ⟨front, back, shares, last⟩ := shares_closing w.extras is closing
      refine ⟨front, back, shares, last, ?_⟩
      rw [emitted, shares]
      simp only [Share.fill_append last]

def labelledSuper : Node :=
  .mk 4 (.kind .superExpression) [] [
    (.typeArgTypeRef, .mk 2 (.kind .typeRef) [] [
      (.type, .mk 1 (.kind .simpleType) [] [(.name, .mk 0 (.kind .nameExpression) [(.text, .text "T")] [])])]),
    (.label, .mk 3 (.kind .nameExpression) [(.text, .text "l")] [])]

theorem labelledSuper_arranged : labelledSuper.Arranged := by
  intro m member
  simp only [labelledSuper, Node.preorder, Node.preorderAll, List.append_nil, List.cons_append, List.nil_append,
    List.mem_cons, List.not_mem_nil, or_false] at member
  rcases member with rfl | rfl | rfl | rfl | rfl <;> exact ⟨_, rfl, rfl⟩

def superExtras : ExtrasMap := ⟨[
  (4, ⟨[.comment "/*a*/" false false], [.comment "/*b*/" false false], [.semicolon]⟩),
  (2, ⟨[.whitespace " "], [.comment "/*c*/" false false], []⟩)]⟩

/-- What is within the reference stands before the bracket, what is within its type behind the name. -/
theorem super_extras_in_place : labelledSuper.Arranged ∧
    (({ extras := superExtras } : Writer).chunks labelledSuper).filterMap Chunk.kept? =
      ["/*a*/", "super", "<", " ", "T", "/*c*/", "/*b*/", ">", "@", "l", ";"] :=
  ⟨labelledSuper_arranged,
    (extras_written_in_place _ labelledSuper labelledSuper_arranged).2.2.1.trans (by decide)⟩

end Writer

end KotlinSyntax
