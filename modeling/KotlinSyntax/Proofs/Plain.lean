import Mathlib.Data.List.Basic
import KotlinSyntax.Proofs.Words
import KotlinSyntax.Writer

/-! Plain output. What criteria ask for comes between the other chunks and moves none of them, so without it the
output of a writer follows from the layouts and the extras alone. -/
namespace KotlinSyntax

def Chunk.isAdded : Chunk → Bool
  | added _ => true
  | _ => false

def Piece.chunks (within : List Extra) (parts : List (Field × List Chunk)) : Piece → List Chunk
  | token text => if text.isEmpty then [] else [.own text]
  | glued text => [.own text]
  | child f => (under f parts).flatten
  | list f separator => List.intercalate (if separator.isEmpty then [] else [.own separator]) (under f parts)
  | each f terminator => (under f parts).flatMap (· ++ [.own terminator])
  | entriesEnd => []
  | close text => within.map .extra ++ [.own text]
  | gap => []

def Path.plain (m : ExtrasMap) (p : Path) (parts : List (Field × List Chunk)) : List Chunk :=
  (m.before p.node).map .extra ++ .visit p :: (Writer.pieces p).flatMap (Piece.chunks (m.within p.node) parts) ++
    (if (Writer.pieces p).any (·.isClose) then [] else (m.within p.node).map .extra) ++ (m.after p.node).map .extra

/-! Views of lists with something between two of them. -/

theorem flatMap_intercalate {α β : Type} (view : α → List β) (separator : List α) (xss : List (List α)) :
    (List.intercalate separator xss).flatMap view =
      List.intercalate (separator.flatMap view) (xss.map (List.flatMap view)) := by
  induction xss with
  | nil => rfl
  | cons xs rest ih =>
    cases rest with
    | nil => simp
    | cons next rest => simp only [List.map_cons, List.intercalate_cons_cons, List.flatMap_append, ih]

theorem filterMap_intercalate {α β : Type} (view : α → Option β) (separator : List α) (xss : List (List α)) :
    (List.intercalate separator xss).filterMap view =
      List.intercalate (separator.filterMap view) (xss.map (List.filterMap view)) := by
  have same : List.filterMap view = List.flatMap fun x => (view x).toList :=
    funext (List.filterMap_eq_flatMap_toList view)
  rw [same, flatMap_intercalate]

theorem intercalate_nil {α : Type} (xss : List (List α)) : List.intercalate [] xss = xss.flatten := by
  induction xss with
  | nil => rfl
  | cons xs rest ih =>
    cases rest with
    | nil => simp
    | cons next rest => simp [ih]

namespace Node

mutual

/-- The chunks of the node below the given ones, without what criteria ask for. -/
def plain (m : ExtrasMap) (above : List Node) : Node → List Chunk
  | .mk id tag scalars children =>
    Path.plain m ⟨.mk id tag scalars children, above⟩ (plainAll m (.mk id tag scalars children :: above) children)

def plainAll (m : ExtrasMap) (above : List Node) : List (Field × Node) → List (Field × List Chunk)
  | [] => []
  | (f, n) :: rest => (f, plain m above n) :: plainAll m above rest

end

theorem plainAll_eq (m : ExtrasMap) (above : List Node) (children : List (Field × Node)) :
    plainAll m above children = children.map fun c => (c.1, c.2.plain m above) := by
  induction children with
  | nil => rfl
  | cons c rest ih => rw [plainAll, List.map_cons, ih]

end Node

namespace Writer

def State.plain (s : State) : List Chunk := s.chunks.reverse.filter (!·.isAdded)

variable {w : Writer}

theorem put_plain (s : State) {c : Chunk} (kept : c.isAdded = false) : (s.put c).plain = s.plain ++ [c] := by
  simp [State.plain, State.put, kept]

@[simp] theorem put_added (s : State) (text : String) : (s.put (.added text)).plain = s.plain := by
  simp [State.plain, State.put, Chunk.isAdded]

theorem append_plain (s : State) {c : Chunk} (kept : c.isAdded = false) : (w.append c s).plain = s.plain ++ [c] := by
  unfold Writer.append
  split <;> simp only [put_plain _ kept, put_added]

@[simp] theorem append_own (s : State) (text : String) : (w.append (.own text) s).plain = s.plain ++ [.own text] :=
  append_plain s rfl

@[simp] theorem append_added (s : State) (text : String) : (w.append (.added text) s).plain = s.plain := by
  unfold Writer.append
  split <;> simp only [put_added]

theorem foldl_plain {α : Type} {step : State → α → State} {shown : α → List Chunk} (xs : List α) (s : State)
    (each : ∀ x ∈ xs, ∀ s, (step s x).plain = s.plain ++ shown x) :
    (xs.foldl step s).plain = s.plain ++ xs.flatMap shown := by
  induction xs generalizing s with
  | nil => simp
  | cons x xs ih =>
    rw [List.foldl_cons, ih _ fun y member => each y (List.mem_cons_of_mem x member),
      each x (List.mem_cons_self ..), List.flatMap_cons, List.append_assoc]

@[simp] theorem writeExtras_plain (es : List Extra) (s : State) :
    (w.writeExtras es s).plain = s.plain ++ es.map .extra := by
  have folded : (es.foldl (fun s e => w.append (.extra e) s) s).plain = s.plain ++ es.flatMap fun e => [.extra e] :=
    foldl_plain es s fun e _ s => append_plain s rfl
  rw [← List.map_eq_flatMap] at folded
  exact folded

@[simp] theorem lead_plain (p : Path) (s : State) : (w.lead p s).plain = s.plain := by
  have line (c : Bool) (text : String) (s : State) :
      (if c then w.append (.added text) s else s).plain = s.plain := by
    cases c
    · rfl
    · exact append_added s text
  exact (line _ " " _).trans (line _ "\n" s)

@[simp] theorem semicolon_plain (s : State) : (w.semicolon s).plain = s.plain := by
  unfold Writer.semicolon
  split
  · rfl
  · exact append_added s ";"

def Part.Shows (part : Part) (cs : List Chunk) : Prop := ∀ s, (part.write s).plain = s.plain ++ cs

variable {shown : Part → List Chunk}

theorem writeList_plain (p : Path) (separator : String) (parts : List Part) (s : State)
    (h : ∀ part ∈ parts, part.Shows (shown part)) : (w.writeList p separator parts s).plain = s.plain ++
      List.intercalate (if separator.isEmpty then [] else [.own separator]) (parts.map shown) := by
  induction parts generalizing s with
  | nil => simp [Writer.writeList, List.intercalate]
  | cons part rest ih =>
    have first := h part (List.mem_cons_self ..) s
    rw [Writer.writeList, ih _ fun part member => h part (List.mem_cons_of_mem _ member)]
    have ended (c : Bool) (s : State) : (if c then w.semicolon s else s).plain = s.plain := by
      cases c
      · rfl
      · exact semicolon_plain s
    simp only [ended]
    cases rest with
    | nil => simp [first]
    | cons next rest =>
      by_cases none : separator.isEmpty = true
      · simp [none, first]
      · simp [none, first]

theorem writePiece_plain (p : Path) (parts : List Part) (h : ∀ part ∈ parts, part.Shows (shown part)) (piece : Piece)
    (s : State) : (w.writePiece p parts s piece).plain =
      s.plain ++ piece.chunks (w.extras.within p.node) (parts.map fun part => (part.field, shown part)) := by
  have inside (f : Field) : ∀ part ∈ inField f parts, part.Shows (shown part) :=
    fun part member => h part (List.mem_filter.mp member).1
  have labelled (f : Field) :
      under f (parts.map fun part => (part.field, shown part)) = (inField f parts).map shown := by
    simp [under, inField, List.filter_map, Function.comp_def]
  cases piece with
  | token text =>
    simp only [Writer.writePiece, Piece.chunks]
    split <;> simp
  | glued text => exact put_plain s rfl
  | child f =>
    rw [Piece.chunks, labelled, ← List.flatMap_def]
    exact foldl_plain _ s fun part member s => inside f part member s
  | list f separator =>
    rw [Piece.chunks, labelled]
    exact writeList_plain p separator _ s (inside f)
  | each f terminator =>
    rw [Piece.chunks, labelled, List.flatMap_map]
    refine foldl_plain _ s fun part member s => ?_
    rw [append_own, inside f part member s, List.append_assoc]
  | entriesEnd => simp [Writer.writePiece, Piece.chunks]
  | close text => simp [Writer.writePiece, Piece.chunks]
  | gap => simp [Writer.writePiece, State.plain, Piece.chunks]

theorem writeNode_plain (p : Path) (parts : List Part) (h : ∀ part ∈ parts, part.Shows (shown part)) (s : State) :
    (w.writeNode p parts s).plain =
      s.plain ++ p.plain w.extras (parts.map fun part => (part.field, shown part)) := by
  have body (s : State) := foldl_plain (pieces p) s fun piece _ s => writePiece_plain (w := w) p parts h piece s
  have within (c : Bool) (s : State) : (if c then s else w.writeExtras (w.extras.within p.node) s).plain =
      s.plain ++ if c then [] else (w.extras.within p.node).map .extra := by
    cases c <;> simp
  simp only [Writer.writeNode, writeExtras_plain, within, body, put_plain _ (rfl : Chunk.isAdded (.visit p) = false),
    lead_plain, Path.plain, List.append_assoc, List.cons_append, List.nil_append]

theorem parts_plain (above : List Node) (children : List (Field × Node)) :
    (w.parts above children).map (fun part => (part.field, part.node.plain w.extras above)) =
      Node.plainAll w.extras above children := by
  induction children with
  | nil => rfl
  | cons c rest ih => rw [Writer.parts, List.map_cons, ih, Node.plainAll]

mutual

/-- A writer puts down the plain chunks of a tree. -/
theorem visit_plain (above : List Node) : (n : Node) → (s : State) →
    (w.visit above n s).plain = s.plain ++ n.plain w.extras above
  | .mk id tag scalars children, s => by
    rw [Node.plain, ← parts_plain]
    exact writeNode_plain _ _ (parts_show (.mk id tag scalars children :: above) children) s

theorem parts_show (above : List Node) : (children : List (Field × Node)) →
    ∀ part ∈ w.parts above children, part.Shows (part.node.plain w.extras above)
  | [] => by simp [Writer.parts]
  | (f, n) :: rest => by
    intro part member
    rcases List.mem_cons.mp member with rfl | member
    · exact visit_plain above n
    · exact parts_show above rest part member

end

theorem chunks_plain (root : Node) : (w.chunks root).filter (!·.isAdded) = root.plain w.extras [] := by
  have whole := visit_plain (w := w) [] root {}
  simpa [State.plain, Writer.chunks] using whole

/-- A view that shows nothing of separators is one of the plain chunks. -/
theorem filterMap_plain {β : Type} {view : Chunk → Option β} (hidden : ∀ text, view (.added text) = none)
    (root : Node) : (w.chunks root).filterMap view = (root.plain w.extras []).filterMap view := by
  rw [← chunks_plain, List.filterMap_filter]
  refine List.filterMap_congr fun c _ => ?_
  cases c with
  | added text => simp [hidden, Chunk.isAdded]
  | _ => rfl

end Writer

end KotlinSyntax
