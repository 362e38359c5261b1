import KotlinSyntax.Proofs.Words
import KotlinSyntax.Writer

/-! What a writer puts down. Whatever its criteria ask for, the texts that stand for nodes are the words of
the tree in their order, and all else is an extra or one of three separators. -/
namespace KotlinSyntax

namespace Writer

def isSeparator (text : String) : Bool := text == " " || text == "\n" || text == ";"

/-- Chunks that hold the words in order, with extras of some sort and separators between them. -/
inductive Written (P : Extra → Prop) : List Chunk → List String → Prop
  | nil : Written P [] []
  | visit (p : Path) {cs : List Chunk} {ws : List String} (tail : Written P cs ws) :
      Written P (.visit p :: cs) ws
  | own (texts : List String) {cs : List Chunk} {ws : List String} (tail : Written P cs ws) :
      Written P (.own (String.join texts) :: cs) (texts ++ ws)
  | extra (e : Extra) (sort : P e) {cs : List Chunk} {ws : List String} (tail : Written P cs ws) :
      Written P (.extra e :: cs) ws
  | added (text : String) (separator : isSeparator text = true) {cs : List Chunk} {ws : List String}
      (tail : Written P cs ws) : Written P (.added text :: cs) ws
  /-- An empty word needs no chunk. -/
  | empty {cs : List Chunk} {ws : List String} (tail : Written P cs ws) : Written P cs ("" :: ws)

variable {P : Extra → Prop} {cs ds : List Chunk} {ws vs : List String}

theorem Written.append (h : Written P cs ws) (k : Written P ds vs) : Written P (cs ++ ds) (ws ++ vs) := by
  induction h with
  | nil => exact k
  | visit p tail ih => exact .visit p ih
  | own texts tail ih =>
    rw [List.append_assoc]
    exact .own texts ih
  | extra e sort tail ih => exact .extra e sort ih
  | added text separator tail ih => exact .added text separator ih
  | empty tail ih => exact .empty ih

def Puts (P : Extra → Prop) (s : State) (ws : List String) (s' : State) : Prop :=
  ∃ new, s'.chunks = new.reverse ++ s.chunks ∧ Written P new ws

namespace Puts

variable {s s₁ s₂ : State}

theorem refl (s : State) : Puts P s [] s := ⟨[], rfl, .nil⟩

theorem trans (h : Puts P s ws s₁) (k : Puts P s₁ vs s₂) : Puts P s (ws ++ vs) s₂ := by
  obtain ⟨new, chunks, written⟩ := h
  obtain ⟨more, chunks', written'⟩ := k
  refine ⟨new ++ more, ?_, written.append written'⟩
  rw [chunks', chunks, List.reverse_append, List.append_assoc]

/-- What else a state holds does not matter. -/
theorem congr {s' : State} (h : Puts P s ws s₁) (same : s'.chunks = s₁.chunks) : Puts P s ws s' := by
  obtain ⟨new, chunks, written⟩ := h
  exact ⟨new, same.trans chunks, written⟩

theorem ite {c : Prop} [Decidable c] (yes : Puts P s ws s₁) (no : Puts P s ws s₂) :
    Puts P s ws (if c then s₁ else s₂) := by
  split
  · exact yes
  · exact no

theorem put {c : Chunk} (s : State) (h : Written P [c] ws) : Puts P s ws (s.put c) := ⟨[c], rfl, h⟩

theorem foldl {α : Type} {step : State → α → State} {words : α → List String} (xs : List α) (s : State)
    (each : ∀ s, ∀ x ∈ xs, Puts P s (words x) (step s x)) : Puts P s (xs.flatMap words) (xs.foldl step s) := by
  induction xs generalizing s with
  | nil => exact refl s
  | cons x xs ih =>
    rw [List.flatMap_cons, List.foldl_cons]
    refine (each s x (List.mem_cons_self ..)).trans (ih (step s x) ?_)
    exact fun s y member => each s y (List.mem_cons_of_mem x member)

end Puts

variable {w : Writer}

theorem append_puts {c : Chunk} (s : State) (h : Written P [c] ws) : Puts P s ws (w.append c s) := by
  unfold Writer.append
  split
  · exact (Puts.put s (.added " " rfl .nil)).trans (Puts.put _ h)
  · exact Puts.put s h

theorem own_written (texts : List String) : Written P [.own (String.join texts)] texts := by
  have written : Written P [.own (String.join texts)] (texts ++ []) := .own texts .nil
  rwa [List.append_nil] at written

theorem own_puts (s : State) (text : String) : Puts P s [text] (w.append (.own text) s) :=
  append_puts s (own_written [text])

def Sorted (w : Writer) (P : Extra → Prop) : Prop :=
  ∀ n, ∀ e ∈ w.extras.before n ++ w.extras.within n ++ w.extras.after n, P e

theorem Sorted.before (h : w.Sorted P) (n : Node) : ∀ e ∈ w.extras.before n, P e :=
  fun e member => h n e (by simp [member])

theorem Sorted.within (h : w.Sorted P) (n : Node) : ∀ e ∈ w.extras.within n, P e :=
  fun e member => h n e (by simp [member])

theorem Sorted.after (h : w.Sorted P) (n : Node) : ∀ e ∈ w.extras.after n, P e :=
  fun e member => h n e (by simp [member])

theorem writeExtras_puts (s : State) {es : List Extra} (h : ∀ e ∈ es, P e) :
    Puts P s [] (w.writeExtras es s) := by
  have folded : Puts P s (es.flatMap fun _ => []) (es.foldl (fun s e => w.append (.extra e) s) s) :=
    .foldl es s fun s e member => append_puts s (.extra e (h e member) .nil)
  have none : (es.flatMap fun _ => ([] : List String)) = [] := by simp
  rw [none] at folded
  exact folded.congr rfl

theorem lead_puts (p : Path) (s : State) : Puts P s [] (w.lead p s) := by
  have line : Puts P s [] (if w.criteria.newline.any (· p) && !s.isSeparated then w.append (.added "\n") s else s) :=
    .ite (append_puts s (.added "\n" rfl .nil)) (.refl s)
  generalize led : (if w.criteria.newline.any (· p) && !s.isSeparated then w.append (.added "\n") s else s) = s₁ at line
  have blank : Puts P s₁ [] (if s₁.gap && s₁.recent.isEmpty then w.append (.added " ") s₁ else s₁) :=
    .ite (append_puts s₁ (.added " " rfl .nil)) (.refl s₁)
  refine (line.trans blank).congr ?_
  rw [← led]
  rfl

theorem semicolon_puts (s : State) : Puts P s [] (w.semicolon s) :=
  .ite (.refl s) (append_puts s (.added ";" rfl .nil))

def Part.Spells (P : Extra → Prop) (part : Part) : Prop := ∀ s, Puts P s part.node.words (part.write s)

theorem writeList_puts (p : Path) (separator : String) (parts : List Part) (s : State)
    (h : ∀ part ∈ parts, part.Spells P) :
    Puts P s (joinWords separator (parts.map (·.node.words))) (w.writeList p separator parts s) := by
  induction parts generalizing s with
  | nil => exact .refl s
  | cons part rest ih =>
    have first := h part (List.mem_cons_self ..) s
    have between : Puts P (part.write s) (if rest.isEmpty || separator.isEmpty then [] else [separator])
        (if rest.isEmpty || separator.isEmpty then part.write s else w.append (.own separator) (part.write s)) := by
      split
      · exact .refl _
      · exact own_puts _ separator
    have spelled : joinWords separator ((part :: rest).map (·.node.words)) = part.node.words ++
        ((if rest.isEmpty || separator.isEmpty then [] else [separator]) ++
          ([] ++ joinWords separator (rest.map (·.node.words)))) := by
      cases rest with
      | nil => simp [joinWords]
      | cons next rest => simp [joinWords]
    rw [spelled, writeList]
    refine first.trans (between.trans (.trans ?_ (ih _ fun part member => h part (List.mem_cons_of_mem _ member))))
    exact .ite (semicolon_puts _) (.refl _)

theorem joined_tokenWords (k : Kind) (text : String) : String.join (tokenWords k text) = text := by
  unfold tokenWords
  split
  · rfl
  · simp [String.join]

theorem tokenWords_empty (k : Kind) : tokenWords k "" = [""] := by
  unfold tokenWords
  split
  · contradiction
  · rfl

def labels (parts : List Part) : List (Field × List String) := parts.map fun part => (part.field, part.node.words)

theorem under_labels (f : Field) (parts : List Part) :
    under f (labels parts) = (inField f parts).map (·.node.words) := by
  induction parts with
  | nil => rfl
  | cons part rest ih =>
    unfold under labels inField at *
    simp only [List.map_cons, List.filter_cons]
    split
    · simp only [List.map_cons, ih]
    · exact ih

theorem writePiece_puts (sorted : w.Sorted P) (p : Path) (k : Kind) (parts : List Part)
    (h : ∀ part ∈ parts, part.Spells P) (s : State) (piece : Piece) :
    Puts P s (piece.words k (labels parts)) (w.writePiece p parts s piece) := by
  have inside : ∀ f, ∀ part ∈ inField f parts, part.Spells P :=
    fun f part member => h part ((List.mem_filter.mp member).1)
  cases piece with
  | token text =>
    by_cases none : text = ""
    · subst none
      have skipped : Puts P s [""] s := ⟨[], rfl, .empty .nil⟩
      have words : Piece.words k (labels parts) (.token "") = [""] := tokenWords_empty k
      rw [words]
      exact skipped
    · have written := @own_written P (tokenWords k text)
      rw [joined_tokenWords] at written
      simp only [Writer.writePiece, String.isEmpty_iff, none, if_false]
      exact append_puts s written
  | glued text => exact .put s (own_written [text])
  | child f =>
    simp only [Writer.writePiece, Piece.words]
    rw [under_labels, ← List.flatMap_def]
    exact .foldl _ s fun s part member => inside f part member s
  | list f separator =>
    simp only [Writer.writePiece, Piece.words]
    rw [under_labels]
    exact writeList_puts p separator _ s (inside f)
  | each f terminator =>
    simp only [Writer.writePiece, Piece.words]
    rw [under_labels, List.flatMap_map]
    exact .foldl _ s fun s part member => (inside f part member s).trans (own_puts _ terminator)
  | entriesEnd => exact semicolon_puts s
  | close text =>
    have within := writeExtras_puts (w := w) s (sorted.within p.node)
    exact within.trans (own_puts _ text)
  | gap => exact .congr (.refl s) rfl

theorem labels_parts (above : List Node) (children : List (Field × Node)) :
    labels (w.parts above children) = Node.wordsAll children := by
  induction children with
  | nil => rfl
  | cons c rest ih =>
    rw [Node.wordsAll, ← ih]
    rfl

theorem pieces_puts (sorted : w.Sorted P) (p : Path) (parts : List Part) (h : ∀ part ∈ parts, part.Spells P)
    (s : State) : Puts P s (p.node.spell (labels parts)) ((pieces p).foldl (w.writePiece p parts) s) := by
  unfold Node.spell pieces
  cases p.node.kind? with
  | none => exact .refl s
  | some k =>
    simp only
    rw [← Node.words_layout p.parent?]
    exact .foldl _ s fun s piece _ => writePiece_puts sorted p k parts h s piece

theorem writeNode_puts (sorted : w.Sorted P) (p : Path) (parts : List Part) (h : ∀ part ∈ parts, part.Spells P)
    (s : State) : Puts P s (p.node.spell (labels parts)) (w.writeNode p parts s) := by
  have front := (writeExtras_puts (w := w) s (sorted.before p.node)).trans (lead_puts (w := w) p _)
  have begun := front.trans (Puts.put _ (.visit p .nil))
  have filled := begun.trans (pieces_puts sorted p parts h _)
  have closed := filled.trans (Puts.ite (c := (pieces p).any (·.isClose) = true) (.refl _)
    (writeExtras_puts (w := w) _ (sorted.within p.node)))
  have whole := closed.trans (writeExtras_puts (w := w) _ (sorted.after p.node))
  simp only [List.nil_append, List.append_nil] at whole
  exact whole

mutual

theorem visit_puts (sorted : w.Sorted P) (above : List Node) : (n : Node) → (s : State) →
    Puts P s n.words (w.visit above n s)
  | .mk id tag scalars children, s => by
    have parts := parts_spell sorted (.mk id tag scalars children :: above) children
    have labelled := labels_parts (w := w) (.mk id tag scalars children :: above) children
    rw [Node.words, ← labelled]
    exact writeNode_puts sorted ⟨.mk id tag scalars children, above⟩ _ parts s

theorem parts_spell (sorted : w.Sorted P) (above : List Node) : (children : List (Field × Node)) →
    ∀ part ∈ w.parts above children, part.Spells P
  | [] => by simp [Writer.parts]
  | (f, n) :: rest => by
    intro part member
    rcases List.mem_cons.mp member with rfl | member
    · exact visit_puts sorted above n
    · exact parts_spell sorted above rest part member

end

/-- The chunks of a tree hold its words. -/
theorem chunks_written (sorted : w.Sorted P) (n : Node) : Written P (w.chunks n) n.words := by
  obtain ⟨new, chunks, written⟩ := visit_puts sorted [] n {}
  have all : w.chunks n = new := by
    unfold Writer.chunks
    rw [chunks]
    simp
  rw [all]
  exact written

def isGap (text : String) : Bool := text.toList.all fun c => c == ' ' || c == '\n' || c == ';'

theorem isGap_append {s t : String} (h : isGap s = true) (k : isGap t = true) : isGap (s ++ t) = true := by
  unfold isGap at *
  rw [String.toList_append, List.all_append, h, k]
  rfl

theorem isGap_of_isSeparator {text : String} (h : isSeparator text = true) : isGap text = true := by
  simp only [isSeparator, Bool.or_eq_true, beq_iff_eq] at h
  rcases h with (rfl | rfl) | rfl <;> decide

/-- Words with gaps before, between and behind them. -/
inductive Woven : List String → String → Prop
  | nil (gap : String) (blank : isGap gap = true) : Woven [] gap
  | cons (gap : String) (blank : isGap gap = true) (word : String) {words : List String} {text : String}
      (tail : Woven words text) : Woven (word :: words) (gap ++ word ++ text)

namespace Woven

variable {words : List String} {text : String}

theorem gap {before : String} (h : Woven words text) (blank : isGap before = true) :
    Woven words (before ++ text) := by
  cases h with
  | nil gap blank' => exact .nil _ (isGap_append blank blank')
  | cons gap blank' word tail =>
    rw [← String.append_assoc, ← String.append_assoc]
    exact .cons _ (isGap_append blank blank') word tail

theorem texts (texts : List String) (h : Woven words text) : Woven (texts ++ words) (String.join texts ++ text) := by
  induction texts with
  | nil => simpa [String.join] using h
  | cons t ts ih =>
    rw [List.cons_append, String.join_cons, String.append_assoc]
    have woven := Woven.cons "" rfl t ih
    rwa [String.empty_append] at woven

end Woven

/-- Without extras only gaps stand between the words. -/
theorem Written.woven (h : Written (fun _ => False) cs ws) : Woven ws (String.join (cs.map (·.text))) := by
  induction h with
  | nil => exact .nil "" rfl
  | visit p tail ih =>
    rw [List.map_cons, String.join_cons]
    exact ih.gap rfl
  | own texts tail ih =>
    rw [List.map_cons, String.join_cons]
    exact ih.texts texts
  | extra e sort tail ih => exact sort.elim
  | added text separator tail ih =>
    rw [List.map_cons, String.join_cons]
    exact ih.gap (isGap_of_isSeparator separator)
  | empty tail ih =>
    have woven := Woven.cons "" rfl "" ih
    rwa [String.empty_append, String.empty_append] at woven

/-- The text of a tree alone holds its words, and only gaps between them. -/
theorem text_woven (n : Node) (criteria : Criteria) : Woven n.words ({ criteria := criteria : Writer }.text n) := by
  refine Written.woven (chunks_written ?_ n)
  intro m e member
  simp [ExtrasMap.before, ExtrasMap.within, ExtrasMap.after, ExtrasMap.get, ExtrasMap.get?] at member

end Writer

end KotlinSyntax
