import KotlinSyntax.Proofs.Lexing.Lines
import KotlinSyntax.Proofs.Placement
import KotlinSyntax.Proofs.Spans

/-! Comments and the lines they stand on. Placing decides from the leaves next to a comment whether it starts and ends
a line. The source shows the same: nothing but blanks stands between the comment and the line feed before it or after
it. -/
namespace KotlinSyntax

open Text

/-! Leaves stand where their tokens do. -/

namespace Spans

variable {start mid stop : Nat} {t : Token} {ts us : List Token}

theorem uncons (h : Spans start (t :: ts) stop) :
    t.start = start ∧ t.stop = start + (units t.text).length ∧ Spans t.stop ts stop := by
  cases h with
  | cons _ filled wide tail => exact ⟨rfl, wide, tail⟩

theorem split (h : Spans start (ts ++ us) stop) : ∃ mid, Spans start ts mid ∧ Spans mid us stop := by
  induction ts generalizing start with
  | nil => exact ⟨start, .nil start, h⟩
  | cons t ts ih =>
    cases h with
    | cons t filled wide tail =>
      obtain ⟨mid, front, back⟩ := ih tail
      exact ⟨mid, .cons t filled wide front, back⟩

theorem units_join (ts : List Token) : units (String.join (ts.map (·.text))) = ts.flatMap (units ·.text) := by
  induction ts with
  | nil => rfl
  | cons t ts ih =>
    rw [List.map_cons, String.join_cons, units, String.toList_append, List.flatMap_append, List.flatMap_cons, ← ih]
    rfl

/-- Tokens that are glued are one token over the same place. -/
theorem glue {op : Token} (h : Spans start ts stop) (joined : Token.glue? ts = some op) :
    op.start = start ∧ op.stop = stop ∧ op.text ≠ "" ∧ op.stop = op.start + (units op.text).length := by
  unfold Token.glue? at joined
  split at joined
  · rename_i first last begins ends
    cases joined
    have starts : first.start = start := h.head first (by rw [begins]; rfl)
    have stops := h.last
    rw [ends] at stops
    refine ⟨starts, stops, ?_, ?_⟩
    · cases ts with
      | nil => cases begins
      | cons t ts =>
        intro empty
        rw [List.map_cons, String.join_cons, String.append_eq_empty_iff] at empty
        exact (h.filled t (List.mem_cons_self ..)).1 empty.1
    · rw [units_join, starts, h.length]
      exact stops
  · cases joined

end Spans

namespace Tiles

variable {ls : List Leaf} {ts : List Token}

theorem spans (h : Tiles ls ts) {start stop : Nat} (spans : Spans start ts stop) :
    Spans start (ls.map (·.token)) stop := by
  induction h generalizing start with
  | nil => exact spans
  | token t trivia tail ih =>
    cases spans with
    | cons t filled wide rest => exact .cons t filled wide (ih rest)
  | glued parts op several words joined tail ih =>
    obtain ⟨mid, front, back⟩ := spans.split
    obtain ⟨rfl, rfl, filled, wide⟩ := front.glue joined
    exact .cons op filled wide (ih back)

/-- A glued operator is no text of a string, no blank and no comment. -/
theorem meets (h : Tiles ls ts) (chain : (ts.map (·.kind)).IsChain TokenKind.Meets) :
    (ls.map (·.token.kind)).IsChain TokenKind.Meets := by
  induction h with
  | nil => exact chain
  | @token t trivia ls ts tail ih =>
    rw [List.map_cons, List.isChain_cons] at chain ⊢
    refine ⟨?_, ih chain.2⟩
    cases tail with
    | nil => simp
    | token u trivia tail => exact chain.1
    | glued parts op several words joined tail =>
      rintro _ ⟨⟩
      simp [(glue_text joined).2, TokenKind.Meets, TokenKind.isGap]
  | @glued parts op several words joined ls ts tail ih =>
    rw [List.map_append] at chain
    rw [List.map_cons, List.isChain_cons]
    refine ⟨fun k _ => ?_, ih chain.right_of_append⟩
    simp [(glue_text joined).2, TokenKind.Meets, TokenKind.isGap]

theorem shows_word {t : Token} (word : t.isWord = true) (h : Lexer.Shows t.kind t.text.toList) :
    Shown t.text.toList := by
  unfold Token.isWord at word
  cases kind : t.kind <;> simp [kind] at word <;> (rw [kind] at h; exact h)

theorem shown_join {parts : List Token} (some : parts ≠ []) (each : ∀ t ∈ parts, Shown t.text.toList) :
    Shown (String.join (parts.map (·.text))).toList := by
  induction parts with
  | nil => exact absurd rfl some
  | cons t ts ih =>
    rw [List.map_cons, String.join_cons, String.toList_append]
    have first := each t (List.mem_cons_self ..)
    cases ts with
    | nil => simpa using first
    | cons u us => exact first.append (ih (by simp) fun v member => each v (List.mem_cons_of_mem t member))

theorem shows (h : Tiles ls ts) (each : ∀ t ∈ ts, Lexer.Shows t.kind t.text.toList) :
    ∀ l ∈ ls, Lexer.Shows l.token.kind l.token.text.toList := by
  induction h with
  | nil => simp
  | token t trivia tail ih =>
    intro l member
    rcases List.mem_cons.mp member with rfl | member
    · exact each t (List.mem_cons_self ..)
    · exact ih (fun u inside => each u (List.mem_cons_of_mem t inside)) l member
  | glued parts op several words joined tail ih =>
    intro l member
    rcases List.mem_cons.mp member with rfl | member
    · obtain ⟨text, kind⟩ := glue_text joined
      have shown : Shown op.text.toList := by
        rw [text]
        refine shown_join (by rintro rfl; cases several) fun t inside => ?_
        exact shows_word (words t inside) (each t (List.mem_append_left _ inside))
      simp only [kind]
      exact shown
    · exact ih (fun u inside => each u (List.mem_append_right parts inside)) l member

end Tiles

namespace Placement

def charsOf (ls : List Leaf) : List Char := ls.flatMap (·.token.text.toList)

@[simp] theorem charsOf_nil : charsOf [] = [] := rfl

@[simp] theorem charsOf_cons (l : Leaf) (ls : List Leaf) : charsOf (l :: ls) = l.token.text.toList ++ charsOf ls := rfl

/-- Leaves that stand on lines as tokens do. -/
structure Lined (ls : List Leaf) : Prop where
  shows : ∀ l ∈ ls, Lexer.Shows l.token.kind l.token.text.toList
  meets : (ls.map (·.token.kind)).IsChain TokenKind.Meets

variable {l : Leaf} {ls : List Leaf}

namespace Lined

theorem tail (h : Lined (l :: ls)) : Lined ls where
  shows m member := h.shows m (List.mem_cons_of_mem l member)
  meets := by
    have meets := h.meets
    rw [List.map_cons, List.isChain_cons] at meets
    exact meets.2

theorem next (h : Lined (l :: ls)) : ∀ m ∈ ls.head?, l.token.kind.Meets m.token.kind := by
  intro m next
  have meets := h.meets
  rw [List.map_cons, List.isChain_cons] at meets
  exact meets.1 _ (by rw [List.head?_map, Option.mem_def.mp next]; rfl)

/-- Behind a blank or a comment comes no text of a string. -/
theorem noText (h : Lined (l :: ls)) (gap : l.token.kind.isGap = true) :
    ∀ m ∈ ls.head?, m.token.kind ≠ .stringText :=
  fun m next text => (h.next m next).2 ⟨gap, text⟩

end Lined

inductive Stands (l : Leaf) : Prop
  | inline (gap : l.token.kind.isGap = true) (is : isInline l = true)
      (blank : l.token.text.toList.all isLayout = true) (same : '\n' ∉ l.token.text.toList)
  | lineBreak (gap : l.token.kind.isGap = true) (isn't : isInline l = false) (is : isLineBreak l = true)
      (blank : l.token.text.toList.all isLayout = true) (feed : '\n' ∈ l.token.text.toList)
  | shown (isn't : isInline l = false) (noBreak : isLineBreak l = false) (shown : Shown l.token.text.toList)

theorem stands_of_shows (shows : Lexer.Shows l.token.kind l.token.text.toList) (noText : l.token.kind ≠ .stringText) :
    Stands l := by
  by_cases white : l.token.kind = .whitespace
  · have blank : l.token.text.toList.all isLayout = true := by
      rw [white] at shows
      exact shows
    have gap : l.token.kind.isGap = true := by rw [white]; rfl
    by_cases feed : '\n' ∈ l.token.text.toList
    · exact .lineBreak gap (by simp [isInline, hasLineFeed, feed]) (by simp [isLineBreak, hasLineFeed, white, feed])
        blank feed
    · exact .inline gap (by simp [isInline, hasLineFeed, white, feed]) blank feed
  · have shown : Shown l.token.text.toList := by
      cases kind : l.token.kind <;> simp only [kind] at shows <;> first | exact shows | contradiction
    exact .shown (by simp [isInline, white]) (by simp [isLineBreak, white]) shown

/-- What the leaves say of the end of the line is what their characters show. -/
theorem lineEnds_eq (lined : Lined ls) (noText : ∀ l ∈ ls.head?, l.token.kind ≠ .stringText) :
    lineEnds ls = blankStart (charsOf ls) := by
  induction ls with
  | nil => rfl
  | cons l ls ih =>
    rw [lineEnds, charsOf_cons]
    cases stands_of_shows (lined.shows l (List.mem_cons_self ..)) (noText l rfl) with
    | inline gap is blank same =>
      rw [if_pos is, blankStart_inline blank same]
      exact ih lined.tail (lined.noText gap)
    | lineBreak gap isn't is blank feed => rw [if_neg (by simp [isn't]), is, blankStart_lineEnd blank feed]
    | shown isn't noBreak shown => rw [if_neg (by simp [isn't]), noBreak, blankStart_append shown.first]

/-- The extra stands for the leaf, and the flags of a comment say what the source shows: whether nothing but blanks
stands before it on its line, and whether nothing but blanks stands after it or it ends the line itself. -/
def Describes (source : List Char) (l : Leaf) (x : Extra) : Prop :=
  Becomes l x ∧ ∀ text starts ends, x = .comment text starts ends →
    ∃ before after, before ++ text.toList ++ after = source ∧ width before = l.token.start ∧
      width (before ++ text.toList) = l.token.stop ∧ (starts = true ↔ blankEnd before = true) ∧
      (ends = true ↔ l.token.kind = .lineComment ∨ blankStart after = true)

variable {before : List Char} {fresh : Bool}

/-- A leaf that knows whether nothing but blanks stands before it on its line becomes what describes it. -/
theorem extraFor_describes (spelled : Spelled l) (lined : Lined (l :: ls)) (start : l.token.start = width before)
    (stop : l.token.stop = width (before ++ l.token.text.toList))
    (knows : l.token.kind.isGap = true → fresh = blankEnd before) :
    Offers (Describes (before ++ charsOf (l :: ls))) l (extraFor l fresh (lineEnds ls)) := by
  intro x made
  have becomes := becomes_of_extraFor spelled made
  refine ⟨becomes, ?_⟩
  rintro text starts ends rfl
  cases becomes with
  | comment kind =>
    have gap : l.token.kind.isGap = true := by rcases kind with kind | kind <;> rw [kind] <;> rfl
    have ended : lineEnds ls = blankStart (charsOf ls) := lineEnds_eq lined.tail (lined.noText gap)
    refine ⟨before, charsOf ls, by rw [charsOf_cons, List.append_assoc], start.symm, stop.symm, ?_⟩
    rw [← knows gap, ← ended]
    rcases kind with kind | kind <;>
    · simp only [extraFor, kind, Except.ok.injEq, Extra.comment.injEq, true_and] at made
      obtain ⟨rfl, rfl⟩ := made
      simp [kind]

/-- Behind such a leaf the next one knows as well. -/
theorem startsLine_knows (lined : Lined (l :: ls)) (knows : l.token.kind.isGap = true → fresh = blankEnd before) :
    ∀ m ∈ ls.head?, m.token.kind.isGap = true →
      (if isInline l then fresh else isLineBreak l) = blankEnd (before ++ l.token.text.toList) := by
  intro m next gap
  have noText : l.token.kind ≠ .stringText := fun text => (lined.next m next).1 ⟨text, gap⟩
  cases stands_of_shows (lined.shows l (List.mem_cons_self ..)) noText with
  | inline own is blank same => rw [if_pos is, blankEnd_inline blank same, knows own]
  | lineBreak own isn't is blank feed => rw [if_neg (by simp [isn't]), is, blankEnd_lineEnd blank feed]
  | shown isn't noBreak shown => rw [if_neg (by simp [isn't]), noBreak, blankEnd_append before shown.last]

/-- What each leaf would become describes it. The first of the leaves, if it is a blank or a comment, knows whether
nothing but blanks stands before it on its line. -/
theorem extrasFor_describe {stop : Nat} (spelled : ∀ l ∈ ls, Spelled l) (lined : Lined ls)
    (spans : Spans (width before) (ls.map (·.token)) stop)
    (knows : ∀ l ∈ ls.head?, l.token.kind.isGap = true → fresh = blankEnd before) :
    List.Forall₂ (Offers (Describes (before ++ charsOf ls))) ls
      (((ls.zip (startsLine fresh ls)).zip (endsLine ls)).map fun ((l, starts), ends) => extraFor l starts ends) := by
  induction ls generalizing before fresh with
  | nil => exact .nil
  | cons l ls ih =>
    simp only [startsLine, endsLine, List.zip_cons_cons, List.map_cons]
    rw [List.map_cons] at spans
    obtain ⟨start, wide, tail⟩ := spans.uncons
    have stop : l.token.stop = width (before ++ l.token.text.toList) := by
      rw [wide, units, length_flatMap_charUnits, width_append]
    refine .cons (extraFor_describes (spelled l (List.mem_cons_self ..)) lined start stop (knows l rfl)) ?_
    rw [stop] at tail
    have others := ih (fun m member => spelled m (List.mem_cons_of_mem l member)) lined.tail tail
      (startsLine_knows lined (knows l rfl))
    rw [charsOf_cons, ← List.append_assoc]
    exact others

theorem charsOf_toList (ls : List Leaf) : charsOf ls = (String.join (ls.map (·.token.text))).toList := by
  induction ls with
  | nil => rfl
  | cons l ls ih => rw [charsOf_cons, List.map_cons, String.join_cons, String.toList_append, ih]

end Placement

namespace Source

open Placement

variable {form : Form} {root : RawElement} {tree : Tree}

/-- What each leaf of a source would become describes it. -/
theorem raw_describes {fileName : Option String} {source : String} (h : (raw form fileName source).result = .ok root) :
    List.Forall₂ (Offers (Describes source.toList)) root.leaves (extrasFor root.leaves) := by
  obtain ⟨tokens, lexed, tiles, -⟩ := raw_tiles h
  obtain ⟨stop, rest, spans, -⟩ := Lexer.lex_spans source
  have same : (Lexer.lex source).tokens = tokens := by
    unfold Lexer.tokenize at lexed
    split at lexed <;> cases lexed
    rfl
  rw [same] at spans
  have lined : Lined root.leaves :=
    ⟨tiles.shows (Lexer.tokenize_shows lexed), tiles.meets (Lexer.tokenize_meets lexed)⟩
  have placed : Spans (width []) (root.leaves.map (·.token)) stop := tiles.spans spans
  have whole : charsOf root.leaves = source.toList := by
    rw [charsOf_toList, tiles.text, Lexer.tokenize_text lexed]
  have describes := extrasFor_describe (raw_spelled h) lined placed fun _ _ _ => rfl
  rwa [List.nil_append, whole] at describes

/-- The flags of comments describe the source. Each comment of a source with a tree is kept as one extra that says
whether nothing but blanks stands between the last line feed before it, or the start of the source, and the comment,
and whether it ends its line itself or nothing but blanks stands between it and the next line feed, or the end. -/
theorem comment_flags_describe_lines (form : Form) (fileName : Option String) (source : String) (tree : Tree)
    (h : (parse form { extras := true, fileName } source).result = .ok tree) :
    ∃ root, (raw form fileName source).result = .ok root ∧
      ∃ xs : List Placing, xs.map (·.leaf) = root.leaves.filter (·.trivia) ∧
        (∀ x ∈ xs, Describes source.toList x.leaf x.extra) ∧ ∀ id p, tree.extras.held id p = placedAt xs id p := by
  obtain ⟨root, read, converted⟩ := parse_full_ok h
  obtain ⟨-, xs, leaves, describes, -, adds⟩ := convertFull_deals (raw_readable read) (raw_describes read) converted
  refine ⟨root, read, xs, leaves, describes, fun id p => ?_⟩
  rw [adds.held]
  cases p <;> rfl

/-- Comments in a template of a string over several lines: the first one has the opening of the template before it
on its line, and the second one has only a blank. -/
theorem comment_flags_describe_template : ∃ tree,
    (parse .file {} "val a = \"\"\"\n$\x7b // c\n /*d*/ b \x7d\"\"\"").result = .ok tree ∧
      tree.extras.held 5 .before = [.whitespace " ", .comment "// c" false true, .whitespace "\n ",
        .comment "/*d*/" true false, .whitespace " "] ∧
      ∃ xs : List Placing, xs.map (·.leaf.token.text) = [" ", " ", " ", " ", "// c", "\n ", "/*d*/", " ", " "] ∧
        (∀ x ∈ xs, Describes "val a = \"\"\"\n$\x7b // c\n /*d*/ b \x7d\"\"\"".toList x.leaf x.extra) ∧
        ∀ id p, tree.extras.held id p = placedAt xs id p := by
  have parsed : (parse .file {} "val a = \"\"\"\n$\x7b // c\n /*d*/ b \x7d\"\"\"").result.toOption.map
      (·.extras.held 5 .before) = some [.whitespace " ", .comment "// c" false true, .whitespace "\n ",
        .comment "/*d*/" true false, .whitespace " "] := by decide +kernel
  have trivia : (raw .file none "val a = \"\"\"\n$\x7b // c\n /*d*/ b \x7d\"\"\"").result.toOption.map
      (fun root => (root.leaves.filter (·.trivia)).map (·.token.text)) =
        some [" ", " ", " ", " ", "// c", "\n ", "/*d*/", " ", " "] := by decide +kernel
  cases found : (parse .file {} "val a = \"\"\"\n$\x7b // c\n /*d*/ b \x7d\"\"\"").result with
  | error e =>
    rw [found] at parsed
    cases parsed
  | ok tree =>
    rw [found] at parsed
    obtain ⟨root, read, xs, leaves, describes, held⟩ := comment_flags_describe_lines .file none
      "val a = \"\"\"\n$\x7b // c\n /*d*/ b \x7d\"\"\"" tree found
    rw [read] at trivia
    have texts : (root.leaves.filter (·.trivia)).map (·.token.text) = _ := Option.some.inj trivia
    refine ⟨tree, rfl, Option.some.inj parsed, xs, ?_, describes, held⟩
    rw [← texts, ← leaves, List.map_map]
    rfl

end Source

end KotlinSyntax
