import Mathlib.Data.List.Chain
import KotlinSyntax.Proofs.Lexing

/-! Tokens against the units of the source. The tokens of a text stand side by side from its start, each over the
units of its own text. They go on to the end of the text, or to the offset of the error that stopped the lexer. -/
namespace KotlinSyntax

namespace Text

/-- The units of a character: itself, or the two halves of a pair. -/
def charUnits (c : Char) : List Nat :=
  if isSingle c then [c.toNat]
  else [0xD800 + (c.toNat - 0x10000) / 0x400, 0xDC00 + (c.toNat - 0x10000) % 0x400]

def units (s : String) : List Nat := s.toList.flatMap charUnits

theorem length_charUnits (c : Char) : (charUnits c).length = unitsOf c := by
  unfold charUnits unitsOf
  split <;> rfl

theorem length_flatMap_charUnits (cs : List Char) : (cs.flatMap charUnits).length = width cs := by
  induction cs with
  | nil => rfl
  | cons c cs ih => rw [List.flatMap_cons, List.length_append, length_charUnits, ih, width_cons]

theorem units_ofList (cs : List Char) : units (String.ofList cs) = cs.flatMap charUnits := by
  rw [units, String.toList_ofList]

end Text

open Text

/-- Tokens side by side between two offsets, none of them empty, and each as wide as its text. -/
inductive Spans : Nat → List Token → Nat → Prop
  | nil (offset : Nat) : Spans offset [] offset
  | cons (t : Token) {ts : List Token} {stop : Nat} (filled : t.text ≠ "")
      (wide : t.stop = t.start + (units t.text).length) (tail : Spans t.stop ts stop) :
      Spans t.start (t :: ts) stop

namespace Spans

variable {start stop : Nat} {ts : List Token}

theorem head (h : Spans start ts stop) : ∀ t ∈ ts.head?, t.start = start := by
  cases h with
  | nil => simp
  | cons t filled wide tail => simp

theorem chain (h : Spans start ts stop) : ts.IsChain fun t u => t.stop = u.start := by
  induction h with
  | nil => exact List.isChain_nil
  | cons t filled wide tail ih =>
    refine List.isChain_cons.mpr ⟨?_, ih⟩
    intro u next
    exact (tail.head u next).symm

theorem last (h : Spans start ts stop) : (ts.getLast?.map (·.stop)).getD start = stop := by
  induction h with
  | nil => rfl
  | @cons t ts stop filled wide tail ih =>
    rw [← ih]
    cases ts with
    | nil => rfl
    | cons u us =>
      rw [List.getLast?_cons_cons]
      cases found : (u :: us).getLast? with
      | none => simp at found
      | some v => rfl

/-- The units of all texts fill the space between the offsets. -/
theorem length (h : Spans start ts stop) : start + (ts.flatMap (units ·.text)).length = stop := by
  induction h with
  | nil => rfl
  | cons t filled wide tail ih => rw [List.flatMap_cons, List.length_append, ← ih, wide, Nat.add_assoc]

theorem filled (h : Spans start ts stop) : ∀ t ∈ ts, t.text ≠ "" ∧ t.stop = t.start + (units t.text).length := by
  induction h with
  | nil => simp
  | cons t filled wide tail ih =>
    intro u member
    rcases List.mem_cons.mp member with rfl | member
    · exact ⟨filled, wide⟩
    · exact ih u member

/-- Each text is what stands in its span, whatever comes before and after all of them. -/
theorem slice (h : Spans start ts stop) (before after : List Nat) (placed : before.length = start) :
    ∀ t ∈ ts, (before ++ ts.flatMap (units ·.text) ++ after).extract t.start t.stop = units t.text := by
  induction h generalizing before with
  | nil => simp
  | @cons t ts stop filled wide tail ih =>
    intro u member
    rcases List.mem_cons.mp member with rfl | member
    · rw [List.flatMap_cons, List.extract_eq_take_drop, wide, ← placed]
      simp [List.append_assoc]
    · have moved : (before ++ units t.text).length = t.stop := by rw [List.length_append, placed, wide]
      have found := ih (before ++ units t.text) moved u member
      rw [List.append_assoc before] at found
      rw [List.flatMap_cons]
      exact found

end Spans

namespace Lexer

/-- The tokens of a text stand side by side, and what is behind them is nothing or where the error is. -/
theorem scan_spans (modes : List Mode) (offset : Nat) (cs : List Char) :
    ∃ stop rest, Spans offset (scan modes offset cs).tokens stop ∧
      (scan modes offset cs).tokens.flatMap (units ·.text) ++ rest = cs.flatMap charUnits ∧
      match (scan modes offset cs).failure with
      | none => rest = []
      | some e => e.offset = stop := by
  induction modes, offset, cs using scan.induct with
  | case1 modes offset =>
    refine ⟨offset, [], ?_⟩
    rw [scan]
    split <;> exact ⟨.nil offset, rfl, by simp_all⟩
  | case2 modes offset c cs cause failed =>
    refine ⟨offset, (c :: cs).flatMap charUnits, ?_⟩
    rw [scan, failed]
    exact ⟨.nil offset, rfl, rfl⟩
  | case3 modes offset c cs s read text stop ih =>
    obtain ⟨last, rest, spans, texts, ended⟩ := ih
    refine ⟨last, rest, ?_⟩
    have whole : c :: cs = text ++ s.cut.rest := by
      rw [List.cons_append, s.cut.whole]
    have filled : String.ofList text ≠ "" := by
      simp [text]
    have wide : stop = offset + (units (String.ofList text)).length := by
      rw [units_ofList, length_flatMap_charUnits]
    rw [scan, read]
    refine ⟨.cons ⟨s.kind, offset, stop, String.ofList text⟩ filled wide spans, ?_, ended⟩
    rw [List.flatMap_cons, List.append_assoc, texts, whole, List.flatMap_append, units_ofList]

theorem lex_spans (source : String) :
    ∃ stop rest, Spans 0 (lex source).tokens stop ∧ (lex source).tokens.flatMap (units ·.text) ++ rest = units source ∧
      match (lex source).failure with
      | none => rest = []
      | some e => e.offset = stop :=
  scan_spans [] 0 source.toList

/-- The tokens of a source tile it from its start: none is empty, each begins where the one before it ends, and its
text is the slice of its span. They reach the end of the source if there is no error, and else the offset of the
error, so that they join to what stands in front of it. -/
theorem tokens_tile_units (source : String) :
    let tokens := (lex source).tokens
    let stop := (tokens.getLast?.map (·.stop)).getD 0
    (∀ t ∈ tokens, t.text ≠ "" ∧ t.stop = t.start + (units t.text).length ∧
      (units source).extract t.start t.stop = units t.text) ∧
    (∀ t ∈ tokens.head?, t.start = 0) ∧ tokens.IsChain (fun t u => t.stop = u.start) ∧
    match tokenize source with
    | .ok all => all = tokens ∧ stop = (units source).length
    | .error e => stop = e.offset ∧ tokens.flatMap (units ·.text) = (units source).take e.offset := by
  obtain ⟨stop, rest, spans, texts, ended⟩ := lex_spans source
  have slices := spans.slice [] rest rfl
  have length := spans.length
  rw [Nat.zero_add] at length
  rw [List.nil_append, texts] at slices
  refine ⟨fun t member => ?_, spans.head, spans.chain, ?_⟩
  · obtain ⟨filled, wide⟩ := spans.filled t member
    exact ⟨filled, wide, slices t member⟩
  · rw [spans.last, tokenize]
    cases found : (lex source).failure with
    | none =>
      rw [found] at ended
      subst ended
      rw [List.append_nil] at texts
      exact ⟨rfl, by rw [← texts, length]⟩
    | some e =>
      rw [found] at ended
      refine ⟨ended.symm, ?_⟩
      rw [← texts, ended, ← length, List.take_left]

end Lexer

end KotlinSyntax
