import Mathlib.Data.List.Infix
import KotlinSyntax.Proofs.Lexing

/-! Raw strings. A raw string ends at the last three quotes of the first run of three or more. All quotes in front of
those three are text, and so are the runs of one or two quotes before. -/
namespace KotlinSyntax

namespace Lexer

open Text

def InCode (modes : List Mode) : Prop := modes = [] ∨ ∃ braces outer, modes = .template braces :: outer

def quotes (count : Nat) : List Char := List.replicate count '"'

/-- No template, no run of three quotes and no quote at the end. -/
structure IsBody (s : List Char) : Prop where
  noDollar : '$' ∉ s
  shortRuns : ¬ quotes 3 <:+: s
  noQuoteLast : s.getLast? ≠ some '"'

variable {modes outer : List Mode} {c : Char} {cs rest s text : List Char} {count : Nat}

theorem InCode.step (code : InCode modes) : step modes c cs = Lexer.code modes c cs := by
  rcases code with rfl | ⟨braces, outer, rfl⟩ <;> rfl

theorem quotes_succ (count : Nat) : quotes (count + 1) = '"' :: quotes count := rfl

theorem quotes_add_three (count : Nat) : quotes (count + 3) = quotes count ++ quotes 3 := List.replicate_add ..

namespace IsBody

theorem tail (body : IsBody (c :: cs)) : IsBody cs where
  noDollar member := body.noDollar (List.mem_cons_of_mem c member)
  shortRuns run := body.shortRuns (run.trans (List.suffix_cons c cs).isInfix)
  noQuoteLast last := by
    cases cs with
    | nil => cases last
    | cons d ds => exact body.noQuoteLast (by rw [List.getLast?_cons_cons]; exact last)

/-- Behind a quote in the body another character comes before a third quote. -/
theorem quoteIsText (body : IsBody ('"' :: cs)) (more : List Char) : Lexer.quoteIsText (cs ++ more) = true := by
  unfold Lexer.quoteIsText
  split
  · rfl
  · rename_i behind _ two
    rcases cs with _ | ⟨d, _ | ⟨e, ds⟩⟩
    · exact absurd rfl body.noQuoteLast
    · obtain ⟨rfl, -⟩ := List.cons.inj two
      exact absurd rfl body.noQuoteLast
    · obtain ⟨rfl, second⟩ := List.cons.inj two
      obtain ⟨rfl, -⟩ := List.cons.inj second
      exact absurd (List.prefix_append (quotes 3) ds).isInfix body.shortRuns
  · rfl

/-- Each character of the body is text. -/
theorem isText (body : IsBody (c :: cs)) (more : List Char) : isStringText true c (cs ++ more) = true := by
  have noDollar : c ≠ '$' := fun dollar => body.noDollar (dollar ▸ List.mem_cons_self ..)
  unfold isStringText
  rw [if_neg (by simpa using noDollar)]
  split
  · rename_i quote
    obtain rfl : c = '"' := by simpa using quote
    rw [body.quoteIsText more]
    rfl
  · rfl

end IsBody

/-- The quotes that close a raw string are no text. -/
theorem closing_taken (noQuote : rest.head? ≠ some '"') : (stringText true (quotes 3 ++ rest)).taken = [] := by
  have closes : isStringText true '"' (quotes 2 ++ rest) = false := by
    cases rest with
    | nil => rfl
    | cons d ds =>
      have other : d ≠ '"' := fun quote => noQuote (by rw [quote]; rfl)
      change Lexer.quoteIsText ('"' :: '"' :: d :: ds) = false
      unfold Lexer.quoteIsText
      split <;> simp_all
  change (stringText true ('"' :: (quotes 2 ++ rest))).taken = []
  rw [stringText, if_neg (by rw [closes]; decide)]
  rfl

/-- All quotes of a run but the last three are text. -/
theorem run_taken (noQuote : rest.head? ≠ some '"') (count : Nat) :
    (stringText true (quotes count ++ (quotes 3 ++ rest))).taken = quotes count := by
  induction count with
  | zero => exact closing_taken noQuote
  | succ count ih =>
    -- However many quotes come next, three of them are there.
    have three : quotes count ++ (quotes 3 ++ rest) = quotes 3 ++ (quotes count ++ rest) := by
      rw [← List.append_assoc, ← List.append_assoc, quotes, quotes, List.replicate_append_replicate,
        List.replicate_append_replicate, Nat.add_comm]
    have text : isStringText true '"' (quotes count ++ (quotes 3 ++ rest)) = true := by
      rw [three]
      rfl
    rw [quotes_succ, List.cons_append, stringText, if_pos text]
    exact congrArg ('"' :: ·) ih

/-- The body and all quotes of the run behind it but the last three are text. -/
theorem body_taken (body : IsBody s) (noQuote : rest.head? ≠ some '"') (count : Nat) :
    (stringText true (s ++ (quotes count ++ (quotes 3 ++ rest)))).taken = s ++ quotes count := by
  induction s with
  | nil => exact run_taken noQuote count
  | cons c cs ih =>
    rw [List.cons_append, stringText, if_pos (body.isText _)]
    exact congrArg (c :: ·) (ih body.tail)

/-- In code, three quotes open a raw string. -/
theorem scan_open (code : InCode modes) (offset : Nat) (cs : List Char) :
    scan modes offset (quotes 3 ++ cs) =
      (scan (.quoted true :: modes) (offset + 3) cs).behind
        [⟨.openQuote, offset, offset + 3, String.ofList (quotes 3)⟩] := by
  have read : Lexer.step modes '"' (quotes 2 ++ cs) =
      .ok ⟨.openQuote, ⟨quotes 2, cs, rfl⟩, .quoted true :: modes⟩ := by
    rw [code.step]
    rfl
  exact scan_step offset read rfl

/-- In a raw string, three quotes in front of no other close it. -/
theorem scan_close (noQuote : rest.head? ≠ some '"') (outer : List Mode) (offset : Nat) :
    scan (.quoted true :: outer) offset (quotes 3 ++ rest) =
      (scan outer (offset + 3) rest).behind [⟨.closeQuote, offset, offset + 3, String.ofList (quotes 3)⟩] := by
  have closes : rawClose? (quotes 2 ++ rest) = some ⟨quotes 2, rest, rfl⟩ := if_neg (by simpa using noQuote)
  have read : Lexer.step (.quoted true :: outer) '"' (quotes 2 ++ rest) =
      .ok ⟨.closeQuote, ⟨quotes 2, rest, rfl⟩, outer⟩ := by
    simp only [Lexer.step, rawString, beq_self_eq_true, if_true, closes]
  exact scan_step offset read rfl

/-- In a raw string, a run of text that goes on to other text is one token. -/
theorem scan_text (outer : List Mode) (offset : Nat) (takes : (stringText true (c :: (text ++ rest))).taken = c :: text) :
    scan (.quoted true :: outer) offset (c :: (text ++ rest)) =
      (scan (.quoted true :: outer) (offset + width (c :: text)) rest).behind
        [⟨.stringText, offset, offset + width (c :: text), String.ofList (c :: text)⟩] := by
  have isText : isStringText true c (text ++ rest) = true := by
    by_contra other
    rw [stringText, if_neg other] at takes
    cases takes
  have stays : (if c == '"' then rawClose? (text ++ rest) else none) = none := by
    split
    · rename_i quote
      obtain rfl : c = '"' := by simpa using quote
      exact (rawClose?_eq_none _).mpr isText
    · rfl
  have read : Lexer.step (.quoted true :: outer) c (text ++ rest) =
      .ok ⟨.stringText, stringText true (text ++ rest), .quoted true :: outer⟩ := by
    simp only [Lexer.step, rawString, stays, stringPart_of_isText isText]
  rw [stringText, if_pos isText] at takes
  exact scan_step offset read (List.cons.inj takes).2

/-- A raw string closes at the last three quotes of the run that ends it: all in front of them is one text, unless
it is empty, and behind them code goes on. -/
theorem raw_string_closes_last {modes : List Mode} (code : InCode modes) (offset : Nat) {s rest : List Char}
    {count : Nat} (body : IsBody s) (run : 3 ≤ count) (noQuote : rest.head? ≠ some '"') :
    let text := s ++ quotes (count - 3)
    let stop := offset + 3 + width text
    scan modes offset (quotes 3 ++ s ++ quotes count ++ rest) = (scan modes (stop + 3) rest).behind
      (⟨.openQuote, offset, offset + 3, String.ofList (quotes 3)⟩ ::
        (if text = [] then [] else [⟨.stringText, offset + 3, stop, String.ofList text⟩]) ++
        [⟨.closeQuote, stop, stop + 3, String.ofList (quotes 3)⟩]) := by
  intro text stop
  obtain ⟨more, rfl⟩ : ∃ more, count = more + 3 := ⟨count - 3, by omega⟩
  have split : quotes 3 ++ s ++ quotes (more + 3) ++ rest = quotes 3 ++ (text ++ (quotes 3 ++ rest)) := by
    rw [quotes_add_three more]
    simp only [text, Nat.add_sub_cancel, List.append_assoc]
  have takes : (stringText true (text ++ (quotes 3 ++ rest))).taken = text := by
    simp only [text]
    rw [List.append_assoc]
    exact body_taken body noQuote _
  have inside : scan (.quoted true :: modes) (offset + 3) (text ++ (quotes 3 ++ rest)) =
      (scan (.quoted true :: modes) stop (quotes 3 ++ rest)).behind
        (if text = [] then [] else [⟨.stringText, offset + 3, stop, String.ofList text⟩]) := by
    simp only [stop]
    cases shown : text with
    | nil => rfl
    | cons c cs =>
      rw [shown] at takes
      exact scan_text modes (offset + 3) takes
  rw [split, scan_open code, inside, scan_close noQuote, Lexing.behind_append, Lexing.behind_append]
  rfl

/-- One quote right behind the opening ones, two inside, and five at the end, in a template. -/
theorem raw_string_closes_last_in_template :
    scan [.template 0, .quoted true] 5 (quotes 3 ++ ['"', 'a', '"', '"', 'b'] ++ quotes 5 ++ ['+']) =
      (scan [.template 0, .quoted true] 18 ['+']).behind [⟨.openQuote, 5, 8, "\"\"\""⟩,
        ⟨.stringText, 8, 15, "\"a\"\"b\"\""⟩, ⟨.closeQuote, 15, 18, "\"\"\""⟩] :=
  raw_string_closes_last (.inr ⟨0, [.quoted true], rfl⟩) 5 ⟨by decide, by decide, by decide⟩ (by decide) (by decide)

end Lexer

end KotlinSyntax
