import Mathlib.Data.List.DropRight
import KotlinSyntax.Proofs.Twin.Token

/-! The tokens between two elements. They are read off the tree alone, from the leaves on both sides, and where the
leaves tile the tokens they are what the builder sees in front of the next token. -/
namespace KotlinSyntax

namespace Token

/-- A semicolon, or a token that ends the line. -/
def separates (t : Token) : Bool := t.breaksLine || t.kind == .semicolon

def trailing (ts : List Token) : List Token := ts.rtakeWhile (·.kind.isTrivia)

def heading (ts : List Token) : List Token := ts.takeWhile (·.kind.isTrivia)

variable {ts us : List Token} {t : Token}

theorem heading_append_of_blank (blank : ∀ t ∈ ts, t.kind.isTrivia = true) :
    heading (ts ++ us) = ts ++ heading us :=
  List.takeWhile_append_of_pos blank

theorem heading_append_of_part (part : ∃ t ∈ ts, t.kind.isTrivia = false) : heading (ts ++ us) = heading ts := by
  unfold heading
  rw [List.takeWhile_append, if_neg]
  intro whole
  obtain ⟨t, member, is⟩ := part
  rw [← (List.takeWhile_prefix _).eq_of_length whole] at member
  rw [List.mem_takeWhile_imp member] at is
  cases is

theorem trailing_eq_reverse (ts : List Token) : trailing ts = (heading ts.reverse).reverse := by
  rw [heading, ← List.rtakeWhile_reverse, List.reverse_reverse, trailing]

theorem trailing_append_of_blank (blank : ∀ t ∈ us, t.kind.isTrivia = true) :
    trailing (ts ++ us) = trailing ts ++ us := by
  rw [trailing_eq_reverse, List.reverse_append, heading_append_of_blank (by simpa using blank), List.reverse_append,
    List.reverse_reverse, ← trailing_eq_reverse]

theorem trailing_append_of_part (ts : List Token) (part : ∃ t ∈ us, t.kind.isTrivia = false) :
    trailing (ts ++ us) = trailing us := by
  rw [trailing_eq_reverse, List.reverse_append, heading_append_of_part (by simpa using part), ← trailing_eq_reverse]

theorem trailing_of_blank (blank : ∀ t ∈ ts, t.kind.isTrivia = true) : trailing ts = ts :=
  List.rtakeWhile_eq_self_iff.mpr blank

theorem trailing_cons_part (part : t.kind.isTrivia = false) (ts : List Token) : trailing (t :: ts) = trailing ts := by
  by_cases blank : ∀ u ∈ ts, u.kind.isTrivia = true
  · have alone : trailing [t] = [] := by simp [trailing, List.rtakeWhile, part]
    rw [← List.singleton_append, trailing_append_of_blank blank, alone, List.nil_append, trailing_of_blank blank]
  · rw [← List.singleton_append, trailing_append_of_part _ (by simpa using blank)]

theorem gaps_zero (ts : List Token) : (gaps ts)[0]? = some (heading ts) := by
  induction ts with
  | nil => rfl
  | cons t ts ih =>
    rw [gaps_cons]
    cases trivia : t.kind.isTrivia with
    | false => simp [isPart, heading, trivia]
    | true =>
      cases found : gaps ts with
      | nil => exact absurd found (gaps_ne_nil ts)
      | cons gap later =>
        have head : gap = heading ts := by simpa [found] using ih
        simp [isPart, heading, trivia, head]

theorem parts_cons_trivia (trivia : t.kind.isTrivia = true) (ts : List Token) : parts (t :: ts) = parts ts :=
  List.filter_cons_of_neg (by simp [isPart, trivia])

/-- The gap behind the parts of a list goes on in the list behind it. -/
theorem gaps_append (ts us : List Token) :
    (gaps (ts ++ us))[(parts ts).length]? = some (trailing ts ++ heading us) := by
  induction ts with
  | nil => exact gaps_zero us
  | cons t ts ih =>
    rw [List.cons_append, gaps_cons, isPart]
    cases trivia : t.kind.isTrivia with
    | false =>
      have longer : parts (t :: ts) = t :: parts ts := List.filter_cons_of_pos (by simp [isPart, trivia])
      rw [trailing_cons_part trivia, longer]
      exact ih
    | true =>
      rw [parts_cons_trivia trivia]
      cases found : gaps (ts ++ us) with
      | nil => exact absurd found (gaps_ne_nil _)
      | cons gap later =>
        rw [found] at ih
        by_cases blank : ∀ u ∈ ts, u.kind.isTrivia = true
        · have whole : ∀ u ∈ t :: ts, u.kind.isTrivia = true := by simpa [trivia] using blank
          rw [trailing_of_blank blank, parts_blank blank] at ih
          rw [trailing_of_blank whole, parts_blank blank]
          simpa using ih
        · have part : ∃ u ∈ ts, u.kind.isTrivia = false := by simpa using blank
          have some : parts ts ≠ [] := by simpa [parts, isPart] using part
          obtain ⟨n, length⟩ := Nat.exists_eq_succ_of_ne_zero (List.length_pos_iff.mpr some).ne'
          have same : trailing (t :: ts) = trailing ts := trailing_append_of_part [t] part
          rw [length] at ih
          rw [same, length]
          exact ih

end Token

namespace Tiles

open Token

variable {ls : List Leaf} {ts : List Token}

theorem isTrivia_of_isWord {t : Token} (word : t.isWord = true) : t.kind.isTrivia = false := by
  cases kind : t.kind <;> simp [Token.isWord, kind, TokenKind.isTrivia] at word ⊢

/-- Gluing makes no trivia and takes none. -/
theorem part_iff (h : Tiles ls ts) :
    (∃ l ∈ ls, l.token.kind.isTrivia = false) ↔ ∃ t ∈ ts, t.kind.isTrivia = false := by
  induction h with
  | nil => simp
  | token t trivia tail ih => simp only [List.exists_mem_cons_iff, ih]
  | @glued parts op several words joined ls ts tail ih =>
    have glued : op.kind.isTrivia = false := by rw [(glue_text joined).2]; rfl
    obtain ⟨t, member⟩ := List.exists_mem_of_length_pos (Nat.zero_lt_of_lt several)
    have word := isTrivia_of_isWord (words t member)
    exact ⟨fun _ => ⟨t, List.mem_append_left ts member, word⟩, fun _ => ⟨_, List.mem_cons_self .., glued⟩⟩

theorem heading_eq (h : Tiles ls ts) : heading (ls.map (·.token)) = heading ts := by
  induction h with
  | nil => rfl
  | token t trivia tail ih =>
    simp only [heading, List.map_cons, List.takeWhile_cons] at ih ⊢
    rw [ih]
  | @glued parts op several words joined ls ts tail ih =>
    have glued : op.kind.isTrivia = false := by rw [(glue_text joined).2]; rfl
    cases parts with
    | nil => cases several
    | cons t parts => simp [heading, glued, isTrivia_of_isWord (words t (List.mem_cons_self ..))]

theorem trailing_eq (h : Tiles ls ts) : trailing (ls.map (·.token)) = trailing ts := by
  induction h with
  | nil => rfl
  | @token t trivia ls ts tail ih =>
    by_cases part : ∃ u ∈ ts, u.kind.isTrivia = false
    · have part' : ∃ u ∈ ls.map (·.token), u.kind.isTrivia = false := by simpa using tail.part_iff.mpr part
      exact (trailing_append_of_part [t] part').trans (ih.trans (trailing_append_of_part [t] part).symm)
    · have blank : ∀ u ∈ ts, u.kind.isTrivia = true := by simpa using part
      have blank' : ∀ u ∈ ls.map (·.token), u.kind.isTrivia = true := by simpa using mt tail.part_iff.mp part
      rw [trailing_of_blank blank, trailing_of_blank blank'] at ih
      rw [List.map_cons, ih]
  | @glued parts op several words joined ls ts tail ih =>
    have glued : op.kind.isTrivia = false := by rw [(glue_text joined).2]; rfl
    have all : trailing (parts ++ ts) = trailing ts := by
      clear joined several
      induction parts with
      | nil => rfl
      | cons t parts ih =>
        rw [List.cons_append, trailing_cons_part (isTrivia_of_isWord (words t (List.mem_cons_self ..)))]
        exact ih fun u member => words u (List.mem_cons_of_mem t member)
    rw [List.map_cons, trailing_cons_part glued, ih, all]

end Tiles

namespace Builder

open Token

variable {b : Builder} {ts : List Token}

theorem separatedBefore_eq (b : Builder) : b.separatedBefore = (b.gap 0).any (·.separates) := by
  unfold separatedBefore newlineBefore semicolonBefore Token.separates
  induction b.gap 0 with
  | nil => rfl
  | cons t gap ih =>
    simp only [List.any_cons, ← ih]
    cases t.breaksLine <;> cases t.kind == .semicolon <;> simp

/-- What the builder sees in front of the next token is the trivia on both sides of its place. -/
theorem Over.gap_next (h : b.Over ts) : b.gap 0 = trailing (ts.take b.pos) ++ heading b.left := by
  have whole : ts = ts.take b.pos ++ b.left := by rw [left, h.tokens, List.take_append_drop]
  have passed : b.cursor = (parts (ts.take b.pos)).length := by
    have bound := h.placed.bound
    have counted := congrArg List.length h.placed.indices
    have all : (parts ts).length = (parts (ts.take b.pos)).length + (parts b.left).length := by
      conv_lhs => rw [whole]
      rw [parts, List.filter_append, List.length_append]
      rfl
    rw [List.length_drop, indicesFrom_length, h.significant, indicesFrom_length] at counted
    rw [← Array.length_toList, h.significant, indicesFrom_length] at bound
    omega
  have place : ¬ ((b.cursor : Int) + 0 < 0) := by omega
  have same : ((b.cursor : Int) + 0).toNat = (parts (ts.take b.pos)).length := by omega
  have gap := gaps_append (ts.take b.pos) b.left
  rw [← whole] at gap
  rw [h.gap, if_neg place, same, gap]
  rfl

theorem Over.gap_of_left {c : Builder} (h : b.Over ts) (k : c.Over ts) (same : c.left = b.left) :
    c.gap 0 = b.gap 0 := by
  have first : ts.take b.pos ++ b.left = ts := by rw [left, h.tokens, List.take_append_drop]
  have second : ts.take c.pos ++ c.left = ts := by rw [left, k.tokens, List.take_append_drop]
  rw [same] at second
  rw [h.gap_next, k.gap_next, same, List.append_cancel_right (second.trans first.symm)]

end Builder

namespace RawElement

open Token

inductive All (P : RawKind → List RawElement → Prop) : RawElement → Prop
  | leaf (l : Leaf) : All P (.leaf l)
  | node (kind : RawKind) (role : Option String) (children : List RawElement) (here : P kind children)
      (below : ∀ e ∈ children, All P e) : All P (.node kind role children)

/-- The tokens between the last part of some elements and the first part of the next one. -/
def gap (before : List RawElement) (e : RawElement) : List Token :=
  trailing ((leavesAll before).map (·.token)) ++ heading (e.leaves.map (·.token))

/-- Between two parts that follow each other there is a semicolon or the end of a line. -/
def Apart (es : List RawElement) : Prop :=
  ∀ before e after, es = before ++ e :: after → e.isTrivia = false → significant before ≠ [] →
    (gap before e).any (·.separates) = true

def isHeader : RawElement → Bool
  | .leaf l => l.trivia
  | .node kind _ _ => [.annotationSet, .packageDirective, .importList].contains kind

/-- The statements in a node that holds statements, with the trivia between them: those between the braces of a
block, all in the body of a lambda, and those behind the header of a script. -/
def statements? (kind : RawKind) (children : List RawElement) : Option (List RawElement) :=
  match kind with
  | .block => some children.tail.dropLast
  | .lambdaBody => some children
  | .script => some (children.dropWhile isHeader)
  | _ => none

def Solid (e : RawElement) : Prop := e.isTrivia = false → ∃ l ∈ e.leaves, l.token.kind.isTrivia = false

theorem All.mono {P Q : RawKind → List RawElement → Prop} (weaker : ∀ kind children, P kind children → Q kind children)
    {e : RawElement} (h : All P e) : All Q e := by
  induction h with
  | leaf l => exact .leaf l
  | node kind role children here below ih => exact .node kind role children (weaker kind children here) ih

variable {es fs : List RawElement} {e : RawElement}

theorem part_of_significant (solid : ∀ e ∈ es, Solid e) (some : significant es ≠ []) :
    ∃ t ∈ (leavesAll es).map (·.token), t.kind.isTrivia = false := by
  obtain ⟨e, member⟩ := List.exists_mem_of_ne_nil _ some
  obtain ⟨inside, part⟩ := List.mem_filter.mp member
  obtain ⟨l, leaf, is⟩ := solid e inside (by simpa using part)
  exact ⟨l.token, List.mem_map.mpr ⟨l, mem_leavesAll inside leaf, rfl⟩, is⟩

namespace Apart

theorem nil : Apart [] := by
  intro before e after split
  simp at split

/-- The next element is trivia, the first part, or apart from those before it. -/
theorem push (h : Apart es) (next : e.isTrivia = false → significant es ≠ [] → (gap es e).any (·.separates) = true) :
    Apart (es ++ [e]) := by
  intro before x after split part some
  rcases List.eq_nil_or_concat after with rfl | ⟨after, y, rfl⟩
  · obtain ⟨rfl, same⟩ := List.append_inj' split rfl
    cases same
    exact next part some
  · rw [List.concat_eq_append, ← List.cons_append, ← List.append_assoc] at split
    exact h before x after (List.append_inj' split rfl).1 part some

theorem append_leaves (h : Apart es) {ls : List Leaf} (trivia : ∀ l ∈ ls, l.trivia = true) :
    Apart (es ++ ls.map .leaf) := by
  induction ls generalizing es with
  | nil => simpa using h
  | cons l ls ih =>
    have first : Apart (es ++ [.leaf l]) :=
      h.push fun part => absurd (trivia l (List.mem_cons_self ..)) (Bool.not_eq_true _ ▸ part)
    rw [List.map_cons, ← List.singleton_append, ← List.append_assoc]
    exact ih first fun l member => trivia l (List.mem_cons_of_mem _ member)

theorem of_suffix (h : Apart (fs ++ es)) (solid : ∀ e ∈ es, Solid e) : Apart es := by
  intro before e after split part some
  have inside : ∀ e ∈ before, Solid e := fun e member => solid e (split ▸ List.mem_append_left _ member)
  have separated := h (fs ++ before) e after (by rw [split, List.append_assoc]) part (by simp [some])
  rwa [gap, leavesAll_append, List.map_append,
    trailing_append_of_part _ (part_of_significant inside some), ← gap] at separated

end Apart

end RawElement

end KotlinSyntax
