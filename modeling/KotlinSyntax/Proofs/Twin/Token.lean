import KotlinSyntax.Grammar.Sight
import KotlinSyntax.Proofs.Builder

/-! Token lists that differ in trivia only. The grammar learns of a gap between two parts no more than three
bits, so two builders over such lists see the same. -/
namespace KotlinSyntax

namespace Token

def bare (t : Token) : Token := { t with start := 0, stop := 0 }

@[simp] theorem bare_kind (t : Token) : t.bare.kind = t.kind := rfl

@[simp] theorem bare_text (t : Token) : t.bare.text = t.text := rfl

@[simp] theorem bare_spells (t : Token) (text : String) : t.bare.spells text = t.spells text := rfl

theorem kind_of_bare {t u : Token} (h : t.bare = u.bare) : t.kind = u.kind := by
  have kinds : t.bare.kind = u.bare.kind := by rw [h]
  exact kinds

theorem text_of_bare {t u : Token} (h : t.bare = u.bare) : t.text = u.text := by
  have texts : t.bare.text = u.bare.text := by rw [h]
  exact texts

/-- Trivia is not taken for the modifier of an enumeration. -/
def Calm (t : Token) : Prop := t.kind.isTrivia = true → t.text ≠ "enum"

def isPart (t : Token) : Bool := !t.kind.isTrivia

def parts (ts : List Token) : List Token := ts.filter isPart

/-- The trivia in front of the first part, between two parts, and behind the last one. -/
def gaps (ts : List Token) : List (List Token) := ts.splitOnP isPart

/-- Whether a gap is empty, ends a line, and holds a semicolon. -/
def glimpse (gap : List Token) : Bool × Bool × Bool :=
  (gap.isEmpty, gap.any breaksLine, gap.any (·.kind == .semicolon))

def places (ts : List Token) : List Nat :=
  (parts ts).map (·.start) ++ [(ts.getLast?.map (·.stop)).getD 0]

/-- The parts are spelled alike, and a glimpse does not tell the gaps apart. -/
structure Similar (ts us : List Token) : Prop where
  parts : (parts ts).map bare = (parts us).map bare
  gaps : (gaps ts).map glimpse = (gaps us).map glimpse

theorem gaps_cons (t : Token) (ts : List Token) :
    gaps (t :: ts) = if t.isPart then [] :: gaps ts else (gaps ts).modifyHead (t :: ·) :=
  List.splitOnP_cons_eq_if_modifyHead t ts

theorem gaps_ne_nil (ts : List Token) : gaps ts ≠ [] := List.splitOnP_ne_nil isPart ts

theorem isEmpty_eq_gaps (ts : List Token) :
    ts.isEmpty = ((parts ts).isEmpty && (gaps ts).all (·.isEmpty)) := by
  cases ts with
  | nil => rfl
  | cons t ts =>
    rw [gaps_cons, parts, List.filter_cons]
    cases t.isPart with
    | true => rfl
    | false =>
      cases found : gaps ts with
      | nil => exact absurd found (gaps_ne_nil ts)
      | cons gap later => simp

/-- A test that no part passes is a test of the gaps. -/
theorem any_eq_gaps {test : Token → Bool} (trivial : ∀ t, t.isPart = true → test t = false) (ts : List Token) :
    ts.any test = (gaps ts).any (·.any test) := by
  induction ts with
  | nil => rfl
  | cons t ts ih =>
    rw [gaps_cons, List.any_cons, ih]
    by_cases part : t.isPart = true
    · simp [part, trivial t part]
    · cases found : gaps ts with
      | nil => exact absurd found (gaps_ne_nil ts)
      | cons gap later => simp [part, Bool.or_assoc]

theorem glimpse_eq_gaps (ts : List Token) : glimpse ts =
    ((parts ts).isEmpty && ((gaps ts).map glimpse).all (·.1), ((gaps ts).map glimpse).any (·.2.1),
      ((gaps ts).map glimpse).any (·.2.2)) := by
  have breaks : ∀ t : Token, t.isPart = true → t.breaksLine = false := by
    intro t part
    cases kind : t.kind <;> simp [isPart, kind, TokenKind.isTrivia] at part <;> simp [breaksLine, kind]
  have ends : ∀ t : Token, t.isPart = true → (t.kind == .semicolon) = false := by
    intro t part
    cases kind : t.kind <;> simp [isPart, kind, TokenKind.isTrivia] at part <;> rfl
  rw [glimpse, isEmpty_eq_gaps, any_eq_gaps breaks, any_eq_gaps ends]
  simp [List.all_map, List.any_map, Function.comp_def, glimpse]

namespace Similar

variable {ts us : List Token}

theorem length (h : Similar ts us) : (Token.parts ts).length = (Token.parts us).length := by
  simpa using congrArg List.length h.parts

theorem whole (h : Similar ts us) : glimpse ts = glimpse us := by
  have none : (Token.parts ts).isEmpty = (Token.parts us).isEmpty := by
    rw [Bool.eq_iff_iff, List.isEmpty_iff_length_eq_zero, List.isEmpty_iff_length_eq_zero, h.length]
  rw [glimpse_eq_gaps, glimpse_eq_gaps, h.gaps, none]

/-- Behind the last gap there is none, and then the builder looks at the whole list. -/
theorem gap (h : Similar ts us) (k : Nat) :
    glimpse ((Token.gaps ts)[k]?.getD ts) = glimpse ((Token.gaps us)[k]?.getD us) := by
  have same : ((Token.gaps ts)[k]?).map glimpse = ((Token.gaps us)[k]?).map glimpse := by
    rw [← List.getElem?_map, ← List.getElem?_map, h.gaps]
  cases one : (Token.gaps ts)[k]? with
  | none =>
    cases two : (Token.gaps us)[k]? with
    | none => exact h.whole
    | some gap => simp [one, two] at same
  | some gap =>
    cases two : (Token.gaps us)[k]? with
    | none => simp [one, two] at same
    | some gap' => simpa [one, two] using same

end Similar

end Token

/-! The places of the parts among the tokens. -/

theorem le_of_mem_indicesFrom {n i : Nat} {ts : List Token} (h : i ∈ indicesFrom n ts) : n ≤ i := by
  induction ts generalizing n with
  | nil => cases h
  | cons t ts ih =>
    rw [indicesFrom] at h
    split at h
    · exact Nat.le_of_succ_le (ih h)
    · rcases List.mem_cons.mp h with rfl | member
      · exact Nat.le_refl _
      · exact Nat.le_of_succ_le (ih member)

theorem indicesFrom_length (n : Nat) (ts : List Token) : (indicesFrom n ts).length = (Token.parts ts).length := by
  induction ts generalizing n with
  | nil => rfl
  | cons t ts ih =>
    rw [indicesFrom, Token.parts, List.filter_cons, Token.isPart]
    cases t.kind.isTrivia with
    | true => exact ih (n + 1)
    | false => exact congrArg Nat.succ (ih (n + 1))

section

variable {gap rest : List Token} {t : Token}

theorem Token.parts_split (blank : ∀ u ∈ gap, u.kind.isTrivia = true) (part : t.kind.isTrivia = false) :
    Token.parts (gap ++ t :: rest) = t :: Token.parts rest := by
  have none : gap.filter Token.isPart = [] := by
    rw [List.filter_eq_nil_iff]
    intro u member
    simp [Token.isPart, blank u member]
  rw [Token.parts, List.filter_append, none, List.nil_append, List.filter_cons_of_pos (by simp [Token.isPart, part])]
  rfl

theorem Token.gaps_split (blank : ∀ u ∈ gap, u.kind.isTrivia = true) (part : t.kind.isTrivia = false) :
    Token.gaps (gap ++ t :: rest) = gap :: Token.gaps rest :=
  List.splitOnP_append_cons_of_forall_mem (fun u member => by simp [Token.isPart, blank u member]) t
    (by simp [Token.isPart, part]) rest

theorem Token.parts_blank (blank : ∀ u ∈ gap, u.kind.isTrivia = true) : Token.parts gap = [] := by
  rw [Token.parts, List.filter_eq_nil_iff]
  intro u member
  simp [Token.isPart, blank u member]

theorem Token.gaps_blank (blank : ∀ u ∈ gap, u.kind.isTrivia = true) : Token.gaps gap = [gap] :=
  List.splitOnP_eq_singleton fun u member => by simp [Token.isPart, blank u member]

end

theorem getElem?_indicesFrom (n : Nat) (ts : List Token) (k : Nat) :
    ((indicesFrom n ts)[k]?).bind (fun i => ts[i - n]?) = (Token.parts ts)[k]? := by
  induction k generalizing n ts with
  | zero =>
    cases found : indicesFrom n ts with
    | nil => simp [Token.parts_blank (indicesFrom_nil found)]
    | cons i is =>
      obtain ⟨gap, t, rest, rfl, blank, part, rfl, _⟩ := indicesFrom_cons found
      simp [Token.parts_split blank part]
  | succ k ih =>
    cases found : indicesFrom n ts with
    | nil => simp [Token.parts_blank (indicesFrom_nil found)]
    | cons i is =>
      obtain ⟨gap, t, rest, rfl, blank, part, place, rfl⟩ := indicesFrom_cons found
      rw [Token.parts_split blank part, List.getElem?_cons_succ, List.getElem?_cons_succ, ← ih (i + 1) rest]
      cases at_ : (indicesFrom (i + 1) rest)[k]? with
      | none => rfl
      | some j =>
        have le := le_of_mem_indicesFrom (List.mem_of_getElem? at_)
        have shift : j - n = gap.length + ((j - (i + 1)) + 1) := by omega
        rw [Option.bind_some, Option.bind_some, shift, List.getElem?_append_right (Nat.le_add_right ..),
          Nat.add_sub_cancel_left, List.getElem?_cons_succ]

theorem map_getElem?_indicesFrom (n : Nat) (ts : List Token) :
    (indicesFrom n ts).map (fun i => ts[i - n]?) = (Token.parts ts).map some := by
  apply List.ext_getElem?
  intro k
  have found := getElem?_indicesFrom n ts k
  rw [List.getElem?_map, List.getElem?_map]
  cases at_ : (indicesFrom n ts)[k]? with
  | none =>
    rw [at_] at found
    rw [← found]
    rfl
  | some i =>
    have inside : k < (Token.parts ts).length := by
      rw [← indicesFrom_length n]
      exact (List.getElem?_eq_some_iff.mp at_).1
    rw [at_, List.getElem?_eq_getElem inside] at found
    rw [List.getElem?_eq_getElem inside]
    exact congrArg some found

def gapStart (n : Nat) (ts : List Token) (k : Nat) : Nat := (n :: (indicesFrom n ts).map (· + 1)).getD k 0

theorem le_gapStart {n k : Nat} {ts : List Token} (h : k ≤ (indicesFrom n ts).length) : n ≤ gapStart n ts k := by
  cases k with
  | zero => exact Nat.le_refl n
  | succ k =>
    have le := le_of_mem_indicesFrom (List.getElem_mem h)
    have place : gapStart n ts (k + 1) = (indicesFrom n ts)[k] + 1 := by
      simp [gapStart, List.getElem?_eq_getElem h]
    omega

/-- The tokens between one part and the next are a gap. -/
theorem gaps_getElem? (n : Nat) (ts : List Token) (k : Nat) (h : k ≤ (indicesFrom n ts).length) :
    (Token.gaps ts)[k]? = some ((ts.drop (gapStart n ts k - n)).take
      ((indicesFrom n ts).getD k (n + ts.length) - gapStart n ts k)) := by
  induction k generalizing n ts with
  | zero =>
    cases found : indicesFrom n ts with
    | nil => simp [Token.gaps_blank (indicesFrom_nil found), gapStart]
    | cons i is =>
      obtain ⟨gap, t, rest, rfl, blank, part, rfl, _⟩ := indicesFrom_cons found
      simp [Token.gaps_split blank part, gapStart]
  | succ k ih =>
    cases found : indicesFrom n ts with
    | nil =>
      rw [found] at h
      exact absurd h (Nat.not_succ_le_zero k)
    | cons i is =>
      obtain ⟨gap, t, rest, rfl, blank, part, place, rfl⟩ := indicesFrom_cons found
      rw [found, List.length_cons] at h
      have start : gapStart n (gap ++ t :: rest) (k + 1) = gapStart (i + 1) rest k := by
        simp [gapStart, found]
      have stop : (i :: indicesFrom (i + 1) rest).getD (k + 1) (n + (gap ++ t :: rest).length) =
          (indicesFrom (i + 1) rest).getD k (i + 1 + rest.length) := by
        have size : n + (gap ++ t :: rest).length = i + 1 + rest.length := by
          rw [List.length_append, List.length_cons]
          omega
        rw [size, List.getD_cons_succ]
      have le : i + 1 ≤ gapStart (i + 1) rest k := le_gapStart (Nat.le_of_succ_le_succ h)
      have shift : gapStart (i + 1) rest k - n = gap.length + 1 + (gapStart (i + 1) rest k - (i + 1)) := by omega
      rw [Token.gaps_split blank part, List.getElem?_cons_succ, ih (i + 1) rest (by omega), start, stop, shift,
        ← List.drop_drop]
      simp

theorem gaps_length (ts : List Token) : (Token.gaps ts).length = (Token.parts ts).length + 1 := by
  induction ts with
  | nil => rfl
  | cons t ts ih =>
    rw [Token.gaps_cons, Token.parts, List.filter_cons]
    cases t.isPart with
    | true => exact congrArg Nat.succ ih
    | false => simpa [Token.parts] using ih

/-! Builders over similar lists. -/

namespace Builder

/-- The builder stands somewhere in the tokens. -/
structure Over (ts : List Token) (b : Builder) : Prop where
  tokens : b.tokens.toList = ts
  significant : b.significant.toList = indicesFrom 0 ts
  placed : b.Placed

theorem ofTokens_over {ts : List Token} (proper : ∀ t ∈ ts, t.isProper = true) (named : Token.Named ts) :
    (ofTokens ts).Over ts where
  tokens := rfl
  significant := by simpa [ofTokens] using zipIdx_indices ts 0
  placed := ofTokens_placed proper named

namespace Over

variable {b : Builder} {ts : List Token}

theorem restore {b' : Builder} (h : b'.Over ts) (k : b.Over ts) : b'.restore b.snapshot = b :=
  restore_snapshot (Array.toList_inj.mp (h.tokens.trans k.tokens.symm))
    (Array.toList_inj.mp (h.significant.trans k.significant.symm))

theorem index? (h : b.Over ts) (n : Int) :
    b.index? n = if b.cursor + n < 0 then none else (indicesFrom 0 ts)[(b.cursor + n).toNat]? := by
  rw [← h.significant, Array.getElem?_toList]
  rfl

theorem peek (h : b.Over ts) (n : Int) :
    b.peek n = if b.cursor + n < 0 then none else (Token.parts ts)[(b.cursor + n).toNat]? := by
  rw [Builder.peek, h.index?]
  split
  · rfl
  · rw [← getElem?_indicesFrom 0 ts]
    simp [← h.tokens]

theorem gap_cut (h : b.Over ts) (start stop : Nat) :
    (b.tokens.extract start stop).toList = (ts.drop start).take (stop - start) := by
  rw [Array.toList_extract, h.tokens, List.extract_eq_take_drop]

theorem index?_of_peek (h : b.Over ts) (ended : b.peek = none) : b.index? 0 = none := by
  rw [h.peek] at ended
  rw [h.index?]
  split at ended
  · rw [if_pos (by assumption)]
  · rw [if_neg (by assumption)]
    rw [List.getElem?_eq_none_iff] at ended ⊢
    rwa [indicesFrom_length]

/-- The gap in front of a part, or the whole list where there is no such gap. -/
theorem gap (h : b.Over ts) (n : Int) :
    b.gap n = if b.cursor + n < 0 then ts else ((Token.gaps ts)[(b.cursor + n).toNat]?).getD ts := by
  have size : b.tokens.size = ts.length := by rw [← h.tokens, Array.length_toList]
  simp only [Builder.gap, h.index?, h.gap_cut, size]
  split
  · rename_i before
    have earlier : (b.cursor : Int) + (n - 1) < 0 := by omega
    simp [earlier]
  · rename_i behind
    generalize place : ((b.cursor : Int) + n).toNat = k
    have start : ((if (b.cursor : Int) + (n - 1) < 0 then none
        else (indicesFrom 0 ts)[((b.cursor : Int) + (n - 1)).toNat]?).map (· + 1)).getD 0 = gapStart 0 ts k := by
      cases k with
      | zero =>
        have earlier : (b.cursor : Int) + (n - 1) < 0 := by omega
        simp [earlier, gapStart]
      | succ k =>
        have later : ¬ (b.cursor : Int) + (n - 1) < 0 := by omega
        have same : ((b.cursor : Int) + (n - 1)).toNat = k := by omega
        simp [later, same, gapStart]
    rw [start]
    by_cases inside : k ≤ (indicesFrom 0 ts).length
    · have cut := gaps_getElem? 0 ts k inside
      rw [Nat.sub_zero, Nat.zero_add, List.getD_eq_getElem?_getD] at cut
      rw [cut]
      rfl
    · have none : (Token.gaps ts)[k]? = none := by
        rw [List.getElem?_eq_none_iff, gaps_length, ← indicesFrom_length 0]
        omega
      have first : gapStart 0 ts k = 0 := by
        rw [gapStart, List.getD_eq_getElem?_getD, List.getElem?_eq_none]
        · rfl
        · rw [List.length_cons, List.length_map]
          omega
      have last : (indicesFrom 0 ts)[k]? = Option.none := by
        rw [List.getElem?_eq_none_iff]
        omega
      simp [none, first, last]

theorem ahead_eq (b : Builder) : b.ahead = (b.significant.toList.drop b.cursor).filterMap (b.tokens[·]?) := by
  have cut : (b.significant.extract b.cursor b.significant.size).toList = b.significant.toList.drop b.cursor := by
    rw [Array.toList_extract, List.extract_eq_take_drop]
    exact List.take_of_length_le (Nat.le_of_eq (by rw [List.length_drop, Array.length_toList]))
  rw [Builder.ahead, cut]

theorem ahead (h : b.Over ts) : b.ahead = (Token.parts ts).drop b.cursor := by
  have found : (b.tokens[·]?) = (fun i : Nat => ts[i]?) := by
    funext i
    rw [← h.tokens, Array.getElem?_toList]
  have each : ((indicesFrom 0 ts).drop b.cursor).map (fun i : Nat => ts[i]?) =
      ((Token.parts ts).drop b.cursor).map some := by
    rw [List.map_drop, List.map_drop, ← map_getElem?_indicesFrom 0]
    rfl
  have only := congrArg (List.filterMap id) each
  rw [List.filterMap_map, List.filterMap_map] at only
  rw [ahead_eq, h.significant, found]
  simpa [Function.comp_def] using only

/-- The parts that are left are those ahead. -/
theorem parts_left (h : b.Over ts) : Token.parts b.left = b.ahead := by
  have each : (indicesFrom b.pos b.left).map (b.tokens[·]?) = (Token.parts b.left).map some := by
    rw [← map_getElem?_indicesFrom b.pos]
    refine List.map_congr_left fun i member => ?_
    have le := le_of_mem_indicesFrom member
    rw [← left_getElem?, Nat.add_sub_cancel' le]
  have only := congrArg (List.filterMap id) each
  rw [List.filterMap_map, List.filterMap_map] at only
  rw [ahead_eq, h.placed.indices]
  simpa [Function.comp_def] using only.symm

theorem remaining (h : b.Over ts) : b.remaining = (Token.parts ts).length - b.cursor := by
  rw [Builder.remaining, ← Array.length_toList, h.significant, indicesFrom_length]

theorem offset (h : b.Over ts) : (Token.places ts)[b.cursor]? = some b.offset := by
  have bound := h.placed.bound
  rw [← Array.length_toList, h.significant, indicesFrom_length] at bound
  have seen := h.peek 0
  have place : ¬ ((b.cursor : Int) + 0 < 0) := by omega
  have same : ((b.cursor : Int) + 0).toNat = b.cursor := by omega
  rw [if_neg place, same] at seen
  unfold Builder.offset Token.places
  by_cases inside : b.cursor < (Token.parts ts).length
  · rw [List.getElem?_eq_getElem inside] at seen
    rw [seen, List.getElem?_append_left (by simpa using inside)]
    simp [inside]
  · have last : b.cursor = (Token.parts ts).length := by omega
    rw [List.getElem?_eq_none (Nat.le_of_not_lt inside)] at seen
    rw [seen, last, List.getElem?_append_right (by simp)]
    simp [← h.tokens, Array.getLast?_toList]

end Over

end Builder

end KotlinSyntax
