import KotlinSyntax.Proofs.Raw

/-! The builder seen through the tokens that no node holds yet. A placed builder counts the significant
tokens among them right, so looking ahead and taking are operations on that list. -/
namespace KotlinSyntax

def indicesFrom (n : Nat) : List Token → List Nat
  | [] => []
  | t :: ts => if t.kind.isTrivia then indicesFrom (n + 1) ts else n :: indicesFrom (n + 1) ts

theorem zipIdx_indices (tokens : List Token) (n : Nat) :
    ((tokens.zipIdx n).filter fun t => !t.1.kind.isTrivia).map (·.2) = indicesFrom n tokens := by
  induction tokens generalizing n with
  | nil => rfl
  | cons t ts ih =>
    rw [List.zipIdx_cons, List.filter_cons, indicesFrom]
    by_cases trivia : t.kind.isTrivia = true
    · simp only [trivia, Bool.not_true, Bool.false_eq_true, if_false, if_true]
      exact ih (n + 1)
    · simp only [trivia, Bool.not_false, if_true, List.map_cons]
      rw [ih (n + 1)]
      rfl

/-- The first significant token splits the list at its place. -/
theorem indicesFrom_cons {n i : Nat} {ts : List Token} {is : List Nat} (h : indicesFrom n ts = i :: is) :
    ∃ gap t rest, ts = gap ++ t :: rest ∧ (∀ u ∈ gap, u.kind.isTrivia = true) ∧
      t.kind.isTrivia = false ∧ i = n + gap.length ∧ is = indicesFrom (i + 1) rest := by
  induction ts generalizing n with
  | nil => cases h
  | cons t ts ih =>
    rw [indicesFrom] at h
    split at h
    · rename_i trivia
      obtain ⟨gap, u, rest, split, blank, significant, place, others⟩ := ih h
      refine ⟨t :: gap, u, rest, by rw [split]; rfl, ?_, significant, ?_, others⟩
      · intro v member
        rcases List.mem_cons.mp member with rfl | member
        · exact trivia
        · exact blank v member
      · rw [place, List.length_cons]
        omega
    · rename_i significant
      cases h
      exact ⟨[], t, ts, rfl, by simp, by simpa using significant, rfl, rfl⟩

theorem indicesFrom_nil {n : Nat} {ts : List Token} (h : indicesFrom n ts = []) :
    ∀ t ∈ ts, t.kind.isTrivia = true := by
  induction ts generalizing n with
  | nil => simp
  | cons t ts ih =>
    rw [indicesFrom] at h
    split at h
    · rename_i trivia
      intro u member
      rcases List.mem_cons.mp member with rfl | member
      · exact trivia
      · exact ih h u member
    · cases h

namespace Builder

def left (b : Builder) : List Token := b.tokens.toList.drop b.pos

structure Placed (b : Builder) : Prop where
  /-- The significant tokens that are left to take are those among the tokens left. -/
  indices : b.significant.toList.drop b.cursor = indicesFrom b.pos b.left
  bound : b.cursor ≤ b.significant.size
  reach : b.pos ≤ b.tokens.size
  proper : ∀ t ∈ b.left, t.isProper = true
  named : Token.Named b.left

theorem ofTokens_left (tokens : List Token) : (ofTokens tokens).left = tokens := by
  simp [ofTokens, left]

theorem ofTokens_placed {tokens : List Token} (proper : ∀ t ∈ tokens, t.isProper = true)
    (named : Token.Named tokens) : (ofTokens tokens).Placed where
  indices := by
    rw [ofTokens_left]
    simpa [ofTokens] using zipIdx_indices tokens 0
  bound := Nat.zero_le _
  reach := Nat.zero_le _
  proper := by rwa [ofTokens_left]
  named := by rwa [ofTokens_left]

/-- The builder behind the next `count` significant tokens, of which the last stands at `last`. -/
def behind (b : Builder) (count last : Nat) : Builder :=
  { b with cursor := b.cursor + count, pos := last + 1 }

theorem index?_nat (b : Builder) (n : Nat) : b.index? n = (b.significant.toList.drop b.cursor)[n]? := by
  have place : ¬ ((b.cursor : Int) + n < 0) := by omega
  have same : ((b.cursor : Int) + n).toNat = b.cursor + n := by omega
  simp [index?, place, same]

theorem left_getElem? (b : Builder) (n : Nat) : b.tokens[b.pos + n]? = b.left[n]? := by
  simp [left]

namespace Placed

variable {b : Builder} {t : Token}

theorem index?_eq (h : b.Placed) (n : Nat) : b.index? n = (indicesFrom b.pos b.left)[n]? := by
  rw [index?_nat, h.indices]

structure Next (b : Builder) (t : Token) (gap : List Token) : Prop where
  split : b.left = gap ++ t :: (b.behind 1 (b.pos + gap.length)).left
  blank : ∀ u ∈ gap, u.kind.isTrivia = true
  significant : t.kind.isTrivia = false
  index : b.index? 0 = some (b.pos + gap.length)
  placed : (b.behind 1 (b.pos + gap.length)).Placed
  remaining : (b.behind 1 (b.pos + gap.length)).remaining + 1 = b.remaining

theorem next (h : b.Placed) (seen : b.peek = some t) : ∃ gap, Next b t gap := by
  have first := h.index?_eq 0
  cases found : indicesFrom b.pos b.left with
  | nil =>
    rw [found] at first
    have nothing : b.index? 0 = none := first
    simp [peek, nothing] at seen
  | cons i is =>
    obtain ⟨gap, u, rest, split, blank, significant, place, others⟩ := indicesFrom_cons found
    have index : b.index? 0 = some (b.pos + gap.length) := by
      rw [found] at first
      simpa [place] using first
    have same : u = t := by
      have token : b.tokens[b.pos + gap.length]? = some u := by
        rw [left_getElem?, split]
        simp
      simpa [peek, index, token] using seen
    subst same
    have after : (b.behind 1 (b.pos + gap.length)).left = rest := by
      have longer : b.pos + gap.length + 1 = b.pos + (gap.length + 1) := by omega
      have tail : b.left.drop (gap.length + 1) = rest := by
        rw [split, ← List.drop_drop]
        simp
      rw [← tail]
      simp [behind, left, List.drop_drop, longer]
    have count : b.cursor < b.significant.size := by
      have long := congrArg List.length (h.indices.trans found)
      simp at long
      omega
    have member : ∀ v ∈ rest, v ∈ b.left := by
      intro v inside
      rw [split]
      exact List.mem_append_right gap (List.mem_cons_of_mem u inside)
    have reach : b.pos + gap.length + 1 ≤ b.tokens.size := by
      have long := congrArg List.length split
      simp [left] at long
      omega
    refine ⟨gap, ⟨by rw [after]; exact split, blank, significant, index, ?_, ?_⟩⟩
    · refine ⟨?_, ?_, reach, ?_, ?_⟩
      · have tail := congrArg List.tail (h.indices.trans found)
        rw [List.tail_drop, List.tail_cons, others, place] at tail
        rw [after]
        exact tail
      · exact count
      · rw [after]
        exact fun v inside => h.proper v (member v inside)
      · have named := h.named
        rw [split] at named
        rw [after]
        exact named.append_right.2
    · simp only [behind, Builder.remaining]
      omega

theorem left_of_atEnd (h : b.Placed) (done : b.atEnd = true) : ∀ t ∈ b.left, t.kind.isTrivia = true := by
  cases found : indicesFrom b.pos b.left with
  | nil => exact indicesFrom_nil found
  | cons i is =>
    obtain ⟨gap, u, rest, split, _, _, place, _⟩ := indicesFrom_cons found
    have index : b.index? 0 = some (b.pos + gap.length) := by
      have first := h.index?_eq 0
      rw [found] at first
      simpa [place] using first
    have token : b.tokens[b.pos + gap.length]? = some u := by
      rw [left_getElem?, split]
      simp
    simp [atEnd, peek, index, token] at done

/-- A significant token at the front of those left is the next one. -/
theorem peek_of_left {ts : List Token} (h : b.Placed) (left : b.left = t :: ts)
    (significant : t.kind.isTrivia = false) : b.peek = some t := by
  have index : b.index? 0 = some b.pos := by
    have first := h.index?_eq 0
    rw [left, indicesFrom, if_neg (by simp [significant])] at first
    exact first
  have token := left_getElem? b 0
  rw [left] at token
  simpa [peek, index] using token

/-- The tokens left tell two places over the same tokens apart. -/
theorem eq_of_left {c : Builder} (h : b.Placed) (k : c.Placed) (tokens : b.tokens = c.tokens)
    (significant : b.significant = c.significant) (left : b.left = c.left) : b = c := by
  have pos : b.pos = c.pos := by
    have long := congrArg List.length left
    have := h.reach
    have := k.reach
    simp only [Builder.left, List.length_drop, Array.length_toList, tokens] at *
    omega
  have cursor : b.cursor = c.cursor := by
    have same := congrArg List.length (h.indices.trans (by rw [left, pos] : _ = _))
    rw [← k.indices] at same
    have := h.bound
    have := k.bound
    simp only [List.length_drop, Array.length_toList, significant] at *
    omega
  cases b
  cases c
  simp_all

end Placed

open Placed

variable {b : Builder} {t u : Token} {gap : List Token}

theorem behind_index? (b : Builder) (last : Nat) (n : Int) : (b.behind 1 last).index? n = b.index? (n + 1) := by
  have same : (b.cursor : Int) + 1 + n = b.cursor + (n + 1) := by omega
  simp [index?, behind, same]

theorem behind_peek (b : Builder) (last : Nat) (n : Int) : (b.behind 1 last).peek n = b.peek (n + 1) := by
  rw [peek, peek, behind_index?]
  rfl

theorem extract_left (b : Builder) (start stop : Nat) :
    (b.tokens.extract (b.pos + start) (b.pos + stop)).toList = (b.left.drop start).take (stop - start) := by
  have width : b.pos + stop - (b.pos + start) = stop - start := by omega
  simp [left, List.extract_eq_take_drop, List.drop_drop, width]

theorem takeTrivia_eq {run rest : List Token} (split : b.left = run ++ rest) (m : Marker) :
    b.takeTrivia m (b.pos + run.length) =
      ({ b with pos := b.pos + run.length }, m.addTrivia (run.map Leaf.ofToken)) := by
  have trivia : (b.tokens.extract b.pos (b.pos + run.length)).toList = run := by
    have cut := extract_left b 0 run.length
    rw [Nat.add_zero] at cut
    rw [cut, split]
    simp
  rw [Builder.takeTrivia, trivia, Nat.max_eq_right (Nat.le_add_right ..)]

theorem left_skip {run rest : List Token} (split : b.left = run ++ rest) :
    ({ b with pos := b.pos + run.length } : Builder).left = rest := by
  have tail : b.left.drop run.length = rest := by
    rw [split]
    simp
  rw [← tail]
  simp [left, List.drop_drop]

theorem indicesFrom_skip {run : List Token} (blank : ∀ u ∈ run, u.kind.isTrivia = true) (n : Nat)
    (rest : List Token) : indicesFrom n (run ++ rest) = indicesFrom (n + run.length) rest := by
  induction run generalizing n with
  | nil => rfl
  | cons t ts ih =>
    rw [List.cons_append, indicesFrom, if_pos (blank t (List.mem_cons_self ..)),
      ih fun u member => blank u (List.mem_cons_of_mem t member)]
    congr 1
    rw [List.length_cons]
    omega

/-- Trivia may be passed over. -/
theorem Placed.skip (h : b.Placed) {run rest : List Token} (split : b.left = run ++ rest)
    (blank : ∀ u ∈ run, u.kind.isTrivia = true) : ({ b with pos := b.pos + run.length } : Builder).Placed where
  indices := by
    have places := h.indices
    rw [split, indicesFrom_skip blank] at places
    rw [left_skip split]
    exact places
  bound := h.bound
  reach := by
    have long := congrArg List.length split
    have inside := h.reach
    simp only [left, List.length_drop, Array.length_toList, List.length_append] at long
    show b.pos + run.length ≤ b.tokens.size
    omega
  proper := by
    rw [left_skip split]
    exact fun t member => h.proper t (by rw [split]; exact List.mem_append_right run member)
  named := by
    have named := h.named
    rw [split] at named
    rw [left_skip split]
    exact named.append_right

theorem Placed.Next.token (h : Next b t gap) :
    (b.tokens.extract (b.pos + gap.length) (b.pos + gap.length + 1)).toList = [t] := by
  rw [Nat.add_assoc, extract_left, h.split]
  simp

/-- Taking one token moves the trivia in front of it and the token. -/
theorem Placed.Next.take (h : Next b t gap) (m : Marker) (trivia : Bool) :
    b.take m 1 trivia = (b.behind 1 (b.pos + gap.length),
      (m.addTrivia (gap.map Leaf.ofToken)).push (.leaf ⟨t, trivia⟩), .ok ⟨t, trivia⟩) := by
  have last : b.index? ((1 : Nat) - 1) = some (b.pos + gap.length) := h.index
  simp only [Builder.take, h.index, last, takeTrivia_eq h.split, h.token]
  rfl

/-- Taking two tokens that touch moves the trivia in front of them and one operator over both. -/
theorem Placed.Next.take_two (h : Next b t gap) (k : Next (b.behind 1 (b.pos + gap.length)) u []) (m : Marker) :
    b.take m 2 false = (b.behind 2 (b.pos + gap.length + 1),
      (m.addTrivia (gap.map Leaf.ofToken)).push
        (.leaf ⟨⟨.operator, t.start, u.stop, String.join [t.text, u.text]⟩, false⟩),
      .ok ⟨⟨.operator, t.start, u.stop, String.join [t.text, u.text]⟩, false⟩) := by
  have last : b.index? ((2 : Nat) - 1) = some (b.pos + gap.length + 1) := by
    have index := k.index
    rw [behind_index?] at index
    exact index
  have both : (b.tokens.extract (b.pos + gap.length) (b.pos + gap.length + 1 + 1)).toList = [t, u] := by
    have after := k.split
    rw [List.nil_append] at after
    rw [Nat.add_assoc, Nat.add_assoc, extract_left, h.split, after]
    simp
  simp only [Builder.take, h.index, last, takeTrivia_eq h.split, both]
  rfl

/-- Pulling in a comment takes trivia only. -/
theorem bindTrailingComment_eq (b : Builder) (m : Marker) :
    b.bindTrailingComment m = (b, m) ∨ ∃ run rest, b.left = run ++ rest ∧
      (∀ u ∈ run, u.kind.isTrivia = true) ∧ b.bindTrailingComment m =
        ({ b with pos := b.pos + run.length }, m.addTrivia (run.map Leaf.ofToken)) := by
  have first := left_getElem? b 0
  have second := left_getElem? b 1
  rw [Nat.add_zero] at first
  unfold Builder.bindTrailingComment
  cases tokens : b.left with
  | nil =>
    left
    simp [first, tokens]
  | cons t ts =>
    rw [tokens, List.getElem?_cons_zero] at first
    rw [tokens, List.getElem?_cons_succ] at second
    simp only [first, Option.any_some]
    split
    · rename_i blank
      simp only [second]
      split
      · rename_i comment
        cases ts with
        | nil => simp at comment
        | cons u us =>
          right
          have taken : b.left = [t, u] ++ us := tokens
          refine ⟨[t, u], us, rfl, ?_, takeTrivia_eq taken m⟩
          simp only [Bool.and_eq_true, beq_iff_eq] at blank
          simp only [List.getElem?_cons_zero, Option.any_some, beq_iff_eq] at comment
          simp [blank.1, comment, TokenKind.isTrivia]
      · exact .inl rfl
    · simp only [first, Option.any_some]
      split
      · rename_i comment
        right
        have taken : b.left = [t] ++ ts := tokens
        refine ⟨[t], ts, rfl, ?_, takeTrivia_eq taken m⟩
        simp only [beq_iff_eq] at comment
        simp [comment, TokenKind.isTrivia]
      · exact .inl rfl

/-- A snapshot brings the builder back that it was taken of. -/
theorem restore_snapshot {b b' : Builder} (tokens : b'.tokens = b.tokens)
    (significant : b'.significant = b.significant) : b'.restore b.snapshot = b := by
  cases b
  cases b'
  cases tokens
  cases significant
  rfl

/-- The root gets all that is left. -/
theorem finish_eq (b : Builder) (m : Marker) (kind : RawKind) :
    ∃ b', b.finish m kind = (b', m.addTrivia (b.left.map Leaf.ofToken), .node kind none
      ((m.addTrivia (b.left.map Leaf.ofToken)).leading.map .leaf ++
        (m.addTrivia (b.left.map Leaf.ofToken)).children.toList)) := by
  have trivia : (b.tokens.extract b.pos b.tokens.size).toList = b.left := by
    simp only [left, Array.toList_extract, List.extract_eq_take_drop]
    exact List.take_of_length_le (by simp)
  refine ⟨{ b with pos := max b.pos b.tokens.size }, ?_⟩
  rw [Builder.finish, Builder.takeTrivia, trivia]

end Builder

end KotlinSyntax
