import KotlinSyntax.Proofs.Apart.Gap

/-! The place where an operand and what is done to it are joined: the operator, the bracket or the arguments behind
it. No semicolon comes between the two, and the end of a line does only in front of some operators. -/
namespace KotlinSyntax

/-- Trivia by its kind and by its standing. -/
def Leaf.Void (l : Leaf) : Prop := l.trivia = true ∧ l.token.kind.isTrivia = true

def RawKind.isOperation : RawKind → Bool
  | .binaryExpression | .infixExpression | .binaryWithType | .postfixExpression | .arrayAccessExpression
  | .callExpression => true
  | _ => false

/-- The operators that may begin a line. -/
def lineOperators : List String := [".", "?.", "?:", "&&", "||", "as", "as?"]

namespace RawElement

open Token

def Opens (ls : List Leaf) : Prop := ∃ l rest, ls = l :: rest ∧ l.trivia = false

/-- What stands as trivia at the end is trivia by its kind, too. -/
def Firm (ls : List Leaf) : Prop := ∀ l ∈ ls.rtakeWhile (·.trivia), l.token.kind.isTrivia = true

/-- The leaves between the last leaf of an element that is no trivia and the first such leaf behind it. -/
def between (e : RawElement) (behind : List RawElement) : List Leaf :=
  e.leaves.rtakeWhile (·.trivia) ++ (leavesAll behind).takeWhile (·.trivia)

/-- The first child is an operand, and what comes behind it stands on the same line or leads the next one. -/
def Joined (children : List RawElement) : Prop :=
  ∃ operand behind next, children = operand :: behind ∧ (∃ l ∈ operand.leaves, l.trivia = false) ∧
    (leavesAll behind).find? (!·.trivia) = some next ∧
    ∀ l ∈ between operand behind, l.token.kind ≠ .semicolon ∧
      (l.token.breaksLine = true → next.token.text ∈ lineOperators)

variable {ls ms : List Leaf} {e next : RawElement}

theorem Opens.append (h : Opens ls) (ms : List Leaf) : Opens (ls ++ ms) := by
  obtain ⟨l, rest, rfl, part⟩ := h
  exact ⟨l, rest ++ ms, rfl, part⟩

theorem Opens.part (h : Opens ls) : ∃ l ∈ ls, l.trivia = false := by
  obtain ⟨l, rest, rfl, part⟩ := h
  exact ⟨l, List.mem_cons_self .., part⟩

theorem Opens.isTrivia (h : Opens e.leaves) : e.isTrivia = false := by
  cases e with
  | leaf l =>
    obtain ⟨k, rest, same, part⟩ := h
    cases same
    exact part
  | node => rfl

/-- Behind a leaf that is no trivia, what came before does not matter. -/
theorem Firm.behind (h : Firm ms) (part : ∃ l ∈ ms, l.trivia = false) (ls : List Leaf) : Firm (ls ++ ms) := by
  have some : (ms.reverse.takeWhile (·.trivia)).length ≠ ms.reverse.length := by
    intro whole
    obtain ⟨l, member, is⟩ := part
    rw [← List.mem_reverse, ← (List.takeWhile_prefix _).eq_of_length whole] at member
    rw [List.mem_takeWhile_imp member] at is
    cases is
  intro l member
  rw [List.rtakeWhile, List.reverse_append, List.takeWhile_append, if_neg some] at member
  exact h l member

theorem Firm.append (h : Firm ls) (k : Firm ms) : Firm (ls ++ ms) := by
  by_cases part : ∃ l ∈ ms, l.trivia = false
  · exact k.behind part ls
  · have blank : ∀ l ∈ ms, l.trivia = true := by simpa using part
    have all : ms.rtakeWhile (·.trivia) = ms := List.rtakeWhile_eq_self_iff.mpr blank
    intro l member
    rw [List.rtakeWhile, List.reverse_append, List.takeWhile_append_of_pos (by simpa using blank),
      List.reverse_append, List.reverse_reverse, ← List.rtakeWhile] at member
    rcases List.mem_append.mp member with member | member
    · exact h l member
    · exact k l (all.symm ▸ member)

theorem Firm.of_append (h : Firm (ls ++ ms)) : Firm ms := by
  intro l member
  apply h
  rw [List.rtakeWhile, List.mem_reverse] at member ⊢
  rw [List.reverse_append, List.takeWhile_append]
  split
  · exact List.mem_append_left _ ((List.takeWhile_prefix _).subset member)
  · exact member

theorem Firm.of_void (void : ∀ l ∈ ls, l.Void) : Firm ls :=
  fun l member => (void l ((List.rtakeWhile_suffix ..).subset member)).2

/-- What stands as trivia at the end is among what is trivia by its kind. -/
theorem Firm.subset (h : Firm ls) : ∀ l ∈ ls.rtakeWhile (·.trivia), l.token ∈ trailing (ls.map (·.token)) := by
  intro l member
  obtain ⟨front, split⟩ := List.rtakeWhile_suffix (fun l : Leaf => l.trivia) ls
  rw [← split, List.map_append, trailing_append_of_blank]
  · exact List.mem_append_right _ (List.mem_map_of_mem member)
  · intro t inside
    obtain ⟨k, among, rfl⟩ := List.mem_map.mp inside
    exact h k among

/-- More children behind what is joined to the operand change nothing. -/
theorem Joined.append {children : List RawElement} (h : Joined children) (more : List RawElement) :
    Joined (children ++ more) := by
  obtain ⟨operand, behind, next, rfl, part, found, fine⟩ := h
  refine ⟨operand, behind ++ more, next, rfl, part, ?_, ?_⟩
  · rw [leavesAll_append, List.find?_append, found]
    rfl
  · have stops : ((leavesAll behind).takeWhile (·.trivia)).length ≠ (leavesAll behind).length := by
      intro whole
      have member := List.mem_of_find?_eq_some found
      rw [← (List.takeWhile_prefix _).eq_of_length whole] at member
      have is := List.find?_some found
      rw [List.mem_takeWhile_imp member] at is
      cases is
    rw [between, leavesAll_append, List.takeWhile_append, if_neg stops]
    exact fine

/-- What the builder sees in front of the second element is what the tree has between the two. -/
theorem Joined.of_gap {leading rest : List Leaf} {first : Leaf} (firm : Firm e.leaves)
    (part : ∃ l ∈ e.leaves, l.trivia = false) (void : ∀ l ∈ leading, l.Void) (begins : next.leaves = first :: rest)
    (solid : first.trivia = false) (fine : ∀ t ∈ gap (e :: leading.map .leaf) next, t.kind ≠ .semicolon ∧
      (t.breaksLine = true → first.token.text ∈ lineOperators)) :
    Joined (e :: (leading.map .leaf ++ [next])) := by
  have blank : ∀ l ∈ leading, l.trivia = true := fun l member => (void l member).1
  have behind : leavesAll (leading.map .leaf ++ [next]) = leading ++ first :: rest := by
    rw [leavesAll_append, leavesAll_leaves, leavesAll, leavesAll, begins, List.append_nil]
  have taken : (leavesAll (leading.map .leaf ++ [next])).takeWhile (·.trivia) = leading := by
    rw [behind, List.takeWhile_append_of_pos blank]
    simp [solid]
  refine ⟨e, leading.map .leaf ++ [next], first, rfl, part, ?_, ?_⟩
  · have none : leading.find? (!·.trivia) = none := List.find?_eq_none.mpr fun l member => by simp [blank l member]
    rw [behind, List.find?_append, none]
    simp [solid]
  · intro l member
    apply fine
    have whole : ∀ t ∈ leading.map (·.token), t.kind.isTrivia = true := by
      intro t inside
      obtain ⟨k, among, rfl⟩ := List.mem_map.mp inside
      exact (void k among).2
    rw [gap, leavesAll, leavesAll_leaves, List.map_append, trailing_append_of_blank whole]
    rw [between, taken] at member
    apply List.mem_append_left
    rcases List.mem_append.mp member with member | member
    · exact List.mem_append_left _ (firm.subset l member)
    · exact List.mem_append_right _ (List.mem_map_of_mem member)

end RawElement

end KotlinSyntax
