import KotlinSyntax.Proofs.Apart.Gap
import KotlinSyntax.Proofs.Grammar.Building

/-! Trimmed nodes. A node begins with a part and ends with one, but for the comment that a declaration holds at the
end of its line. A marker may have trivia at its end for a while, never at its start. -/
namespace KotlinSyntax

/-- Declarations hold the comment that ends their last line. -/
def RawKind.bindsComment (kind : RawKind) : Bool :=
  [.classDeclaration, .classInitializer, .secondaryConstructor, .function, .property, .typeAlias].contains kind

/-- A line comment, with at most one blank in front of it that does not end the line. -/
inductive EndsLine : List RawElement → Prop
  | comment {t : Token} (isComment : t.kind = .lineComment) : EndsLine [.leaf (.ofToken t)]
  | blank {s t : Token} (isBlank : s.kind = .whitespace) (stays : '\n' ∉ s.text.toList)
      (isComment : t.kind = .lineComment) : EndsLine [.leaf (.ofToken s), .leaf (.ofToken t)]

/-- The first child is a part, and so is the last one or the one in front of a comment that ends the line. -/
structure Trimmed (kind : RawKind) (children : List RawElement) : Prop where
  first : ∃ e rest, children = e :: rest ∧ e.isTrivia = false
  last : ∃ front e tail, children = front ++ e :: tail ∧ e.isTrivia = false ∧
    (tail = [] ∨ kind.bindsComment = true ∧ EndsLine tail)

structure Parsed.Tidy (p : Parsed) : Prop where
  part : p.element.isTrivia = false
  trimmed : p.element.All Trimmed

namespace Marker

structure Begun (m : Marker) : Prop where
  first : ∀ e ∈ m.children.toList.head?, e.isTrivia = false
  trimmed : ∀ e ∈ m.children.toList, e.All Trimmed

structure Tidy (m : Marker) : Prop extends Begun m where
  last : ∀ e ∈ m.children.toList.getLast?, e.isTrivia = false

structure Full (m : Marker) : Prop extends Tidy m where
  filled : m.children ≠ #[]

variable {m n : Marker} {p : Parsed} {e : RawElement} {ls : List Leaf}

theorem Tidy.empty : Tidy .empty := by
  constructor
  · constructor
    · simp [Marker.empty]
    · simp [Marker.empty]
  · simp [Marker.empty]

theorem Tidy.ofParsed (given : p.Tidy) : Tidy (.ofParsed p) := by
  have only : (Marker.ofParsed p).children.toList = [p.element] := rfl
  constructor
  · constructor
    · rw [only]
      simpa using given.part
    · exact forall_ofParsed.mpr given.trimmed
  · rw [only]
    simpa using given.part

theorem toList_addTrivia (filled : m.children ≠ #[]) (ls : List Leaf) :
    (m.addTrivia ls).children.toList = m.children.toList ++ ls.map .leaf := by
  simp [Marker.addTrivia, filled]

theorem Begun.addTrivia (h : m.Begun) (ls : List Leaf) : (m.addTrivia ls).Begun := by
  constructor
  · by_cases filled : m.children = #[]
    · simp [Marker.addTrivia, filled]
    · rw [toList_addTrivia filled, List.head?_append_of_ne_nil _ (by simpa using filled)]
      exact h.first
  · exact forall_addTrivia h.trimmed fun l _ => .leaf l

/-- What comes last ends with a part, and begins with one in case nothing is in front of it. -/
theorem Begun.append {es : List RawElement} (h : m.Begun) (children : n.children.toList = m.children.toList ++ es)
    (some : es ≠ []) (first : ∀ e ∈ es.head?, e.isTrivia = false) (last : ∀ e ∈ es.getLast?, e.isTrivia = false)
    (trimmed : ∀ e ∈ es, e.All Trimmed) : n.Full := by
  constructor
  · constructor
    · constructor
      · intro e member
        rw [children, List.head?_append, Option.mem_def, Option.or_eq_some_iff] at member
        rcases member with member | ⟨-, member⟩
        · exact h.first e member
        · exact first e member
      · intro e member
        rw [children] at member
        exact (List.mem_append.mp member).elim (h.trimmed e) (trimmed e)
    · rw [children, List.getLast?_append_of_ne_nil _ some]
      exact last
  · intro none
    rw [none] at children
    exact some (List.append_eq_nil_iff.mp children.symm).2

theorem Begun.push (h : m.Begun) (part : e.isTrivia = false) (trimmed : e.All Trimmed) : (m.push e).Full := by
  have children : (m.push e).children.toList = m.children.toList ++ [e] := Array.toList_push
  apply h.append children (List.cons_ne_nil e [])
  · simpa using part
  · simpa using part
  · simpa using trimmed

theorem Begun.add_full (h : m.Begun) (given : p.Tidy) : (m.add p).Full :=
  (h.addTrivia p.leading).push given.part given.trimmed

theorem Begun.add (h : m.Begun) (given : p.Tidy) : (m.add p).Tidy := (h.add_full given).toTidy

theorem Tidy.add? {o : Option Parsed} (h : m.Tidy) (given : ∀ p ∈ o, p.Tidy) : (m.add? o).Tidy := by
  cases o with
  | none => exact h
  | some p => exact h.add (given p rfl)

/-- Behind a part a leaf that counts as trivia may come. -/
theorem Begun.pushLeaf (h : m.Begun) (filled : m.children ≠ #[]) (l : Leaf) : (m.push (.leaf l)).Begun := by
  have children : (m.push (.leaf l)).children.toList = m.children.toList ++ [.leaf l] := Array.toList_push
  constructor
  · intro x member
    rw [children, List.head?_append_of_ne_nil _ (by simpa using filled)] at member
    exact h.first x member
  · exact forall_push h.trimmed (.leaf l)

/-- What is taken over ends with a part, and there is something in it. -/
theorem Begun.absorb (h : m.Begun) (k : n.Full) : (m.absorb n).Tidy := by
  have children : (m.absorb n).children.toList = (m.addTrivia n.leading).children.toList ++ n.children.toList :=
    Array.toList_append
  have some : n.children.toList ≠ [] := by simpa using k.filled
  exact ((h.addTrivia n.leading).append children some k.first k.last k.trimmed).toTidy

/-! Finishing nodes. -/

theorem Begun.opens (h : m.Begun) (filled : m.children ≠ #[]) :
    ∃ e rest, m.children.toList = e :: rest ∧ e.isTrivia = false := by
  have first := h.first
  cases children : m.children.toList with
  | nil => exact absurd (Array.toList_eq_nil_iff.mp children) filled
  | cons e rest =>
    rw [children] at first
    exact ⟨e, rest, rfl, first e rfl⟩

theorem Tidy.closes (h : m.Tidy) (filled : m.children ≠ #[]) :
    ∃ front e, m.children.toList = front ++ [e] ∧ e.isTrivia = false := by
  have last := h.last
  rcases List.eq_nil_or_concat m.children.toList with children | ⟨front, e, children⟩
  · exact absurd (Array.toList_eq_nil_iff.mp children) filled
  · rw [List.concat_eq_append] at children
    rw [children, List.getLast?_concat] at last
    exact ⟨front, e, children, last e rfl⟩

theorem Tidy.of_done {kind : RawKind} {role : Option String} (h : m.Tidy) (made : m.done kind role = .ok p) : p.Tidy := by
  unfold Marker.done at made
  split at made
  · cases made
  · rename_i filled
    cases made
    obtain ⟨front, e, children, part⟩ := h.closes (by simpa using filled)
    have last : Trimmed kind m.children.toList := ⟨h.opens (by simpa using filled), front, e, [], children, part, .inl rfl⟩
    exact ⟨rfl, .node kind role _ last h.trimmed⟩

/-- A declaration may end with a comment. -/
theorem Tidy.of_doneBound {kind : RawKind} {role : Option String} (h : m.Tidy) (ends : EndsLine (ls.map .leaf))
    (binds : kind.bindsComment = true) (made : (m.addTrivia ls).done kind role = .ok p) : p.Tidy := by
  unfold Marker.done at made
  split at made
  · cases made
  · rename_i filled
    cases made
    have some : m.children ≠ #[] := by
      intro none
      simp [Marker.addTrivia, none] at filled
    obtain ⟨front, e, split, part⟩ := h.closes some
    have last : (m.addTrivia ls).children.toList = front ++ e :: ls.map .leaf := by
      rw [toList_addTrivia some, split, List.append_assoc]
      rfl
    have bound := h.addTrivia ls
    have trimmed : Trimmed kind (m.addTrivia ls).children.toList :=
      ⟨bound.opens (by simpa using filled), front, e, _, last, part, .inr ⟨binds, ends⟩⟩
    exact ⟨rfl, .node kind role _ trimmed bound.trimmed⟩

end Marker

theorem Parsed.Tidy.withRole {p : Parsed} (h : p.Tidy) (role : String) : (p.withRole role).Tidy := by
  obtain ⟨leading, element⟩ := p
  cases element with
  | leaf l => exact h
  | node kind old children =>
    cases h.trimmed with
    | node _ _ _ here below => exact ⟨rfl, .node kind (some role) children here below⟩

/-- What is pulled in ends the line. -/
theorem Builder.bindTrailingComment_endsLine (b : Builder) (m : Marker) : (b.bindTrailingComment m).2 = m ∨
    ∃ ls : List Leaf, EndsLine (ls.map .leaf) ∧ (b.bindTrailingComment m).2 = m.addTrivia ls := by
  have first := left_getElem? b 0
  have second := left_getElem? b 1
  rw [Nat.add_zero] at first
  unfold Builder.bindTrailingComment
  cases tokens : b.left with
  | nil =>
    left
    simp [first, tokens]
  | cons s ts =>
    rw [tokens, List.getElem?_cons_zero] at first
    rw [tokens, List.getElem?_cons_succ] at second
    simp only [first, Option.any_some]
    split
    · rename_i blank
      simp only [second]
      split
      · rename_i comment
        cases ts with
        | nil => simp at comment
        | cons t us =>
          right
          have taken : b.left = [s, t] ++ us := tokens
          simp only [Bool.and_eq_true, beq_iff_eq, Bool.not_eq_true'] at blank
          simp only [List.getElem?_cons_zero, Option.any_some, beq_iff_eq] at comment
          have stays : '\n' ∉ s.text.toList := by simpa [Token.breaksLine, blank.1] using blank.2
          exact ⟨[.ofToken s, .ofToken t], .blank blank.1 stays comment, congrArg Prod.snd (takeTrivia_eq taken m)⟩
      · exact .inl rfl
    · simp only [first, Option.any_some]
      split
      · rename_i comment
        right
        have taken : b.left = [s] ++ ts := tokens
        exact ⟨[.ofToken s], .comment (by simpa using comment), congrArg Prod.snd (takeTrivia_eq taken m)⟩
      · exact .inl rfl

end KotlinSyntax
