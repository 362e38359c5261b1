import KotlinSyntax.Grammar.Primary
import KotlinSyntax.Proofs.Raw
import KotlinSyntax.Proofs.Twin.Token

/-! Raw trees without their trivia. Two markers are alike if they hold the same beside trivia; what the grammar
asks of a marker or an element does not tell alike ones apart. -/
namespace KotlinSyntax

namespace RawElement

def isBlank : RawElement → Bool
  | leaf l => l.token.kind.isTrivia
  | node .. => false

mutual

/-- The element without trivia and without places in the source. -/
def bare : RawElement → RawElement
  | leaf l => leaf ⟨l.token.bare, l.trivia⟩
  | node kind role children => node kind role (bareAll children)

def bareAll : List RawElement → List RawElement
  | [] => []
  | e :: es => if e.isBlank then bareAll es else bare e :: bareAll es

end

theorem bareAll_append (es fs : List RawElement) : bareAll (es ++ fs) = bareAll es ++ bareAll fs := by
  induction es with
  | nil => rfl
  | cons e es ih =>
    rw [List.cons_append, bareAll, bareAll, ih]
    split <;> rfl

theorem bareAll_leaves {ls : List Leaf} (h : ∀ l ∈ ls, l.token.kind.isTrivia = true) :
    bareAll (ls.map leaf) = [] := by
  induction ls with
  | nil => rfl
  | cons l ls ih =>
    have blank : (leaf l).isBlank = true := h l (List.mem_cons_self ..)
    rw [List.map_cons, bareAll, if_pos blank]
    exact ih fun k member => h k (List.mem_cons_of_mem l member)

theorem bareAll_node (kind : RawKind) (role : Option String) (children : List RawElement) :
    bareAll [node kind role children] = [node kind role (bareAll children)] := rfl

theorem bareAll_leaf (l : Leaf) : bareAll [leaf l] = [] ∨ bareAll [leaf l] = [leaf ⟨l.token.bare, l.trivia⟩] := by
  rw [bareAll]
  split
  · exact .inl rfl
  · exact .inr rfl

/-- The kinds of the nodes inside are still there. -/
theorem holdsAny_bareAll (p : RawKind → Bool) (es : List RawElement) : holdsAny p (bareAll es) = holdsAny p es := by
  match es with
  | [] => rfl
  | leaf l :: es =>
    have rest := holdsAny_bareAll p es
    rw [bareAll]
    split
    · rw [rest]
      rfl
    · simp only [holdsAny, rest]
      rfl
  | node kind role children :: es =>
    have inside := holdsAny_bareAll p children
    have rest := holdsAny_bareAll p es
    rw [bareAll, if_neg (by simp [isBlank]), bare]
    simp only [holdsAny, holds, inside, rest]

def isLeafOf (word : String) : RawElement → Bool
  | leaf l => l.token.text == word
  | node .. => false

theorem any_bareAll {es : List RawElement} (calm : ∀ l ∈ leavesAll es, l.token.Calm) :
    (bareAll es).any (isLeafOf "enum") = es.any (isLeafOf "enum") := by
  induction es with
  | nil => rfl
  | cons e es ih =>
    have rest := ih fun l member => calm l (by rw [leavesAll]; exact List.mem_append_right _ member)
    rw [bareAll, List.any_cons]
    split
    · rename_i blank
      cases e with
      | leaf l =>
        have other := calm l (by rw [leavesAll]; exact List.mem_append_left _ (List.mem_singleton.mpr rfl)) blank
        simp [rest, isLeafOf, other]
      | node kind role children => cases blank
    · rw [List.any_cons, rest]
      cases e <;> rfl

end RawElement

open RawElement

namespace Marker

/-- Trivia waits in front of the marker, and none of its trivia looks like a modifier. -/
structure Neat (m : Marker) : Prop where
  leading : ∀ l ∈ m.leading, l.token.kind.isTrivia = true
  calm : ∀ l ∈ m.leaves, l.token.Calm

structure Alike (m n : Marker) : Prop where
  bare : bareAll m.children.toList = bareAll n.children.toList
  isEmpty : m.children.isEmpty = n.children.isEmpty
  neat : m.Neat
  neat' : n.Neat

theorem Neat.absorb {m n : Marker} (h : m.Neat) (k : n.Neat) : (m.absorb n).Neat where
  leading := by
    intro l member
    have split : l ∈ m.leading ∨ l ∈ n.leading := by
      simp only [Marker.absorb, addTrivia] at member
      split at member
      · exact List.mem_append.mp member
      · exact .inl member
    exact split.elim (h.leading l) (k.leading l)
  calm := by
    intro l member
    rw [leaves_absorb] at member
    exact (List.mem_append.mp member).elim (h.calm l) (k.calm l)

theorem bareAll_absorb (m : Marker) {n : Marker} (h : ∀ l ∈ n.leading, l.token.kind.isTrivia = true) :
    bareAll (m.absorb n).children.toList = bareAll m.children.toList ++ bareAll n.children.toList := by
  simp only [absorb, addTrivia]
  split
  · simp [bareAll_append]
  · simp [bareAll_append, bareAll_leaves h]

theorem isEmpty_absorb (m n : Marker) :
    (m.absorb n).children.isEmpty = (m.children.isEmpty && n.children.isEmpty) := by
  simp only [absorb, addTrivia]
  split
  · rename_i empty
    simp [Array.isEmpty_iff.mp empty]
  · rename_i filled
    have some : m.children.isEmpty = false := by simpa using filled
    rw [some, Bool.false_and]
    simpa using fun none => absurd (Array.isEmpty_iff.mpr none) filled

theorem add_eq_absorb (m : Marker) (p : Parsed) : m.add p = m.absorb (ofParsed p) := by
  simp [add, push, absorb, ofParsed]

namespace Alike

variable {m n m' n' : Marker}

theorem start : Alike empty empty := ⟨rfl, rfl, ⟨by simp [empty], by simp⟩, ⟨by simp [empty], by simp⟩⟩

theorem symm (h : Alike m n) : Alike n m := ⟨h.bare.symm, h.isEmpty.symm, h.neat', h.neat⟩

theorem absorb (h : Alike m n) (k : Alike m' n') : Alike (m.absorb m') (n.absorb n') where
  bare := by rw [bareAll_absorb m k.neat.leading, bareAll_absorb n k.neat'.leading, h.bare, k.bare]
  isEmpty := by rw [isEmpty_absorb, isEmpty_absorb, h.isEmpty, k.isEmpty]
  neat := h.neat.absorb k.neat
  neat' := h.neat'.absorb k.neat'

/-- Trivia that one of the markers takes in does not matter. -/
theorem addTrivia (h : Alike m n) {ls : List Leaf} (neat : Neat ⟨ls, #[]⟩) : Alike (m.addTrivia ls) n := by
  have same : m.addTrivia ls = m.absorb ⟨ls, #[]⟩ := by simp [Marker.absorb]
  rw [same]
  refine ⟨?_, ?_, h.neat.absorb neat, h.neat'⟩
  · rw [bareAll_absorb m neat.leading, h.bare]
    exact List.append_nil _
  · rw [isEmpty_absorb, h.isEmpty]
    exact Bool.and_true _

end Alike

end Marker

namespace Parsed

def Alike (p q : Parsed) : Prop := Marker.Alike (.ofParsed p) (.ofParsed q)

variable {p q : Parsed}

/-- One of the elements is a node if and only if the other one is. -/
theorem Alike.cases (h : Alike p q) :
    (∃ l l', p.element = .leaf l ∧ q.element = .leaf l') ∨ ∃ kind role children children',
      p.element = .node kind role children ∧ q.element = .node kind role children' ∧
        bareAll children = bareAll children' := by
  have same : bareAll [p.element] = bareAll [q.element] := h.bare
  cases one : p.element with
  | leaf l =>
    cases two : q.element with
    | leaf l' => exact .inl ⟨l, l', rfl, rfl⟩
    | node kind role children =>
      rw [one, two, bareAll_node] at same
      rcases bareAll_leaf l with is | is <;> rw [is] at same <;> cases same
  | node kind role children =>
    cases two : q.element with
    | leaf l' =>
      rw [one, two, bareAll_node] at same
      rcases bareAll_leaf l' with is | is <;> rw [is] at same <;> cases same
    | node kind' role' children' =>
      rw [one, two, bareAll_node, bareAll_node] at same
      injection same with head
      injection head with sameKind sameRole below
      subst sameKind sameRole
      exact .inr ⟨kind, role, children, children', rfl, rfl, below⟩

/-- A node of alike markers. -/
theorem Alike.node {m n : Marker} (h : Marker.Alike m n) (kind : RawKind) (role : Option String) :
    Alike ⟨m.leading, .node kind role m.children.toList⟩ ⟨n.leading, .node kind role n.children.toList⟩ where
  bare := by
    have below := h.bare
    simp only [Marker.ofParsed, bareAll_node, below]
  isEmpty := rfl
  neat := ⟨h.neat.leading, by rw [Marker.leaves_ofParsed]; exact h.neat.calm⟩
  neat' := ⟨h.neat'.leading, by rw [Marker.leaves_ofParsed]; exact h.neat'.calm⟩

theorem Alike.withRole (h : Alike p q) (role : String) : Alike (p.withRole role) (q.withRole role) := by
  obtain ⟨leading, element⟩ := p
  obtain ⟨leading', element'⟩ := q
  rcases h.cases with ⟨l, l', rfl, rfl⟩ | ⟨kind, old, children, children', rfl, rfl, same⟩
  · exact h
  · refine ⟨?_, rfl, ?_, ?_⟩
    · simp only [Marker.ofParsed, Parsed.withRole, bareAll_node, same]
    · exact ⟨h.neat.leading, h.neat.calm⟩
    · exact ⟨h.neat'.leading, h.neat'.calm⟩

theorem Alike.holdsTypeArguments (h : Alike p q) : Grammar.holdsTypeArguments p = Grammar.holdsTypeArguments q := by
  unfold Grammar.holdsTypeArguments
  rcases h.cases with ⟨l, l', one, two⟩ | ⟨kind, role, children, children', one, two, same⟩
  · rw [one, two]
    rfl
  · rw [one, two, holds, holds, ← holdsAny_bareAll _ children, same, holdsAny_bareAll]

end Parsed

theorem Marker.Alike.add {m n : Marker} {p q : Parsed} (h : Marker.Alike m n) (k : p.Alike q) :
    Marker.Alike (m.add p) (n.add q) := by
  rw [Marker.add_eq_absorb, Marker.add_eq_absorb]
  exact h.absorb k

theorem Marker.Alike.add? {m n : Marker} {p q : Option Parsed} (h : Marker.Alike m n)
    (k : Option.Rel Parsed.Alike p q) : Marker.Alike (m.add? p) (n.add? q) := by
  cases k with
  | none => exact h
  | some alike => exact h.add alike

theorem hasModifier_node (leading : List Leaf) (kind : RawKind) (role : Option String) (children : List RawElement)
    (word : String) :
    Grammar.hasModifier (some ⟨leading, .node kind role children⟩) word = children.any (isLeafOf word) := by
  refine congrArg children.any (funext fun e => ?_)
  cases e <;> rfl

theorem hasModifier_eq {p q : Option Parsed} (h : Option.Rel Parsed.Alike p q) :
    Grammar.hasModifier p "enum" = Grammar.hasModifier q "enum" := by
  cases h with
  | none => rfl
  | @some p q alike =>
    obtain ⟨leading, element⟩ := p
    obtain ⟨leading', element'⟩ := q
    rcases alike.cases with ⟨l, l', rfl, rfl⟩ | ⟨kind, role, children, children', rfl, rfl, same⟩
    · rfl
    · have calm : ∀ l ∈ leavesAll children, l.token.Calm := fun l member =>
        alike.neat.calm l (by rw [Marker.leaves_ofParsed]; exact List.mem_append_right leading member)
      have calm' : ∀ l ∈ leavesAll children', l.token.Calm := fun l member =>
        alike.neat'.calm l (by rw [Marker.leaves_ofParsed]; exact List.mem_append_right leading' member)
      rw [hasModifier_node, hasModifier_node, ← any_bareAll calm, ← any_bareAll calm', same]

end KotlinSyntax
