import KotlinSyntax.Proofs.Builder
import KotlinSyntax.Proofs.Grammar.Logic
import KotlinSyntax.Proofs.Shape

/-! Nodes under construction. A marker that was begun at one builder and stands at a later one holds exactly
the tokens between the two. What the combinators of the grammar do to such a marker is said here once. -/
namespace KotlinSyntax

open Builder RawElement

namespace Marker

variable {P : RawElement → Prop} {m n : Marker} {e : RawElement}

/-! What holds of each child. -/

theorem forall_addTrivia {trivia : List Leaf} (h : ∀ x ∈ m.children.toList, P x) (leaves : ∀ l ∈ trivia, P (.leaf l)) :
    ∀ x ∈ (m.addTrivia trivia).children.toList, P x := by
  unfold addTrivia
  split
  · exact h
  · intro x member
    have split : x ∈ m.children.toList ∨ ∃ l ∈ trivia, RawElement.leaf l = x := by simpa using member
    rcases split with member | ⟨l, inside, rfl⟩
    · exact h x member
    · exact leaves l inside

theorem forall_push (h : ∀ x ∈ m.children.toList, P x) (last : P e) : ∀ x ∈ (m.push e).children.toList, P x := by
  intro x member
  have split : x ∈ m.children.toList ∨ x = e := by simpa [push] using member
  rcases split with member | rfl
  · exact h x member
  · exact last

theorem forall_absorb (h : ∀ x ∈ m.children.toList, P x) (leaves : ∀ l ∈ n.leading, P (.leaf l))
    (k : ∀ x ∈ n.children.toList, P x) : ∀ x ∈ (m.absorb n).children.toList, P x := by
  intro x member
  have split : x ∈ (m.addTrivia n.leading).children.toList ∨ x ∈ n.children.toList := by
    simpa [absorb] using member
  rcases split with member | member
  · exact forall_addTrivia h leaves x member
  · exact k x member

theorem forall_ofParsed {p : Parsed} : (∀ x ∈ (ofParsed p).children.toList, P x) ↔ P p.element := by
  simp [ofParsed]

theorem addTrivia_sound (h : ∀ x ∈ m.children.toList, Sound x) {trivia : List Leaf}
    (blank : ∀ l ∈ trivia, l.Blank) : ∀ x ∈ (m.addTrivia trivia).children.toList, Sound x :=
  forall_addTrivia h fun l inside => .leaf l fun _ => (blank l inside).unmarked

end Marker

namespace Grammar

/-- The marker holds the tokens between two builders, and the parts beside trivia are the given ones. -/
structure Built (b₀ b : Builder) (m : Marker) (es : List RawElement) : Prop where
  origin : b₀.Placed
  placed : b.Placed
  tokens : b.tokens = b₀.tokens
  significant : b.significant = b₀.significant
  tiles : ∃ used, b₀.left = used ++ b.left ∧ Tiles m.leaves used
  leading : ∀ l ∈ m.leading, l.Blank
  parts : m.parts = es
  /-- No trivia is taken without a part behind it. -/
  bare : es = [] → m = .empty
  sound : ∀ e ∈ m.children.toList, Sound e
  /-- Each part took at least one significant token. -/
  spent : b.remaining + es.length ≤ b₀.remaining

structure Gives (P : RawElement → Prop) (b₀ : Builder) (p : Parsed) (b : Builder) : Prop where
  built : Built b₀ b (.ofParsed p) [p.element]
  holds : P p.element

def Perhaps (P : RawElement → Prop) (b₀ : Builder) : Option Parsed → Builder → Prop :=
  Maybe (Gives P b₀) (· = b₀)

abbrev Ordinary (e : RawElement) : Prop := e.isOrdinary = true

variable {b₀ b b' : Builder} {m : Marker} {es fs : List RawElement} {p : Parsed} {t : Token} {gap : List Token}
  {scope : Scope} {P Q : RawElement → Prop}

theorem ofTokens_trivia {gap : List Token} (blank : ∀ u ∈ gap, u.kind.isTrivia = true) :
    ∀ l ∈ gap.map Leaf.ofToken, l.Blank := by
  intro l member
  obtain ⟨u, inside, rfl⟩ := List.mem_map.mp member
  exact ⟨blank u inside, blank u inside⟩

namespace Built

theorem start (placed : b.Placed) : Built b b .empty [] where
  origin := placed
  placed := placed
  tokens := rfl
  significant := rfl
  tiles := ⟨[], rfl, .nil⟩
  leading := by simp [Marker.empty]
  parts := rfl
  bare _ := rfl
  sound := by simp [Marker.empty]
  spent := Nat.le_refl _

theorem le (h : Built b₀ b m es) : b.remaining ≤ b₀.remaining := by
  have := h.spent
  omega

theorem lt (h : Built b₀ b m es) (some : es ≠ []) : b.remaining < b₀.remaining := by
  have := h.spent
  have := List.length_pos_iff.mpr some
  omega

/-- A marker without parts has not moved. -/
theorem eq_start (h : Built b₀ b m []) : b = b₀ := by
  obtain ⟨used, split, tiled⟩ := h.tiles
  rw [h.bare rfl] at tiled
  rw [tiled.eq_nil, List.nil_append] at split
  exact h.placed.eq_of_left h.origin h.tokens h.significant split.symm

/-- Trivia and a part behind it are added. -/
theorem extend {ls : List Leaf} {e : RawElement} (used : List Token) (h : Built b₀ b m es) (placed : b'.Placed)
    (tokens : b'.tokens = b.tokens) (significant : b'.significant = b.significant)
    (split : b.left = used ++ b'.left) (tiled : Tiles (ls ++ e.leaves) used)
    (trivia : ∀ l ∈ ls, l.Blank) (part : e.isTrivia = false) (sound : Sound e)
    (less : b'.remaining + 1 ≤ b.remaining) : Built b₀ b' ((m.addTrivia ls).push e) (es ++ [e]) where
  origin := h.origin
  placed := placed
  tokens := tokens.trans h.tokens
  significant := significant.trans h.significant
  tiles := by
    obtain ⟨before, parts, tiles⟩ := h.tiles
    refine ⟨before ++ used, by rw [parts, split, List.append_assoc], ?_⟩
    rw [Marker.leaves_push, Marker.leaves_addTrivia, List.append_assoc]
    exact tiles.append tiled
  leading := Marker.leading_addTrivia m trivia h.leading
  parts := by rw [Marker.parts_push _ part, Marker.parts_addTrivia m trivia, h.parts]
  bare none := by simp at none
  sound := Marker.forall_push (Marker.addTrivia_sound h.sound trivia) sound
  spent := by
    have := h.spent
    rw [List.length_append, List.length_singleton]
    omega

theorem token (h : Built b₀ b m es) (next : Placed.Next b t gap) :
    Built b₀ (b.behind 1 (b.pos + gap.length))
      ((m.addTrivia (gap.map Leaf.ofToken)).push (.leaf ⟨t, false⟩)) (es ++ [.leaf ⟨t, false⟩]) := by
  refine h.extend (gap ++ [t]) next.placed rfl rfl ?_ ?_ (ofTokens_trivia next.blank) rfl (.leaf _ nofun)
    (Nat.le_of_eq next.remaining)
  · rw [next.split, List.append_assoc]
    rfl
  · exact (Tiles.ofTokens gap).append (.token t false .nil)

/-- A token that counts as trivia is no part. -/
theorem tokenAsTrivia (h : Built b₀ b m es) (some : es ≠ []) (next : Placed.Next b t gap)
    (unmarked : t.kind.isMark = false) :
    Built b₀ (b.behind 1 (b.pos + gap.length))
      ((m.addTrivia (gap.map Leaf.ofToken)).push (.leaf ⟨t, true⟩)) es where
  origin := h.origin
  placed := next.placed
  tokens := h.tokens
  significant := h.significant
  tiles := by
    obtain ⟨before, parts, tiles⟩ := h.tiles
    refine ⟨before ++ (gap ++ [t]), ?_, ?_⟩
    · rw [parts, next.split]
      simp
    · rw [Marker.leaves_push, Marker.leaves_addTrivia, List.append_assoc]
      exact tiles.append ((Tiles.ofTokens gap).append (.token t true .nil))
  leading := Marker.leading_addTrivia m (ofTokens_trivia next.blank) h.leading
  parts := by
    rw [Marker.parts_push_trivia _ rfl, Marker.parts_addTrivia m (ofTokens_trivia next.blank), h.parts]
  bare none := absurd none some
  sound := Marker.forall_push (Marker.addTrivia_sound h.sound (ofTokens_trivia next.blank))
    (.leaf _ fun _ => unmarked)
  spent := by
    have := h.spent
    have := next.remaining
    omega

/-- One operator over two words that touch. -/
theorem glued {u : Token} (h : Built b₀ b m es) (first : Placed.Next b t gap)
    (second : Placed.Next (b.behind 1 (b.pos + gap.length)) u []) (word : t.isWord = true)
    (other : u.isWord = true) (op : Token) (joined : Token.glue? [t, u] = some op) :
    Built b₀ (b.behind 2 (b.pos + gap.length + 1))
      ((m.addTrivia (gap.map Leaf.ofToken)).push (.leaf ⟨op, false⟩)) (es ++ [.leaf ⟨op, false⟩]) := by
  refine h.extend (gap ++ [t, u]) second.placed rfl rfl ?_ ?_ (ofTokens_trivia first.blank) rfl
    (.leaf _ nofun) ?_
  · have rest := second.split
    rw [List.nil_append] at rest
    rw [first.split, rest, List.append_assoc]
    rfl
  · refine (Tiles.ofTokens gap).append ?_
    exact .glued [t, u] op (Nat.le_refl _) (by simp [word, other]) joined .nil
  · have := first.remaining
    have same : ((b.behind 1 (b.pos + gap.length)).behind 1 (b.pos + gap.length + 1)).remaining =
      (b.behind 2 (b.pos + gap.length + 1)).remaining := rfl
    have less : (b.behind 2 (b.pos + gap.length + 1)).remaining + 1 =
      (b.behind 1 (b.pos + gap.length)).remaining := second.remaining
    omega

theorem leading_of_ofParsed (h : Built b₀ b (.ofParsed p) [p.element]) : ∀ l ∈ p.leading, l.Blank :=
  h.leading

theorem part_of_ofParsed (h : Built b₀ b (.ofParsed p) [p.element]) : p.element.isTrivia = false := by
  have parts := h.parts
  simp only [Marker.parts, Marker.ofParsed, RawElement.significant, List.filter_cons, List.filter_nil] at parts
  by_cases trivia : p.element.isTrivia = true
  · simp [trivia] at parts
  · simpa using trivia

theorem sound_of_ofParsed (h : Built b₀ b (.ofParsed p) [p.element]) : Sound p.element :=
  Marker.forall_ofParsed.mp h.sound

theorem add (h : Built b₀ b m es) (given : Built b b' (.ofParsed p) [p.element]) :
    Built b₀ b' (m.add p) (es ++ [p.element]) := by
  obtain ⟨used, split, tiled⟩ := given.tiles
  rw [Marker.leaves_ofParsed] at tiled
  exact h.extend used given.placed given.tokens given.significant split tiled given.leading_of_ofParsed
    given.part_of_ofParsed given.sound_of_ofParsed given.spent

/-- One marker takes over what another one gathered behind it. -/
theorem absorb {n : Marker} (h : Built b₀ b m es) (k : Built b b' n fs) :
    Built b₀ b' (m.absorb n) (es ++ fs) where
  origin := h.origin
  placed := k.placed
  tokens := k.tokens.trans h.tokens
  significant := k.significant.trans h.significant
  tiles := by
    obtain ⟨before, first, tiles⟩ := h.tiles
    obtain ⟨used, second, tiled⟩ := k.tiles
    refine ⟨before ++ used, by rw [first, second, List.append_assoc], ?_⟩
    rw [Marker.leaves_absorb]
    exact tiles.append tiled
  leading := Marker.leading_addTrivia m k.leading h.leading
  parts := by
    have gathered := Marker.parts_addTrivia m k.leading
    simp only [Marker.parts] at gathered
    simp only [Marker.parts, Marker.absorb, Array.toList_append, significant_append, gathered]
    rw [← h.parts, ← k.parts]
    rfl
  bare none := by
    obtain ⟨first, second⟩ := List.append_eq_nil_iff.mp none
    rw [h.bare first, k.bare second]
    rfl
  sound := Marker.forall_absorb h.sound (fun l inside => .leaf l fun _ => (k.leading l inside).unmarked) k.sound
  spent := by
    have := h.spent
    have := k.spent
    rw [List.length_append]
    omega

/-- A finished node. -/
theorem node (h : Built b₀ b m es) {kind : RawKind} (role : Option String) (some : es ≠ [])
    (fits : Fits kind es) :
    Built b₀ b (.ofParsed ⟨m.leading, .node kind role m.children.toList⟩)
      [.node kind role m.children.toList] where
  origin := h.origin
  placed := h.placed
  tokens := h.tokens
  significant := h.significant
  tiles := by
    obtain ⟨used, split, tiled⟩ := h.tiles
    refine ⟨used, split, ?_⟩
    rw [Marker.leaves_ofParsed]
    exact tiled
  leading := h.leading
  parts := rfl
  bare := nofun
  sound := by
    refine Marker.forall_ofParsed.mpr (.node kind role _ ?_ h.sound)
    have parts : RawElement.significant m.children.toList = es := h.parts
    rw [parts]
    exact fits
  spent := by
    have := h.lt some
    rw [List.length_singleton]
    omega

theorem withRole (h : Built b₀ b (.ofParsed p) [p.element]) (role : String) :
    Built b₀ b (.ofParsed (p.withRole role)) [(p.withRole role).element] := by
  obtain ⟨leading, element⟩ := p
  cases element with
  | leaf l => exact h
  | node kind old children =>
    refine ⟨h.origin, h.placed, h.tokens, h.significant, h.tiles, h.leading, rfl, nofun,
      Marker.forall_ofParsed.mpr ?_, h.spent⟩
    cases h.sound_of_ofParsed with
    | node _ _ _ fits below => exact .node kind (some role) children fits below

end Built

end Grammar

end KotlinSyntax
