import KotlinSyntax.Proofs.Apart.Joint
import KotlinSyntax.Proofs.Grammar.Combinator
import KotlinSyntax.Proofs.Plan.Logic

/-! Building nodes that keep the law: no tokens are skipped in them, their statements stand apart, and operands are
joined to what is done to them. A marker covers the tokens between two builders; what the combinators of the grammar do
to such a marker is said here once. -/
namespace KotlinSyntax

/-- What holds of every node of a tree that was built without faults. -/
structure Lawful (kind : RawKind) (children : List RawElement) : Prop where
  noError : kind ≠ .errorElement
  apart : ∀ es, RawElement.statements? kind children = some es → RawElement.Apart es
  joined : kind.isOperation = true → RawElement.Joined children

/-- Kinds of which the law says nothing. -/
def RawKind.isFree : RawKind → Bool
  | .errorElement | .block | .lambdaBody | .script => false
  | kind => !kind.isOperation

theorem Lawful.of_isFree {kind : RawKind} (free : kind.isFree = true) (children : List RawElement) :
    Lawful kind children := by
  constructor
  · rintro rfl
    cases free
  · intro es some
    cases kind <;> first | exact absurd free Bool.false_ne_true | cases some
  · intro operation
    cases kind <;> first | exact absurd free Bool.false_ne_true | exact absurd operation Bool.false_ne_true

theorem Lawful.of_statements {kind : RawKind} (holds : [.block, .lambdaBody, .script].contains kind = true)
    {children : List RawElement}
    (apart : ∀ es, RawElement.statements? kind children = some es → RawElement.Apart es) : Lawful kind children := by
  constructor
  · rintro rfl
    cases holds
  · exact apart
  · intro operation
    cases kind <;> first | exact absurd operation Bool.false_ne_true | exact absurd holds Bool.false_ne_true

theorem Lawful.of_isOperation {kind : RawKind} (operation : kind.isOperation = true) {children : List RawElement}
    (joined : RawElement.Joined children) : Lawful kind children := by
  constructor
  · rintro rfl
    cases operation
  · intro es some
    cases kind <;> first | exact absurd operation Bool.false_ne_true | cases some
  · exact fun _ => joined

theorem Marker.addTrivia_nil (m : Marker) : m.addTrivia [] = m := by
  cases m
  simp [addTrivia]

namespace Grammar

open Builder

variable {scope : Scope} {ts : List Token} {b₀ b b' : Builder} {m n : Marker} {p : Parsed} {e : RawElement}
  {kind : RawKind} {text : String}

/-- The marker holds the tokens between two builders, its parts hold tokens, and the nodes in it are lawful. The last
leaf may be a comma that stands as trivia. -/
structure Gathers (ts : List Token) (b₀ b : Builder) (m : Marker) : Prop where
  origin : b₀.Over ts
  sited : b.Over ts
  tiles : ∃ used, b₀.left = used ++ b.left ∧ Tiles m.leaves used
  leading : ∀ l ∈ m.leading, l.Void
  solid : ∀ e ∈ m.children.toList, e.Solid
  lawful : ∀ e ∈ m.children.toList, e.All Lawful
  /-- No trivia is taken without a part behind it. -/
  bare : m.children = #[] → m.leading = []
  begun : m.children ≠ #[] → RawElement.significant m.children.toList ≠ []
  opens : m.children ≠ #[] → RawElement.Opens (RawElement.leavesAll m.children.toList)

/-- The same, and what stands as trivia at the end is trivia. -/
structure Covers (ts : List Token) (b₀ b : Builder) (m : Marker) : Prop extends Gathers ts b₀ b m where
  firm : RawElement.Firm m.leaves

abbrev Held (ts : List Token) (b₀ : Builder) (p : Parsed) (b : Builder) : Prop := Covers ts b₀ b (.ofParsed p)

abbrev Offered (ts : List Token) (b₀ : Builder) : Option Parsed → Builder → Prop :=
  Maybe (Held ts b₀) fun b => b.Over ts ∧ b.left = b₀.left

abbrev Finds (ts : List Token) (scope : Scope) (g : Grammar Parsed) (b₀ b : Builder) : Prop :=
  Yields scope g b fun p b' => Held ts b₀ p b'

abbrev Extends (ts : List Token) (scope : Scope) (g : Grammar Marker) (b₀ b : Builder) : Prop :=
  Yields scope g b fun m b' => Covers ts b₀ b' m

def Appended (m m' : Marker) : Prop :=
  ∃ (ls : List Leaf) (l : Leaf), (∀ l ∈ ls, l.Void) ∧ (m.children = #[] → ls = []) ∧
    m'.children.toList = m.children.toList ++ ls.map .leaf ++ [.leaf l]

theorem ofTokens_void {gap : List Token} (blank : ∀ t ∈ gap, t.kind.isTrivia = true) :
    ∀ l ∈ gap.map Leaf.ofToken, l.Void := by
  intro l member
  obtain ⟨t, inside, rfl⟩ := List.mem_map.mp member
  exact ⟨blank t inside, blank t inside⟩

theorem significant_void {ls : List Leaf} (void : ∀ l ∈ ls, l.Void) : RawElement.significant (ls.map .leaf) = [] := by
  simp only [RawElement.significant, List.filter_eq_nil_iff, List.mem_map]
  rintro e ⟨l, member, rfl⟩
  simp [RawElement.isTrivia, (void l member).1]

theorem solid_of_void {l : Leaf} (void : l.Void) : (RawElement.leaf l).Solid :=
  fun part => absurd void.1 (by simpa [RawElement.isTrivia] using part)

theorem void_leading {ls : List Leaf} (leading : ∀ l ∈ m.leading, l.Void) (void : ∀ l ∈ ls, l.Void) :
    ∀ l ∈ (m.addTrivia ls).leading, l.Void := by
  unfold Marker.addTrivia
  split
  · intro l member
    exact (List.mem_append.mp member).elim (leading l) (void l)
  · exact leading

/-- Nothing can be taken at the end. -/
theorem take_none (sited : b.Over ts) (ended : b.peek = none) (m : Marker) (count : Nat) (trivia : Bool) :
    b.take m count trivia = (b, m, .error .pastEnd) := by
  simp [Builder.take, sited.index?_of_peek ended]

namespace Gathers

/-- Trivia and an element behind it are added. -/
theorem extend {ls : List Leaf} (used : List Token) (h : Gathers ts b₀ b m) (sited : b'.Over ts)
    (split : b.left = used ++ b'.left) (tiled : Tiles (ls ++ e.leaves) used) (void : ∀ l ∈ ls, l.Void)
    (solid : e.Solid) (lawful : e.All Lawful) (opens : m.children = #[] → RawElement.Opens e.leaves) :
    Gathers ts b₀ b' ((m.addTrivia ls).push e) where
  origin := h.origin
  sited := sited
  tiles := by
    obtain ⟨before, parts, tiles⟩ := h.tiles
    refine ⟨before ++ used, by rw [parts, split, List.append_assoc], ?_⟩
    rw [Marker.leaves_push, Marker.leaves_addTrivia, List.append_assoc]
    exact tiles.append tiled
  leading := void_leading h.leading void
  solid := Marker.forall_push (Marker.forall_addTrivia h.solid fun l inside => solid_of_void (void l inside)) solid
  lawful := Marker.forall_push (Marker.forall_addTrivia h.lawful fun l _ => .leaf l) lawful
  bare none := by simp [Marker.push] at none
  begun := by
    intro _
    by_cases none : m.children = #[]
    · simp [Marker.push, Marker.addTrivia, none, RawElement.significant, (opens none).isTrivia]
    · simp [Marker.push, Marker.addTrivia, none, RawElement.significant_append, h.begun none]
  opens := by
    intro _
    by_cases none : m.children = #[]
    · simpa [Marker.push, Marker.addTrivia, none, RawElement.leavesAll] using opens none
    · simp only [Marker.push, Marker.addTrivia, Array.isEmpty_iff, none, if_false, Array.toList_push,
        Array.toList_appendList, RawElement.leavesAll_append, List.append_assoc]
      exact (h.opens none).append _

/-- The next token, which may count as trivia behind a part. -/
theorem token {t : Token} {gap : List Token} (h : Gathers ts b₀ b m) (next : Placed.Next b t gap) (trivia : Bool)
    (part : m.children = #[] → trivia = false) : Gathers ts b₀ (b.behind 1 (b.pos + gap.length))
      ((m.addTrivia (gap.map Leaf.ofToken)).push (.leaf ⟨t, trivia⟩)) := by
  refine h.extend (gap ++ [t]) ⟨h.sited.tokens, h.sited.significant, next.placed⟩ ?_ ?_ (ofTokens_void next.blank)
    (fun _ => ⟨_, List.mem_singleton_self _, next.significant⟩) (.leaf _) fun none => ⟨_, [], rfl, part none⟩
  · rw [next.split, List.append_assoc]
    rfl
  · exact (Tiles.ofTokens gap).append (.token t trivia .nil)

end Gathers

theorem Covers.begins (h : Held ts b₀ p b) : RawElement.Opens p.element.leaves := by
  simpa [Marker.ofParsed, RawElement.leavesAll] using h.opens (by simp [Marker.ofParsed])

theorem Covers.part (h : Held ts b₀ p b) : p.element.isTrivia = false := h.begins.isTrivia

theorem Covers.ends (h : Held ts b₀ p b) : RawElement.Firm p.element.leaves := by
  have firm := h.firm
  rw [Marker.leaves_ofParsed] at firm
  exact firm.of_append

/-- An element ends with what is no trivia. -/
theorem Gathers.add (h : Gathers ts b₀ b m) (given : Held ts b p b') : Covers ts b₀ b' (m.add p) where
  toGathers := by
    obtain ⟨used, split, tiled⟩ := given.tiles
    rw [Marker.leaves_ofParsed] at tiled
    exact h.extend used given.sited split tiled given.leading (Marker.forall_ofParsed.mp given.solid)
      (Marker.forall_ofParsed.mp given.lawful) fun _ => given.begins
  firm := by
    rw [Marker.add, Marker.leaves_push]
    exact given.ends.behind given.begins.part _

/-- The marker gains a leaf that is no trivia and an element of its own. -/
def Gains (ts : List Token) (b : Builder) (P : Token → Prop) (m m' : Marker) (b' : Builder) : Prop :=
  ∃ q t, m' = m.add q ∧ q.element = .leaf ⟨t, false⟩ ∧ P t ∧ Held ts b q b'

theorem Gathers.gain {P : Token → Prop} {m' : Marker} (h : Gathers ts b₀ b m) (given : Gains ts b P m m' b') :
    Covers ts b₀ b' m' := by
  obtain ⟨q, t, rfl, _, _, given⟩ := given
  exact h.add given

theorem children_add (m : Marker) (p : Parsed) : (m.add p).children.toList =
    m.children.toList ++ (if m.children.isEmpty then [] else p.leading.map .leaf) ++ [p.element] := by
  unfold Marker.add Marker.addTrivia Marker.push
  split <;> simp

theorem Gains.appended {P : Token → Prop} {m' : Marker} (given : Gains ts b P m m' b') : Appended m m' := by
  obtain ⟨q, t, rfl, leaf, _, given⟩ := given
  refine ⟨if m.children.isEmpty then [] else q.leading, ⟨t, false⟩, ?_, ?_, ?_⟩
  · split
    · simp
    · exact given.leading
  · intro none
    simp [none]
  · rw [children_add, leaf]
    split <;> rfl

/-- An element of one leaf that is no trivia, over some tokens behind a gap. -/
theorem leaf_held {t : Token} {gap : List Token} (parts : List Token) (sited : b.Over ts) (sited' : b'.Over ts)
    (blank : ∀ t ∈ gap, t.kind.isTrivia = true) (split : b.left = gap ++ parts ++ b'.left)
    (tiled : Tiles [⟨t, false⟩] parts) (part : t.kind.isTrivia = false) :
    Held ts b ⟨gap.map Leaf.ofToken, .leaf ⟨t, false⟩⟩ b' where
  origin := sited
  sited := sited'
  tiles := ⟨gap ++ parts, split, by rw [Marker.leaves_ofParsed]; exact (Tiles.ofTokens gap).append tiled⟩
  leading := ofTokens_void blank
  solid := Marker.forall_ofParsed.mpr fun _ => ⟨_, List.mem_singleton_self _, part⟩
  lawful := Marker.forall_ofParsed.mpr (.leaf _)
  bare none := by simp [Marker.ofParsed] at none
  begun _ := by simp [Marker.ofParsed, RawElement.significant, RawElement.isTrivia]
  opens _ := ⟨_, [], rfl, rfl⟩
  firm := by
    rw [Marker.leaves_ofParsed]
    apply RawElement.Firm.behind
    · simp [RawElement.Firm, RawElement.leaves, List.rtakeWhile]
    · exact ⟨_, List.mem_singleton_self _, rfl⟩

theorem token_held {t : Token} {gap : List Token} (sited : b.Over ts) (next : Placed.Next b t gap) :
    Held ts b ⟨gap.map Leaf.ofToken, .leaf ⟨t, false⟩⟩ (b.behind 1 (b.pos + gap.length)) := by
  have above : (b.behind 1 (b.pos + gap.length)).Over ts := ⟨sited.tokens, sited.significant, next.placed⟩
  apply leaf_held [t] sited above next.blank _ (.token t false .nil) next.significant
  rw [next.split, List.append_assoc]
  rfl

theorem take_gains (sited : b.Over ts) : Yields scope (Grammar.take m 1 false) b fun m' b' =>
    Gains ts b (b.peek = some ·) m m' b' := by
  refine .look ?_
  cases seen : b.peek with
  | none =>
    rw [take_none sited seen]
    exact .goTo .refl .fail
  | some t =>
    obtain ⟨gap, next⟩ := sited.placed.next seen
    rw [next.take]
    refine .goTo (fun ready => ⟨⟨next.placed, ready.unreserved⟩, rfl, rfl⟩) (.pure ?_)
    exact ⟨_, t, rfl, rfl, rfl, token_held sited next⟩

/-- An operator becomes one part, also where it stands on two tokens. -/
theorem advanceGlued_gains {ops : List String} (sited : b.Over ts) (stands : 0 < b.operatorsCount ops) :
    Yields scope (Grammar.advanceGlued m (b.operatorsCount ops)) b fun m' b' =>
      Gains ts b (·.text ∈ ops) m m' b' := by
  obtain ⟨op, member, count⟩ := operatorsCount_mem stands
  rw [count] at stands ⊢
  rcases operatorCount_cases stands with ⟨one, seen⟩ | ⟨first, second, two, joined, seen, seen', touch⟩
  · rw [one]
    refine (take_gains sited).mono ?_
    rintro m' b' ⟨q, t, added, leaf, peeked, given⟩
    refine ⟨q, t, added, leaf, ?_, given⟩
    obtain ⟨t', peeked', spelled⟩ := peek_of_sees seen
    rw [peeked] at peeked'
    cases peeked'
    exact Token.text_of_spells spelled ▸ member
  · rw [two]
    obtain ⟨t, u, gap, next, next', spelled, spelled'⟩ := next_two sited.placed seen seen' touch
    refine .look ?_
    rw [next.take_two next']
    refine .goTo (fun ready => ⟨⟨next'.placed, ready.unreserved⟩, rfl, rfl⟩) (.pure ?_)
    have above : (b.behind 2 (b.pos + gap.length + 1)).Over ts := ⟨sited.tokens, sited.significant, next'.placed⟩
    refine ⟨⟨gap.map Leaf.ofToken, .leaf _⟩, _, rfl, rfl, ?_, leaf_held [t, u] sited above next.blank ?_ ?_ rfl⟩
    · have text : t.text ++ u.text = op := by
        rw [Token.text_of_spells spelled, Token.text_of_spells spelled', joined]
      simpa [String.join, text] using member
    · have rest := next'.split
      rw [List.nil_append] at rest
      rw [next.split, rest, List.append_assoc]
      rfl
    · refine .glued [t, u] _ (Nat.le_refl _) ?_ rfl .nil
      simp [Token.isWord_of_spells spelled, Token.isWord_of_spells spelled']

theorem expect_gains (sited : b.Over ts) : Yields scope (Grammar.expect m text) b fun m' b' =>
    Gains ts b (b.peek = some ·) m m' b' :=
  .look <| .ite (fun _ => take_gains sited) fun _ => .reject

theorem Gathers.expect (h : Gathers ts b₀ b m) : Extends ts scope (Grammar.expect m text) b₀ b :=
  (expect_gains h.sited).mono fun _ _ after => h.gain after

theorem Gathers.advance (h : Gathers ts b₀ b m) : Extends ts scope (Grammar.advance m) b₀ b :=
  (take_gains h.sited).mono fun _ _ after => h.gain after

/-- Behind a part the next token may count as trivia. -/
theorem Gathers.advanceAsTrivia (h : Gathers ts b₀ b m) (some : m.children ≠ #[]) :
    Yields scope (Grammar.advanceAsTrivia m) b fun m' b' => Gathers ts b₀ b' m' := by
  refine .look ?_
  cases seen : b.peek with
  | none =>
    rw [take_none h.sited seen]
    exact .goTo .refl .fail
  | some t =>
    obtain ⟨gap, next⟩ := h.sited.placed.next seen
    rw [next.take]
    refine .goTo (fun ready => ⟨⟨next.placed, ready.unreserved⟩, rfl, rfl⟩) (.pure ?_)
    exact h.token next true fun none => absurd none some

/-- What adding elements keeps holds of a list of items. -/
theorem commaList_keeps {I : Marker → Builder → Prop} {close : String} {item : Grammar Parsed} (start : I m b)
    (sited : ∀ m b, I m b → b.Over ts) (add : ∀ m b p b', I m b → Held ts b p b' → I (m.add p) b')
    (each : ∀ b, b.Over ts → Finds ts scope item b b) : Yields scope (Grammar.commaList m close item) b I := by
  refine .iterate start fun m b on => ?_
  refine .look (.ite (fun _ => .pure on) fun _ => .bind (each b (sited m b on)) fun p b' given => ?_)
  have added := add m b p b' on given
  refine .look (.ite (fun _ => .bind (take_gains (sited _ _ added)) ?_) fun _ => .pure added)
  rintro _ b'' ⟨comma, _, rfl, _, _, given⟩
  exact .pure (add _ _ _ _ added given)

/-- Recovery records a fault, so what is added is what the rule gives. -/
theorem Gathers.recovering {rule : Grammar Parsed} (h : Gathers ts b₀ b m) (each : Finds ts scope rule b b) :
    Extends ts scope (Grammar.recovering m rule) b₀ b :=
  .recovering (each.mono fun _ _ given => h.add given)

namespace Covers

theorem start (sited : b.Over ts) : Covers ts b b .empty where
  origin := sited
  sited := sited
  tiles := ⟨[], rfl, .nil⟩
  leading := by simp [Marker.empty]
  solid := by simp [Marker.empty]
  lawful := by simp [Marker.empty]
  bare _ := rfl
  begun some := absurd rfl some
  opens some := absurd rfl some
  firm := by simp [RawElement.Firm]

/-- Another place with the same tokens left. -/
theorem move (h : Covers ts b₀ b m) (sited : b'.Over ts) (left : b'.left = b.left) : Covers ts b₀ b' m :=
  { h with sited := sited, tiles := by rw [left]; exact h.tiles }

theorem moveOrigin (h : Covers ts b₀ b m) (origin : b'.Over ts) (left : b₀.left = b'.left) : Covers ts b' b m :=
  { h with origin := origin, tiles := by rw [← left]; exact h.tiles }

theorem add? {x : Option Parsed} (h : Covers ts b₀ b m) (given : Offered ts b x b') : Covers ts b₀ b' (m.add? x) := by
  cases x with
  | none => exact h.move given.1 given.2
  | some p => exact h.add given

/-- One marker takes over what another one gathered behind it. -/
theorem absorb (h : Covers ts b₀ b m) (k : Covers ts b b' n) : Covers ts b₀ b' (m.absorb n) where
  origin := h.origin
  sited := k.sited
  tiles := by
    obtain ⟨before, first, tiles⟩ := h.tiles
    obtain ⟨used, second, tiled⟩ := k.tiles
    refine ⟨before ++ used, by rw [first, second, List.append_assoc], ?_⟩
    rw [Marker.leaves_absorb]
    exact tiles.append tiled
  leading := void_leading h.leading k.leading
  solid := Marker.forall_absorb h.solid (fun l inside => solid_of_void (k.leading l inside)) k.solid
  lawful := Marker.forall_absorb h.lawful (fun l _ => .leaf l) k.lawful
  bare none := by
    have children : (m.addTrivia n.leading).children = #[] ∧ n.children = #[] := by
      simpa [Marker.absorb] using none
    have empty : n.leading = [] := k.bare children.2
    rw [empty, Marker.addTrivia_nil] at children
    simpa [Marker.absorb, empty, Marker.addTrivia_nil] using h.bare children.1
  begun some := by
    by_cases none : n.children = #[]
    · have empty : n.leading = [] := k.bare none
      simp only [Marker.absorb, empty, Marker.addTrivia_nil, none, Array.append_empty] at some ⊢
      exact h.begun some
    · simp only [Marker.absorb, Array.toList_append, RawElement.significant_append, ne_eq, List.append_eq_nil_iff,
        k.begun none, and_false, not_false_eq_true]
  opens some := by
    by_cases none : m.children = #[]
    · have others : n.children ≠ #[] := by simpa [Marker.absorb, Marker.addTrivia, none] using some
      simpa [Marker.absorb, Marker.addTrivia, none] using k.opens others
    · simp only [Marker.absorb, Marker.addTrivia, Array.isEmpty_iff, none, if_false, Array.toList_append,
        Array.toList_appendList, RawElement.leavesAll_append, List.append_assoc]
      exact (h.opens none).append _
  firm := by
    rw [Marker.leaves_absorb]
    exact h.firm.append k.firm

/-- A finished node. -/
theorem node {role : Option String} (h : Covers ts b₀ b m) (some : m.children ≠ #[])
    (lawful : Lawful kind m.children.toList) : Held ts b₀ ⟨m.leading, .node kind role m.children.toList⟩ b where
  origin := h.origin
  sited := h.sited
  tiles := by
    obtain ⟨used, split, tiled⟩ := h.tiles
    exact ⟨used, split, by rw [Marker.leaves_ofParsed]; exact tiled⟩
  leading := h.leading
  solid := by
    refine Marker.forall_ofParsed.mpr fun _ => ?_
    obtain ⟨t, inside, part⟩ := RawElement.part_of_significant h.solid (h.begun some)
    obtain ⟨l, leaf, rfl⟩ := List.mem_map.mp inside
    exact ⟨l, leaf, part⟩
  lawful := Marker.forall_ofParsed.mpr (.node kind role _ lawful h.lawful)
  bare none := by simp [Marker.ofParsed] at none
  begun _ := by simp [Marker.ofParsed, RawElement.significant, RawElement.isTrivia]
  opens _ := by simpa [Marker.ofParsed, RawElement.leavesAll, RawElement.leaves] using h.opens some
  firm := by
    rw [Marker.leaves_ofParsed]
    exact h.firm

theorem withRole (h : Held ts b₀ p b) (role : String) : Held ts b₀ (p.withRole role) b := by
  obtain ⟨leading, element⟩ := p
  cases element with
  | leaf l => exact h
  | node kind old children =>
    have solid := Marker.forall_ofParsed.mp h.solid
    refine ⟨⟨h.origin, h.sited, h.tiles, h.leading, Marker.forall_ofParsed.mpr fun _ => solid rfl,
      Marker.forall_ofParsed.mpr ?_, fun none => by simp [Marker.ofParsed, Parsed.withRole] at none,
      fun _ => by simp [Marker.ofParsed, Parsed.withRole, RawElement.significant, RawElement.isTrivia],
      fun _ => h.opens (by simp [Marker.ofParsed])⟩, h.firm⟩
    cases Marker.forall_ofParsed.mp h.lawful with
    | node _ _ _ here below => exact .node kind (some role) children here below

/-! Finishing nodes. -/

/-- A node whose children keep the law, with the builder where it was. -/
theorem doneWith {role : Option String} (h : Covers ts b₀ b m) (lawful : Lawful kind m.children.toList) :
    Yields scope (Grammar.done m kind role) b fun p b' => Held ts b₀ p b' ∧ b' = b := by
  unfold Grammar.done Marker.done
  by_cases none : m.children = #[]
  · simp only [none]
    exact .fail
  · have some : m.children.isEmpty = false := by simpa using none
    simp only [some]
    exact .pure ⟨h.node none lawful, rfl⟩

theorem doneHere {role : Option String} (h : Covers ts b₀ b m) (free : kind.isFree = true) :
    Yields scope (Grammar.done m kind role) b fun p b' => Held ts b₀ p b' ∧ b' = b :=
  h.doneWith (.of_isFree free _)

theorem done {role : Option String} (h : Covers ts b₀ b m) (free : kind.isFree = true) :
    Finds ts scope (Grammar.done m kind role) b₀ b :=
  (h.doneHere free).mono fun _ _ after => after.1

theorem doneUnlessEmpty (h : Covers ts b₀ b m) (lawful : Lawful kind m.children.toList) :
    Yields scope (Grammar.doneUnlessEmpty m kind) b (Offered ts b₀) := by
  refine .ite (fun none => .pure ⟨h.sited, ?_⟩) fun _ =>
    .map ((h.doneWith lawful).mono fun _ _ after => after.1)
  have children : m.children = #[] := Array.isEmpty_iff.mp none
  obtain ⟨used, split, tiled⟩ := h.tiles
  rw [Marker.leaves, children, h.bare children] at tiled
  rw [split, tiled.eq_nil, List.nil_append]

/-! Taking tokens. -/

theorem advanceTwice (h : Covers ts b₀ b m) : Extends ts scope (Grammar.advanceTwice m) b₀ b :=
  .bind h.advance fun _ _ h => h.advance

theorem advanceGlued {ops : List String} (h : Covers ts b₀ b m) (stands : 0 < b.operatorsCount ops) :
    Extends ts scope (Grammar.advanceGlued m (b.operatorsCount ops)) b₀ b :=
  (advanceGlued_gains h.sited stands).mono fun _ _ after => h.gain after

/-- Trivia is added behind a part. -/
theorem addTrivia {run rest : List Token} (h : Covers ts b₀ b m) (some : m.children ≠ #[])
    (split : b.left = run ++ rest) (blank : ∀ t ∈ run, t.kind.isTrivia = true) :
    Covers ts b₀ { b with pos := b.pos + run.length } (m.addTrivia (run.map Leaf.ofToken)) := by
  have void := ofTokens_void blank
  refine ⟨⟨h.origin, ⟨h.sited.tokens, h.sited.significant, h.sited.placed.skip split blank⟩, ?_,
    void_leading h.leading void, Marker.forall_addTrivia h.solid fun l inside => solid_of_void (void l inside),
    Marker.forall_addTrivia h.lawful fun l _ => .leaf l, ?_, ?_, ?_⟩, ?_⟩
  · obtain ⟨used, before, tiles⟩ := h.tiles
    refine ⟨used ++ run, by rw [before, split, left_skip split, List.append_assoc], ?_⟩
    rw [Marker.leaves_addTrivia]
    exact tiles.append (.ofTokens run)
  · intro none
    have lists := congrArg Array.toList none
    rw [Marker.addTrivia, if_neg (by simpa using some), Array.toList_appendList] at lists
    exact absurd (Array.toList_eq_nil_iff.mp (List.append_eq_nil_iff.mp lists).1) some
  · simp [Marker.addTrivia, some, RawElement.significant_append, h.begun some]
  · intro _
    simp only [Marker.addTrivia, Array.isEmpty_iff, some, if_false, Array.toList_appendList,
      RawElement.leavesAll_append]
    exact (h.opens some).append _
  · rw [Marker.leaves_addTrivia]
    exact h.firm.append (.of_void void)

/-- A node with the comment that ends its line. -/
theorem doneBound (h : Covers ts b₀ b m) (free : kind.isFree = true) :
    Finds ts scope (do Grammar.done (← Grammar.bindTrailingComment m) kind) b₀ b := by
  refine .bind (R := fun m' b' => m'.children ≠ #[] → Covers ts b₀ b' m') (.look ?_) fun m' b' after => ?_
  · rcases bindTrailingComment_eq b m with same | ⟨run, rest, split, blank, taken⟩
    · rw [same]
      exact .goTo .refl (.pure fun _ => h)
    · rw [taken]
      refine .goTo (fun ready => ⟨⟨ready.placed.skip split blank, ready.unreserved⟩, rfl, rfl⟩) (.pure fun some => ?_)
      refine h.addTrivia (fun none => ?_) split blank
      simp [Marker.addTrivia, none] at some
  · by_cases none : m'.children = #[]
    · simp only [Grammar.done, Marker.done, none]
      exact .fail
    · exact (after none).done free

/-! What stands between a part and the next one. -/

/-- The tokens of a list from its start up to the builder. -/
theorem take_pos (h : Covers ts b₀ b m) {used : List Token} (split : b₀.left = used ++ b.left) :
    ts.take b.pos = ts.take b₀.pos ++ used := by
  have first : ts.take b₀.pos ++ b₀.left = ts := by rw [left, h.origin.tokens, List.take_append_drop]
  have second : ts.take b.pos ++ b.left = ts := by rw [left, h.sited.tokens, List.take_append_drop]
  rw [split, ← List.append_assoc] at first
  exact List.append_cancel_right (second.trans first.symm)

/-- In the tree there is the same between the last parts and the next one as the builder sees. -/
theorem gap_eq {front body : List RawElement} (h : Covers ts b₀ b m) (given : Held ts b p b')
    (children : m.children.toList = front ++ body) (some : RawElement.significant body ≠ []) :
    RawElement.gap (body ++ p.leading.map .leaf) p.element = b.gap 0 := by
  obtain ⟨used, split, tiles⟩ := h.tiles
  obtain ⟨next, split', tiles'⟩ := given.tiles
  rw [Marker.leaves, children, RawElement.leavesAll_append] at tiles
  rw [Marker.leaves_ofParsed, Parsed.leaves] at tiles'
  have inside : ∀ e ∈ body, e.Solid := fun e member => h.solid e (children ▸ List.mem_append_right front member)
  have bodyPart := RawElement.part_of_significant inside some
  have usedPart : ∃ t ∈ used, t.kind.isTrivia = false := by
    obtain ⟨t, member, part⟩ := bodyPart
    obtain ⟨l, leaf, rfl⟩ := List.mem_map.mp member
    exact tiles.part_iff.mp ⟨l, by simp [leaf], part⟩
  have nextPart : ∃ t ∈ next, t.kind.isTrivia = false := by
    obtain ⟨l, leaf, part⟩ := Marker.forall_ofParsed.mp given.solid given.part
    exact tiles'.part_iff.mp ⟨l, by simp [leaf], part⟩
  have blank : ∀ t ∈ p.leading.map (·.token), t.kind.isTrivia = true := by
    intro t member
    obtain ⟨l, leaf, rfl⟩ := List.mem_map.mp member
    exact (given.leading l leaf).2
  have before : Token.trailing (ts.take b.pos) = Token.trailing ((RawElement.leavesAll body).map (·.token)) := by
    rw [h.take_pos split, Token.trailing_append_of_part _ usedPart, ← tiles.trailing_eq, ← List.append_assoc,
      List.map_append, Token.trailing_append_of_part _ bodyPart]
  have behind : Token.heading b.left = p.leading.map (·.token) ++ Token.heading (p.element.leaves.map (·.token)) := by
    rw [split', Token.heading_append_of_part nextPart, ← tiles'.heading_eq, List.map_append,
      Token.heading_append_of_blank blank]
  rw [h.sited.gap_next, before, behind, RawElement.gap, RawElement.leavesAll_append, RawElement.leavesAll_leaves,
    List.map_append, Token.trailing_append_of_blank blank, List.append_assoc]

/-! Tokens that must come. -/

theorem expectLeaf (h : Covers ts b₀ b m) : Yields scope (Grammar.expect m text) b fun m' b' =>
    Covers ts b₀ b' m' ∧ Appended m m' :=
  (expect_gains h.sited).mono fun _ _ after => ⟨h.gain after, after.appended⟩

theorem expectKind {k : TokenKind} {what : String} (h : Covers ts b₀ b m) :
    Extends ts scope (Grammar.expectKind m k what) b₀ b :=
  .look <| .ite (fun _ => h.advance) fun _ => .reject

theorem expectName (h : Covers ts b₀ b m) : Extends ts scope (Grammar.expectName m) b₀ b := h.expectKind

theorem expectAny {texts : List String} {what : String} (h : Covers ts b₀ b m) :
    Extends ts scope (Grammar.expectAny m texts what) b₀ b :=
  .look <| .ite (fun _ => h.advance) fun _ => .reject

/-! Parts that may be absent. -/

theorem advanceIf {test : Builder → Bool} (h : Covers ts b₀ b m) : Extends ts scope (Grammar.advanceIf test m) b₀ b :=
  .look <| .ite (fun _ => h.advance) fun _ => .pure h

theorem advanceTwiceIf {test : Builder → Bool} (h : Covers ts b₀ b m) :
    Extends ts scope (Grammar.advanceTwiceIf test m) b₀ b :=
  .look <| .ite (fun _ => h.advanceTwice) fun _ => .pure h

theorem addRule {rule : Grammar Parsed} (h : Covers ts b₀ b m) (each : Finds ts scope rule b b') :
    Extends ts scope (do return m.add (← rule)) b₀ b' :=
  .bind each fun _ _ given => .pure (h.add given)

theorem addIf {test : Builder → Bool} {rule : Grammar Parsed} (h : Covers ts b₀ b m)
    (each : Finds ts scope rule b b) : Extends ts scope (Grammar.addIf test rule m) b₀ b :=
  .look <| .ite (fun _ => h.addRule each) fun _ => .pure h

/-! Lists. -/

theorem iterateWhile {test : Builder → Bool} {step : Marker → Grammar Marker} (h : Covers ts b₀ b m)
    (each : ∀ m b, Covers ts b₀ b m → Extends ts scope (step m) b₀ b) :
    Extends ts scope (Grammar.iterateWhile test step m) b₀ b :=
  (Yields.iterateWhile h fun m b on _ => each m b on).mono fun _ _ after => after.1

theorem commaList {close : String} {item : Grammar Parsed} (h : Covers ts b₀ b m)
    (each : ∀ b, b.Over ts → Finds ts scope item b b) : Extends ts scope (Grammar.commaList m close item) b₀ b :=
  commaList_keeps h (fun _ _ on => on.sited) (fun _ _ _ _ on given => on.add given) each

end Covers

/-! Operations. -/

/-- The marker covers the tokens, and it begins with an operand and what is joined to it. -/
structure Operates (ts : List Token) (b₀ b : Builder) (m : Marker) : Prop extends Covers ts b₀ b m where
  joined : RawElement.Joined m.children.toList

namespace Operates

theorem start {q : Parsed} (operand : Held ts b₀ p b) (next : Held ts b q b') (whole : b.semicolonBefore = false)
    (leads : b.newlineBefore = true → ∀ l rest, q.element.leaves = l :: rest →
      l.token.text ∈ lineOperators) : Operates ts b₀ b' ((Marker.ofParsed p).add q) where
  toCovers := operand.add next
  joined := by
    obtain ⟨l, rest, begins, solid⟩ := next.begins
    have children : ((Marker.ofParsed p).add q).children.toList =
        p.element :: (q.leading.map .leaf ++ [q.element]) := by
      rw [children_add]
      simp [Marker.ofParsed]
    have some : RawElement.significant [p.element] ≠ [] := by simp [RawElement.significant, operand.part]
    have only : (Marker.ofParsed p).children.toList = [] ++ [p.element] := rfl
    have gap : RawElement.gap (p.element :: q.leading.map .leaf) q.element = b.gap 0 := operand.gap_eq next only some
    rw [children]
    refine .of_gap operand.ends operand.begins.part next.leading begins solid ?_
    rw [gap]
    intro t member
    constructor
    · intro semicolon
      have found : b.semicolonBefore = true := List.any_eq_true.mpr ⟨t, member, by rw [semicolon]; rfl⟩
      rw [whole] at found
      cases found
    · intro ends
      exact leads (List.any_eq_true.mpr ⟨t, member, ends⟩) l rest begins

/-- An operator, or a bracket, is joined to the operand. -/
theorem ofGains {P : Token → Prop} (operand : Held ts b₀ p b) (given : Gains ts b P (.ofParsed p) m b')
    (whole : b.semicolonBefore = false) (leads : b.newlineBefore = true → ∀ t, P t → t.text ∈ lineOperators) :
    Operates ts b₀ b' m := by
  obtain ⟨q, t, rfl, leaf, holds, next⟩ := given
  refine start operand next whole fun ends l rest begins => ?_
  rw [leaf] at begins
  cases begins
  exact leads ends t holds

theorem add (h : Operates ts b₀ b m) (given : Held ts b p b') : Operates ts b₀ b' (m.add p) where
  toCovers := h.toCovers.add given
  joined := by
    rw [children_add, List.append_assoc]
    exact h.joined.append _

theorem add? {x : Option Parsed} (h : Operates ts b₀ b m) (given : Offered ts b x b') :
    Operates ts b₀ b' (m.add? x) := by
  cases x with
  | none => exact { h with toCovers := h.toCovers.move given.1 given.2 }
  | some p => exact h.add given

theorem expect (h : Operates ts b₀ b m) :
    Yields scope (Grammar.expect m text) b fun m' b' => Operates ts b₀ b' m' :=
  (expect_gains h.sited).mono fun _ _ ⟨_, _, added, _, _, given⟩ => added ▸ h.add given

theorem commaList {close : String} {item : Grammar Parsed} (h : Operates ts b₀ b m)
    (each : ∀ b, b.Over ts → Finds ts scope item b b) :
    Yields scope (Grammar.commaList m close item) b fun m' b' => Operates ts b₀ b' m' :=
  commaList_keeps h (fun _ _ on => on.sited) (fun _ _ _ _ on given => on.add given) each

theorem done (h : Operates ts b₀ b m) (operation : kind.isOperation = true) :
    Finds ts scope (Grammar.done m kind) b₀ b :=
  (h.doneWith (.of_isOperation operation h.joined)).mono fun _ _ after => after.1

end Operates

/-- A list between two words. -/
theorem bracketed_finds {opening closing : String} {item : Grammar Parsed} (sited : b.Over ts)
    (free : kind.isFree = true) (each : ∀ b, b.Over ts → Finds ts scope item b b) :
    Finds ts scope (bracketed kind opening closing item) b b :=
  .bind (Covers.start sited).expect fun _ _ on =>
  .bind (on.commaList each) fun _ _ on =>
  .bind on.expect fun _ _ on => on.done free

/-- The next token as an element of its own. -/
theorem token_finds (sited : b.Over ts) : Finds ts scope token b b := by
  refine .look ?_
  cases seen : b.peek with
  | none =>
    rw [take_none sited seen]
    exact .goTo .refl .fail
  | some t =>
    obtain ⟨gap, next⟩ := sited.placed.next seen
    rw [next.take]
    exact .goTo (fun ready => ⟨⟨next.placed, ready.unreserved⟩, rfl, rfl⟩) (.pure (token_held sited next))

/-- An element, or none where the tokens are rejected. -/
theorem speculate_offers {rule : Grammar Parsed} (sited : b.Over ts) (h : Finds ts scope rule b b) :
    Yields scope (speculate rule) b (Offered ts b) := by
  refine (Yields.speculate h).mono ?_
  rintro (_ | p) b' after
  · obtain rfl : b' = b := after
    exact ⟨sited, rfl⟩
  · exact after

theorem some_offers {rule : Grammar Parsed} (h : Finds ts scope rule b₀ b) :
    Yields scope (some <$> rule) b (Offered ts b₀) := .map h

theorem none_offers (sited : b.Over ts) : Yields scope (pure none) b (Offered ts b) := .pure ⟨sited, rfl⟩

def Abides (ts : List Token) (recur : Recur) : Prop :=
  ∀ scope (r : Rule) b, b.Over ts → Finds ts scope (recur r) b b

end Grammar

end KotlinSyntax
