import KotlinSyntax.Proofs.Apart.Gap
import KotlinSyntax.Proofs.Parse.Logic
import KotlinSyntax.Proofs.Twin.Builder

/-! What a builder has in sight: the parts to come, each with whether it touches the one in front of it. All tests of
the grammar are tests of what is in sight as long as no line ends. Elements are known by what they show, which is
all but trivia and places. -/
namespace KotlinSyntax

open RawElement

/-- A part without its place, and whether nothing stands between it and the part in front of it. -/
structure Glance where
  token : Token
  touches : Bool

namespace Token

def glances (ts : List Token) : List Glance := List.zipWith (fun t gap => ⟨t.bare, gap.isEmpty⟩) (parts ts) (gaps ts)

variable {t : Token} {ts : List Token}

theorem glances_length (ts : List Token) : (glances ts).length = (parts ts).length := by
  have gaps := gaps_length ts
  rw [glances, List.length_zipWith]
  omega

theorem glances_part (part : t.kind.isTrivia = false) (ts : List Token) :
    glances (t :: ts) = ⟨t.bare, true⟩ :: glances ts := by
  have is : t.isPart = true := by simp [isPart, part]
  rw [glances, gaps_cons, if_pos is, parts, List.filter_cons_of_pos is]
  rfl

theorem glances_trivia (trivia : t.kind.isTrivia = true) (ts : List Token) :
    glances (t :: ts) = (glances ts).modifyHead fun s => ⟨s.token, false⟩ := by
  have isn't : ¬t.isPart = true := by simp [isPart, trivia]
  rw [glances, gaps_cons, if_neg isn't, parts, List.filter_cons_of_neg isn't, glances, parts]
  cases found : gaps ts with
  | nil => exact absurd found (gaps_ne_nil ts)
  | cons gap later => cases ts.filter isPart <;> rfl

theorem getElem?_glances (ts : List Token) (n : Nat) :
    (glances ts)[n]?.map (·.token) = (parts ts)[n]?.map bare := by
  have inside := gaps_length ts
  rw [glances, List.getElem?_zipWith]
  cases part : (parts ts)[n]? with
  | none => rfl
  | some t =>
    have less := (List.getElem?_eq_some_iff.mp part).1
    rw [List.getElem?_eq_getElem (by omega : n < (gaps ts).length)]
    rfl

end Token

/-- On how many tokens the operator stands, if these are the texts of the next token and of the one that touches it. -/
def standsOn (first : String) (second : Option String) (op : String) : Nat :=
  match Builder.pieces op with
  | [a] => if first = a then 1 else 0
  | [a, b] => if first = a ∧ second = some b then 2 else 0
  | _ => 0

def touching? : List Glance → Option String
  | ⟨t, true⟩ :: _ => if t.isWord then some t.text else none
  | _ => none

namespace Builder

/-- The builder stands in tokens that end no line and has the view. -/
structure At (ts : List Token) (b : Builder) (view : List Glance) : Prop where
  above : b.Over ts
  quiet : ∀ t ∈ ts, t.separates = false
  view : (Token.glances ts).drop b.cursor = view

namespace At

variable {ts : List Token} {b : Builder} {view : List Glance} {s u : Glance}

theorem placed (h : b.At ts view) : b.Placed := h.above.placed

theorem remaining (h : b.At ts view) : b.remaining = view.length := by
  rw [h.above.remaining, ← h.view, List.length_drop, Token.glances_length]

theorem peek (h : b.At ts view) (n : Nat) : (b.peek n).map Token.bare = view[n]?.map (·.token) := by
  have place : ¬ ((b.cursor : Int) + n < 0) := by omega
  have same : ((b.cursor : Int) + n).toNat = b.cursor + n := by omega
  rw [h.above.peek, if_neg place, same, ← h.view, List.getElem?_drop, Token.getElem?_glances]

theorem any_peek (h : b.At ts view) (test : Token → Bool) (blind : ∀ t, test t.bare = test t) (n : Nat) :
    (b.peek n).any test = view[n]?.any fun s => test s.token := by
  have same := congrArg (Option.any test) (h.peek n)
  rw [Option.any_map, Option.any_map] at same
  simpa only [blind] using same

theorem sees (h : b.At ts view) (text : String) (n : Nat) :
    b.sees text n = view[n]?.any (·.token.spells text) :=
  h.any_peek (·.spells text) (fun _ => rfl) n

theorem seesKind (h : b.At ts view) (kind : TokenKind) (n : Nat) :
    b.seesKind kind n = view[n]?.any (·.token.kind == kind) :=
  h.any_peek (·.kind == kind) (fun _ => rfl) n

theorem seesAny (h : b.At ts view) (texts : List String) :
    b.seesAny texts = texts.any fun text => view[0]?.any (·.token.spells text) := by
  unfold Builder.seesAny
  congr 1
  funext text
  exact h.sees text 0

theorem atEnd (h : b.At ts view) : b.atEnd = view.isEmpty := by
  have same := h.peek 0
  cases view with
  | nil => simpa [Builder.atEnd] using same
  | cons s view =>
    obtain ⟨t, found, _⟩ := Option.map_eq_some_iff.mp same
    have seen : b.peek = some t := found
    simp [Builder.atEnd, seen]

theorem separatedBefore (h : b.At ts view) : b.separatedBefore = false := by
  rw [separatedBefore_eq, List.any_eq_false]
  intro t member
  have inside : t ∈ ts := by
    unfold Builder.gap at member
    rw [h.above.gap_cut] at member
    exact List.mem_of_mem_drop (List.mem_of_mem_take member)
  simp [h.quiet t inside]

theorem newlineBefore (h : b.At ts view) : b.newlineBefore = false :=
  (Bool.or_eq_false_iff.mp h.separatedBefore).1

theorem semicolonBefore (h : b.At ts view) : b.semicolonBefore = false :=
  (Bool.or_eq_false_iff.mp h.separatedBefore).2

theorem adjacent (h : b.At ts view) {n : Nat} (seen : view[n]? = some s) : b.adjacent n = s.touches := by
  have place : ¬ ((b.cursor : Int) + n < 0) := by omega
  have same : ((b.cursor : Int) + n).toNat = b.cursor + n := by omega
  rw [← h.view, List.getElem?_drop, Token.glances, List.getElem?_zipWith] at seen
  rw [Builder.adjacent, h.above.gap, if_neg place, same]
  cases gap : (Token.gaps ts)[b.cursor + n]? with
  | none =>
    rw [gap] at seen
    cases found : (Token.parts ts)[b.cursor + n]? <;> simp [found] at seen
  | some gap' =>
    rw [gap] at seen
    cases found : (Token.parts ts)[b.cursor + n]? with
    | none => simp [found] at seen
    | some t =>
      rw [found] at seen
      cases seen
      rfl

theorem ahead (h : b.At ts view) : b.ahead.map Token.bare = view.map (·.token) := by
  apply List.ext_getElem?
  intro n
  rw [h.above.ahead, ← h.view, List.getElem?_map, List.getElem?_map, List.getElem?_drop, List.getElem?_drop,
    Token.getElem?_glances]

/-! Operators. -/

theorem operatorCount (h : b.At ts (s :: view)) (word : s.token.isWord = true) (op : String) :
    b.operatorCount op = standsOn s.token.text (touching? view) op := by
  have spells (t : Token) (text : String) (is : t.isWord = true) : t.spells text = (t.text == text) := by
    unfold Token.isWord at is
    simp [Token.spells, is]
  have first (text : String) : b.sees text 0 = (s.token.text == text) := by
    rw [← spells _ _ word]
    exact h.sees text 0
  have second (text : String) : (b.sees text 1 && b.adjacent 1) = (touching? view == some text) := by
    have seen := h.sees text 1
    cases view with
    | nil =>
      have none : b.sees text 1 = false := seen
      rw [none]
      rfl
    | cons u view =>
      obtain ⟨t, touches⟩ := u
      have close : b.adjacent 1 = touches := h.adjacent (s := ⟨t, touches⟩) (n := 1) rfl
      have same : b.sees text 1 = t.spells text := seen
      rw [close, same, Bool.and_comm]
      cases touches with
      | false => rfl
      | true =>
        by_cases is : t.isWord = true
        · simp [touching?, is, spells t text is]
        · have never : t.spells text = false := by
            rw [Bool.eq_false_iff]
            exact fun spelled => is (Token.isWord_of_spells spelled)
          simp [touching?, is, never]
  unfold Builder.operatorCount standsOn
  rcases Grammar.pieces_cases op with one | ⟨a, c, two, _⟩
  · rw [one]
    simp [first]
  · rw [two]
    have both : (b.sees c 1 = true ∧ b.adjacent 1 = true) ↔ touching? view = some c := by
      rw [← Bool.and_eq_true, second, beq_iff_eq]
    simp [first, both]

theorem operatorsCount (h : b.At ts (s :: view)) (word : s.token.isWord = true) (ops : List String) :
    b.operatorsCount ops = ((ops.map (standsOn s.token.text (touching? view))).find? (0 < ·)).getD 0 := by
  rw [Builder.operatorsCount, funext (h.operatorCount word)]

theorem operatorsCount_nil (h : b.At ts []) (ops : List String) : b.operatorsCount ops = 0 := by
  rcases Nat.eq_zero_or_pos (b.operatorsCount ops) with zero | stands
  · exact zero
  · obtain ⟨op, _, count⟩ := Grammar.operatorsCount_mem stands
    rw [count] at stands
    have never (text : String) : b.sees text = false := h.sees text 0
    rcases Grammar.operatorCount_cases stands with ⟨_, seen⟩ | ⟨first, _, _, _, seen, _⟩
    · rw [never] at seen
      cases seen
    · rw [never] at seen
      cases seen

/-! Taking tokens. -/

theorem next (h : b.At ts (s :: view)) : ∃ t gap, Placed.Next b t gap ∧ t.bare = s.token ∧
    (b.behind 1 (b.pos + gap.length)).At ts view := by
  obtain ⟨t, found, same⟩ := Option.map_eq_some_iff.mp (h.peek 0)
  obtain ⟨gap, next⟩ := h.placed.next found
  refine ⟨t, gap, next, same, ⟨h.above.tokens, h.above.significant, next.placed⟩, h.quiet, ?_⟩
  rw [behind, ← List.tail_drop, h.view]
  rfl

/-- A part that touches the one in front of it has no trivia before it. -/
theorem next_two (h : b.At ts (s :: u :: view)) (touch : u.touches = true) : ∃ t v gap, Placed.Next b t gap ∧
    Placed.Next (b.behind 1 (b.pos + gap.length)) v [] ∧ t.bare = s.token ∧ v.bare = u.token ∧
    (b.behind 2 (b.pos + gap.length + 1)).At ts view := by
  obtain ⟨t, gap, next, same, after⟩ := h.next
  obtain ⟨v, gap', next', same', after'⟩ := after.next
  have close : b.adjacent 1 = true := (h.adjacent (n := 1) rfl).trans touch
  rw [Builder.adjacent, Grammar.gap_eq next next', List.isEmpty_iff] at close
  subst close
  exact ⟨t, v, gap, next, next', same, same', after'⟩

end At

end Builder

/-! What markers and elements show. -/

structure Marker.Shows (m : Marker) (es : List RawElement) : Prop where
  leading : ∀ l ∈ m.leading, l.token.kind.isTrivia = true
  bare : bareAll m.children.toList = es
  /-- Trivia is known as such. -/
  known : ∀ l ∈ m.leaves, l.token.kind.isTrivia = true → l.trivia = true

abbrev Parsed.Shows (p : Parsed) (e : RawElement) : Prop := (Marker.ofParsed p).Shows [e]

variable {m n : Marker} {p : Parsed} {e : RawElement} {es fs : List RawElement}

theorem Marker.Shows.absorb (h : m.Shows es) (k : n.Shows fs) : (m.absorb n).Shows (es ++ fs) where
  leading := by
    intro l member
    have split : l ∈ m.leading ∨ l ∈ n.leading := by
      simp only [Marker.absorb, Marker.addTrivia] at member
      split at member
      · exact List.mem_append.mp member
      · exact .inl member
    exact split.elim (h.leading l) (k.leading l)
  bare := by rw [Marker.bareAll_absorb m k.leading, h.bare, k.bare]
  known := by
    intro l member
    rw [leaves_absorb] at member
    exact (List.mem_append.mp member).elim (h.known l) (k.known l)

theorem Marker.Shows.add (h : m.Shows es) (k : p.Shows e) : (m.add p).Shows (es ++ [e]) := by
  rw [Marker.add_eq_absorb]
  exact h.absorb k

theorem Marker.Shows.empty : Marker.empty.Shows [] := ⟨by simp [Marker.empty], rfl, by simp⟩

theorem Marker.Shows.node (h : m.Shows es) (kind : RawKind) (role : Option String) :
    Parsed.Shows ⟨m.leading, .node kind role m.children.toList⟩ (.node kind role es) := by
  refine ⟨h.leading, ?_, ?_⟩
  · rw [Marker.ofParsed, bareAll_node, h.bare]
  · intro l member
    rw [leaves_ofParsed] at member
    exact h.known l member

theorem Parsed.Shows.element_bare (shown : p.Shows e) : p.element.bare = e := by
  have bare : RawElement.bareAll [p.element] = [e] := shown.bare
  rw [RawElement.bareAll] at bare
  split at bare
  · cases bare
  · exact (List.cons.inj bare).1

/-- A leaf of its own, with trivia in front of it. -/
theorem Parsed.Shows.leaf {gap : List Token} {t : Token} (blank : ∀ u ∈ gap, u.kind.isTrivia = true)
    (part : t.kind.isTrivia = false) : Parsed.Shows ⟨gap.map Leaf.ofToken, .leaf ⟨t, false⟩⟩ (.leaf ⟨t.bare, false⟩) := by
  constructor
  · intro l member
    obtain ⟨u, inside, rfl⟩ := List.mem_map.mp member
    exact blank u inside
  · rw [Marker.ofParsed, bareAll, if_neg (by simp [isBlank, part])]
    rfl
  · intro l member trivia
    rw [Marker.leaves_ofParsed] at member
    rcases List.mem_append.mp member with waits | own
    · obtain ⟨u, _, rfl⟩ := List.mem_map.mp waits
      exact trivia
    · cases List.mem_singleton.mp own
      simp [part] at trivia

open Grammar

variable {scope : Scope} {ts : List Token} {b : Builder} {view : List Glance} {s u : Glance} {kind : RawKind}
  {role : Option String}

theorem Marker.Shows.done (h : m.Shows es) (some : es ≠ []) : Reads scope (Grammar.done m kind role) b fun p b' =>
    p.Shows (.node kind role es) ∧ b' = b := by
  have filled : m.children.isEmpty = false := by
    rw [Bool.eq_false_iff]
    intro empty
    have none := h.bare
    rw [Array.isEmpty_iff.mp empty] at none
    exact some none.symm
  unfold Grammar.done
  rw [Marker.done, if_neg (by simp [filled])]
  exact .pure ⟨h.node kind role, rfl⟩

namespace Builder.At

theorem token (h : b.At ts (s :: view)) : Reads scope Grammar.token b fun p b' =>
    p.Shows (.leaf ⟨s.token, false⟩) ∧ b'.At ts view := by
  obtain ⟨t, gap, next, same, after⟩ := h.next
  refine .look ?_
  rw [next.take, ← same]
  exact .goTo (.pure ⟨.leaf next.blank next.significant, after⟩)

theorem advance (h : b.At ts (s :: view)) (shown : m.Shows es) : Reads scope (Grammar.advance m) b fun m' b' =>
    m'.Shows (es ++ [.leaf ⟨s.token, false⟩]) ∧ b'.At ts view := by
  obtain ⟨t, gap, next, same, after⟩ := h.next
  refine .look ?_
  rw [next.take, ← same]
  exact .goTo (.pure ⟨shown.add (.leaf next.blank next.significant), after⟩)

/-- Two parts that touch become one operator. -/
theorem advanceGlued (h : b.At ts (s :: u :: view)) (touch : u.touches = true) (shown : m.Shows es) :
    Reads scope (Grammar.advanceGlued m 2) b fun m' b' =>
      m'.Shows (es ++ [.leaf ⟨⟨.operator, 0, 0, s.token.text ++ u.token.text⟩, false⟩]) ∧ b'.At ts view := by
  obtain ⟨t, v, gap, next, next', same, same', after⟩ := h.next_two touch
  refine .look ?_
  rw [next.take_two next', ← same, ← same']
  refine .goTo (.pure ⟨?_, after⟩)
  have leaf := Parsed.Shows.leaf next.blank (t := ⟨.operator, t.start, v.stop, String.join [t.text, v.text]⟩) rfl
  have added := shown.add leaf
  simpa [String.join, Token.bare, Marker.add] using added

end Builder.At

end KotlinSyntax
