import KotlinSyntax.Proofs.Shape

/-! Quotes within elements. Where no tokens were skipped, an element closes what it opens and nothing else,
so the quotes around the entries of a string match. -/
namespace KotlinSyntax

open RawElement

/-- No skipped tokens are in the element. -/
inductive Clean : RawElement → Prop
  | leaf (l : Leaf) : Clean (.leaf l)
  | node (kind : RawKind) (role : Option String) (children : List RawElement) (fine : kind ≠ .errorElement)
      (below : ∀ e ∈ children, Clean e) : Clean (.node kind role children)

/-- What is open behind the elements, if they close only what was opened last. -/
def Nests (marks : List Mark) (es : List RawElement) (marks' : List Mark) : Prop :=
  Token.nestAll marks ((leavesAll es).map (·.token)) = some marks'

variable {marks marks' : List Mark} {es fs : List RawElement} {e : RawElement}

namespace Nests

theorem append (h : Nests marks (es ++ fs) marks') : ∃ inner, Nests marks es inner ∧ Nests inner fs marks' := by
  unfold Nests at h
  rw [leavesAll_append, List.map_append, Token.nestAll_append] at h
  exact Option.bind_eq_some_iff.mp h

theorem cons (h : Nests marks (e :: es) marks') : ∃ inner, Nests marks [e] inner ∧ Nests inner es marks' := by
  rw [← List.singleton_append] at h
  exact h.append

theorem leaf {l : Leaf} (h : Nests marks [.leaf l] marks') : l.token.nest marks = some marks' := by
  obtain ⟨inner, first, rest⟩ := Option.bind_eq_some_iff.mp h
  cases rest
  exact first

theorem node {kind : RawKind} {role : Option String} (h : Nests marks [.node kind role es] marks') :
    Nests marks es marks' := by
  simpa [Nests, leavesAll, leaves] using h

/-- What stands among elements that nest does so too. -/
theorem mem (h : Nests marks es marks') (member : e ∈ es) : ∃ outer outer', Nests outer [e] outer' := by
  obtain ⟨front, back, rfl⟩ := List.append_of_mem member
  obtain ⟨inner, _, rest⟩ := h.append
  obtain ⟨outer', nests, _⟩ := rest.cons
  exact ⟨inner, outer', nests⟩

/-- Trivia opens and closes nothing. -/
theorem significant (h : Nests marks es marks') (sound : ∀ e ∈ es, Sound e) : Nests marks (significant es) marks' := by
  induction es generalizing marks with
  | nil => exact h
  | cons e es ih =>
    obtain ⟨inner, first, rest⟩ := h.cons
    have later := ih rest fun x member => sound x (List.mem_cons_of_mem e member)
    cases trivia : e.isTrivia with
    | false =>
      rw [RawElement.significant, List.filter_cons_of_pos (by simp [trivia])]
      unfold Nests at first later ⊢
      simp only [leavesAll, List.map_append, Token.nestAll_append, List.append_nil] at first ⊢
      rw [first]
      exact later
    | true =>
      rw [RawElement.significant, List.filter_cons_of_neg (by simp [trivia])]
      cases e with
      | node => cases trivia
      | leaf l =>
        cases sound (.leaf l) (List.mem_cons_self ..) with
        | leaf l unmarked =>
          have same := first.leaf
          rw [Token.nest_of_not_isMark (unmarked trivia)] at same
          cases same
          exact later

end Nests

theorem Token.nest_openQuote {t : Token} (h : t.kind = .openQuote) : t.nest marks = some (.quote t.text :: marks) := by
  simp [nest, h]

/-- A closing token that fits closes what was opened last. -/
theorem Token.nest_closeQuote {t : Token} {text : String} (h : t.kind = .closeQuote)
    (nests : t.nest (.quote text :: marks) = some marks') : text = t.text ∧ marks' = marks := by
  simp only [nest, h] at nests
  split at nests
  · rename_i same
    exact ⟨same, (Option.some.inj nests).symm⟩
  · cases nests

/-- The parts of a node without skipped tokens hold no marks, or stand between two. -/
theorem Fits.unmarked_or {kind : RawKind} (fits : Fits kind es) (fine : kind ≠ .errorElement) :
    (∀ e ∈ es, e.isMark = false) ∨ Enclosed .openQuote .closeQuote es ∨
      Enclosed .longTemplateStart .longTemplateEnd es := by
  cases kind with
  | errorElement => exact absurd rfl fine
  | stringTemplate => exact .inr (.inl fits.1)
  | longTemplate => exact .inr (.inr fits)
  | _ => exact .inl fits.1

def Neutral (e : RawElement) : Prop := ∀ marks marks', Nests marks [e] marks' → marks' = marks

theorem neutral_all (each : ∀ e ∈ es, Neutral e) (h : Nests marks es marks') : marks' = marks := by
  induction es generalizing marks with
  | nil => exact (Option.some.inj h).symm
  | cons e es ih =>
    obtain ⟨inner, first, rest⟩ := h.cons
    have same := each e (List.mem_cons_self ..) marks inner first
    subst same
    exact ih (fun x member => each x (List.mem_cons_of_mem e member)) rest

/-- Between two marks that fit, what they enclose is nested by itself. -/
theorem Nests.enclosed {first last : Leaf} {inner : List RawElement}
    (h : Nests marks (.leaf first :: inner ++ [.leaf last]) marks') (each : ∀ e ∈ inner, Neutral e) :
    ∃ opened, first.token.nest marks = some opened ∧ last.token.nest opened = some marks' := by
  obtain ⟨middle, front, closes⟩ := h.append
  obtain ⟨opened, opens, within⟩ := front.cons
  have same := neutral_all each within
  subst same
  exact ⟨middle, opens.leaf, closes.leaf⟩

theorem Sound.neutral (sound : Sound e) (clean : Clean e) (unmarked : e.isMark = false) : Neutral e := by
  induction sound with
  | leaf l _ =>
    intro marks marks' nests
    have same := nests.leaf
    rw [Token.nest_of_not_isMark unmarked] at same
    exact (Option.some.inj same).symm
  | node kind role children fits below ih =>
    cases clean with
    | node _ _ _ fine cleanBelow =>
      intro marks marks' nests
      have parts := nests.node.significant below
      have each : ∀ e ∈ RawElement.significant children, e.isMark = false → Neutral e := by
        intro e member plain
        have inside := List.mem_of_mem_filter member
        exact ih e inside (cleanBelow e inside) plain
      rcases fits.unmarked_or fine with plain | enclosed | enclosed
      · exact neutral_all (fun e member => each e member (plain e member)) parts
      · obtain ⟨first, inner, last, split, opens, closes, plain⟩ := enclosed
        rw [split] at parts each
        obtain ⟨opened, front, back⟩ := parts.enclosed fun e member => each e (by simp [member]) (plain e member)
        rw [Token.nest_openQuote opens] at front
        cases front
        exact (Token.nest_closeQuote closes back).2
      · obtain ⟨first, inner, last, split, opens, closes, plain⟩ := enclosed
        rw [split] at parts each
        obtain ⟨opened, front, back⟩ := parts.enclosed fun e member => each e (by simp [member]) (plain e member)
        simp only [Token.nest, opens] at front
        cases front
        simp only [Token.nest, closes] at back
        exact (Option.some.inj back).symm

/-- Quotes around the entries of a string, which match unless tokens were skipped between them. -/
def Quoted (es : List RawElement) : Prop :=
  ∃ first inner last, es = .leaf first :: inner ++ [.leaf last] ∧
    (first.token.text = "\"" ∨ first.token.text = "\"\"\"") ∧
      ((∀ e ∈ inner, Clean e) → last.token.text = first.token.text)

theorem quoted_of_enclosed (enclosed : Enclosed .openQuote .closeQuote (significant es)) (sound : ∀ e ∈ es, Sound e)
    (proper : ∀ l ∈ leavesAll es, l.token.isProper = true) (nests : Nests marks es marks') :
    Quoted (significant es) := by
  obtain ⟨first, inner, last, split, opens, closes, plain⟩ := enclosed
  have whole := nests.significant sound
  have member : ∀ e ∈ significant es, e ∈ es := fun e member => List.mem_of_mem_filter member
  rw [split] at whole member
  refine ⟨first, inner, last, split, ?_, ?_⟩
  · have here : first.token.isProper = true :=
      proper first (mem_leavesAll (member (.leaf first) (by simp)) (by simp [leaves]))
    simp only [Token.isProper, opens, quoteText, Bool.or_eq_true, beq_iff_eq] at here
    exact here.symm
  · intro clean
    obtain ⟨opened, front, back⟩ := whole.enclosed fun e inside =>
      (sound e (member e (by simp [inside]))).neutral (clean e inside) (plain e inside)
    rw [Token.nest_openQuote opens] at front
    cases front
    exact (Token.nest_closeQuote closes back).1.symm

end KotlinSyntax
