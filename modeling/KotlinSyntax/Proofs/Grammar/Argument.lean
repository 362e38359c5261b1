import KotlinSyntax.Grammar.Argument
import KotlinSyntax.Proofs.Grammar.Type

/-! Arguments, parameters and annotations. -/
namespace KotlinSyntax.Grammar

open Builder RawElement

variable {recur : Recur} {limit : Nat} {scope : Scope} {b₀ b : Builder} {m : Marker} {o : Outline}

theorem valueArgument_gives (serves : Serves recur limit) (placed : b.Placed) (free : 4 * b.remaining + 4 ≤ limit) :
    Ensures scope (valueArgument recur) b (Gives (fun e => e.isOf .valueArgument = true) b) := by
  refine .bind ((Holds.plain placed).advanceTwiceIf ?_) ?_
  · intro named
    simp only [Bool.and_eq_true] at named
    obtain ⟨u, seen, spelled⟩ := peek_of_sees named.2
    exact ⟨ahead_of_seesName placed named.1, u, seen, ordinary_of_spells spelled (by decide)⟩
  · rintro m b₁ ⟨h, le⟩
    refine .bind (h.advanceIf fun seen => ahead_of_sees seen (by decide)) ?_
    rintro m b₂ ⟨h, le'⟩
    refine .bind (serves.expression h.placed (by omega)) ?_
    intro p b₃ given
    have := given.lt
    exact (h.add given).donePlain (by omega) rfl (fun _ => rfl)

theorem valueArguments_gives (serves : Serves recur limit) (placed : b.Placed) (near : 4 * b.remaining ≤ limit) :
    Ensures scope (valueArguments recur) b (Gives Ordinary b) :=
  .withTrailingLambdas (bracketed_gives rfl rfl (fun _ => trivial) (by decide) rfl placed fun _ placed less =>
    valueArgument_gives serves placed (by omega))

theorem annotationEntry_gives (serves : Serves recur limit) (placed : b.Placed) (near : 4 * b.remaining ≤ limit) :
    Ensures scope (annotationEntry recur) b (Gives Ordinary b) := by
  refine .bind (userType_gives serves placed near false) ?_
  intro type b₁ given
  have := given.lt
  have h := (Holds.plain placed).add given
  refine .bind (h.addIf fun _ => valueArguments_gives serves h.placed (by omega)) ?_
  rintro m b₂ ⟨h, le⟩
  exact h.donePlain (by omega) rfl (fun _ => rfl)

theorem ahead_of_atTarget (placed : b.Placed) (h : atTarget b = true) :
    Ahead b ∧ ∃ u, b.peek 1 = some u ∧ Ordinary (.leaf ⟨u, false⟩) := by
  simp only [atTarget, Bool.and_eq_true] at h
  obtain ⟨⟨⟨target, _⟩, colon⟩, _⟩ := h
  obtain ⟨u, seen', spelled⟩ := peek_of_sees colon
  refine ⟨?_, u, seen', ordinary_of_spells spelled (by decide)⟩
  cases seen : b.peek with
  | none => simp [seen] at target
  | some t =>
    have name : t.kind = .identifier := by
      rw [seen] at target
      simp only [Option.any_some, Bool.and_eq_true, beq_iff_eq] at target
      exact target.1
    exact ⟨t, seen, ordinary_of_isOperand (proper_of_peek placed seen) (by rw [name]; rfl)⟩

theorem annotationSet_gives (serves : Serves recur limit) (placed : b.Placed) (near : 4 * b.remaining ≤ limit)
    (seen : b.sees "@" = true) : Ensures scope (annotationSet recur) b (Gives Ordinary b) := by
  refine .bind ((Holds.plain placed).advance (ahead_of_sees seen (by decide))) ?_
  rintro m b₁ ⟨h, less⟩
  refine .bind (h.advanceTwiceIf (ahead_of_atTarget h.placed)) ?_
  rintro m b₂ ⟨h, le⟩
  refine .look (.ite ?_ ?_)
  · intro bracket
    simp only [Bool.and_eq_true] at bracket
    refine .bind (h.advance (ahead_of_sees bracket.1 (by decide))) ?_
    rintro m b₃ ⟨h, less'⟩
    refine .bind (h.iterateWhile fun m' b' holds le' _ => .bind
      (annotationEntry_gives serves holds.placed (by omega)) fun p b'' given => .pure (holds.took given)) ?_
    rintro m b₄ ⟨⟨h, le'⟩, closed⟩
    have closing : b₄.sees "]" = true := by simpa using closed
    refine .bind (h.advance (ahead_of_sees closing (by decide))) ?_
    rintro m b₅ ⟨h, less''⟩
    exact h.donePlain (by omega) rfl (fun _ => rfl)
  · intro _
    refine .bind (annotationEntry_gives serves h.placed (by omega)) ?_
    intro p b₃ given
    have := given.lt
    exact (h.add given).donePlain (by omega) rfl (fun _ => rfl)

theorem assignedInto_kept (serves : Serves recur limit) (h : Holds o.holds b₀ m b) (near : 4 * b.remaining ≤ limit) :
    Ensures scope (assignedInto recur m) b (Kept o.holds b₀ b) := by
  refine .look (.ite ?_ ?_)
  · intro seen
    refine .bind (h.advance (ahead_of_sees seen (by decide))) ?_
    rintro m b₁ ⟨h, less⟩
    refine .bind (serves.expression h.placed (by omega)) ?_
    intro p b₂ given
    have := given.lt
    exact .pure ⟨h.add given, by omega⟩
  · intro _
    exact .pure ⟨h, Nat.le_refl _⟩

theorem valueParameter_gives (serves : Serves recur limit) (placed : b.Placed) (free : 4 * b.remaining + 4 ≤ limit) :
    Ensures scope (valueParameter recur) b (Gives (fun e => e.isOf .valueParameter = true) b) := by
  refine .bind (modified_kept serves (Holds.plain placed) (by omega)) ?_
  rintro m b₁ ⟨h, le⟩
  refine .bind (h.advanceIf fun seen => ahead_of_seesAny seen (by decide)) ?_
  rintro m b₂ ⟨h, le₂⟩
  refine .bind h.expectName ?_
  rintro m b₃ ⟨h, less⟩
  refine .bind (typeSuffix_kept serves h (by omega)) ?_
  rintro m b₄ ⟨h, le₄⟩
  refine .bind (assignedInto_kept serves h (by omega)) ?_
  rintro m b₅ ⟨h, le₅⟩
  exact h.donePlain (by omega) rfl (fun _ => rfl)

theorem valueParameters_gives (serves : Serves recur limit) (placed : b.Placed) (near : 4 * b.remaining ≤ limit) :
    Ensures scope (valueParameters recur) b (Gives Ordinary b) :=
  .withTrailingLambdas (bracketed_gives rfl rfl (fun _ => trivial) (by decide) rfl placed fun _ placed less =>
    valueParameter_gives serves placed (by omega))

end KotlinSyntax.Grammar
