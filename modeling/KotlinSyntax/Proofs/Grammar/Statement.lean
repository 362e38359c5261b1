import KotlinSyntax.Grammar.Statement
import KotlinSyntax.Proofs.Grammar.Argument

/-! Runs of statements, blocks and lambdas. -/
namespace KotlinSyntax.Grammar

open Builder RawElement

variable {may : Prop} {recur : Recur} {limit : Nat} {scope : Scope} {b₀ b : Builder} {m : Marker} {o : Outline}

theorem complainUnless_ensures {fine : Bool} {complaint : Complaint} :
    Ends may scope (complainUnless fine complaint) b fun _ b' => b' = b := by
  refine .ite ?_ ?_
  · intro _
    exact .pure rfl
  · intro _
    exact rfl

theorem statementTurn_took (serves : Serves recur limit) (state : Marker × Bool) (h : Holds o.holds b₀ state.1 b)
    (more : b.atEnd = false) (free : 4 * b.remaining + 4 ≤ limit) :
    Ends may scope (statementTurn recur state) b fun state' b' => Took o.holds b₀ b state'.1 b' := by
  obtain ⟨m, isFirst⟩ := state
  refine .look (.bind complainUnless_ensures ?_)
  rintro _ _ rfl
  exact .bind (h.recovering more (serves.statement h.placed (by omega))) fun m' b' took => .pure took

theorem statementsInto_kept (serves : Serves recur limit) {stops : Builder → Bool} (h : Holds o.holds b₀ m b)
    (free : 4 * b.remaining + 4 ≤ limit) :
    Ends may scope (statementsInto recur stops m) b fun m' b' =>
      Kept o.holds b₀ b m' b' ∧ (stops b' = false → b'.atEnd = true) := by
  refine .bind (.iterateWhile (fun state b' => Kept o.holds b₀ b state.1 b') ?_ ⟨h, Nat.le_refl _⟩) ?_
  · rintro state b' ⟨holds, le⟩ goesOn
    have more : b'.atEnd = false := by
      simp only [Bool.and_eq_true, Bool.not_eq_true'] at goesOn
      exact goesOn.2
    refine (statementTurn_took serves state holds more (by omega)).mono ?_
    rintro state' b'' ⟨holds, less⟩
    exact ⟨⟨holds, by omega⟩, less⟩
  · rintro ⟨m', isFirst⟩ b' ⟨kept, stopped⟩
    refine .pure ⟨kept, ?_⟩
    simpa using stopped

theorem block_gives (serves : Serves recur limit) (placed : b.Placed) (near : 4 * b.remaining ≤ limit) :
    Ensures scope (block recur) b (Gives Ordinary b) := by
  refine .withTrailingLambdas (.bind ((Holds.plain placed).expect (by decide)) ?_)
  rintro m b₁ ⟨h, less⟩
  refine .bind (statementsInto_kept serves h (by omega)) ?_
  rintro m b₂ ⟨⟨h, le⟩, _⟩
  refine .bind (h.expect (by decide)) ?_
  rintro m b₃ ⟨h, less'⟩
  exact h.donePlain (by omega) rfl (fun _ => rfl)

theorem controlBody_gives (serves : Serves recur limit) (placed : b.Placed) (free : 4 * b.remaining + 4 ≤ limit) :
    Ensures scope (controlBody recur) b (Gives Ordinary b) := by
  refine .look (.ite ?_ ?_)
  · intro _
    exact block_gives serves placed (by omega)
  · intro _
    exact serves.expression placed (by omega)

/-! Lambdas. -/

theorem lambdaParameterVariable_gives (serves : Serves recur limit) (placed : b.Placed)
    (free : 4 * b.remaining + 4 ≤ limit) :
    Ensures scope (lambdaParameterVariable recur) b
      (Gives (fun e => e.isOf .lambdaParameterVariable = true) b) := by
  refine .bind (modified_kept serves (Holds.plain placed) (by omega)) ?_
  rintro m b₁ ⟨h, le⟩
  refine .bind h.expectName ?_
  rintro m b₂ ⟨h, less⟩
  refine .bind (typeSuffix_kept serves h (by omega)) ?_
  rintro m b₃ ⟨h, le'⟩
  exact h.donePlain (by omega) rfl (fun _ => rfl)

theorem lambdaParameter_gives (serves : Serves recur limit) (placed : b.Placed)
    (free : 4 * b.remaining + 4 ≤ limit) :
    Ensures scope (lambdaParameter recur) b (Gives (fun e => e.isOf .lambdaParameter = true) b) := by
  refine .look (.ite ?_ ?_)
  · intro seen
    have start : Holds (Outline.list .lambdaParameterVariable rfl).holds b .empty b := .start placed Open.nil.list
    refine .bind (start.advanceOpening seen (by decide)) ?_
    rintro m b₁ ⟨h, less⟩
    refine .bind (h.commaList rfl fun b' placed le => lambdaParameterVariable_gives serves placed (by omega)) ?_
    rintro m b₂ ⟨⟨h, le⟩, _⟩
    refine .bind (h.expect (by decide)) ?_
    rintro m b₃ ⟨h, less'⟩
    refine .bind (typeSuffix_kept serves h (by omega)) ?_
    rintro m b₄ ⟨h, le'⟩
    exact h.done (by omega) (fun es listed => fits_of_item rfl trivial listed.1 listed.2) (fun _ => rfl)
  · intro _
    refine .bind (lambdaParameterVariable_gives serves placed free) ?_
    intro p b₁ given
    have h : Holds (Outline.list .lambdaParameterVariable rfl).holds b (Marker.empty.add p) b₁ :=
      Holds.addWith (.start placed Open.nil) given fun es opened => opened.append given.holds rfl
    exact h.done given.lt (fun es listed => fits_of_item rfl trivial listed.1 listed.2) (fun _ => rfl)

/-- The arrow behind the parameters is not taken yet. -/
theorem lambdaParameters_gives (serves : Serves recur limit) (placed : b.Placed)
    (free : 4 * b.remaining + 4 ≤ limit) (noArrow : b.sees "->" = false) :
    Ensures scope (lambdaParameters recur) b fun p b' =>
      Gives (fun e => e.isOf .lambdaParameterList = true) b p b' ∧ b'.sees "->" = true := by
  have start : Holds (Open .lambdaParameter) b .empty b := .start placed Open.nil
  refine .bind (start.commaList rfl fun b' placed le => lambdaParameter_gives serves placed (by omega)) ?_
  rintro m b₁ ⟨⟨h, _⟩, moved⟩
  refine .bind (h.doneHere (P := fun e => e.isOf .lambdaParameterList = true) (moved noArrow)
    (fun es listed => fits_of_item rfl trivial listed.1 listed.2) (fun _ => rfl)) ?_
  rintro params _ ⟨given, rfl⟩
  refine .look (.ite ?_ fun _ => .reject)
  intro arrow
  exact .pure ⟨given, arrow⟩

theorem lambdaParametersInto_kept (serves : Serves recur limit) (h : Holds Outline.arrowed.holds b₀ m b)
    (free : 4 * b.remaining + 4 ≤ limit) :
    Ensures scope (lambdaParametersInto recur m) b (Kept Outline.arrowed.holds b₀ b) := by
  refine .look (.ite ?_ ?_)
  · intro arrow
    exact (h.advance (ahead_of_sees arrow (by decide))).mono fun m' b' took => took.kept
  · intro noArrow
    refine .bind (.speculate (lambdaParameters_gives serves h.placed free (by simpa using noArrow))) ?_
    rintro (_ | params) b' given
    · cases given
      exact .pure ⟨h, Nat.le_refl _⟩
    · obtain ⟨given, arrow⟩ := given
      obtain ⟨t, seen, spelled⟩ := peek_of_sees arrow
      have less := given.lt
      have listed := h.addWith (J := fun es => ∃ es', es = es' ++ [params.element] ∧ Outline.arrowed.holds es') given
        fun es arrowed => ⟨es, rfl, arrowed⟩
      refine (listed.advanceWith (J := Outline.arrowed.holds) seen ?_).mono ?_
      · rintro _ ⟨es, rfl, unmarked, framed, last⟩
        have plain := not_isMark_of_isOrdinary (ordinary_of_spells spelled (by decide))
        have node : params.element.isMark = false := by
          cases element : params.element with
          | leaf => have := given.holds; rw [element] at this; cases this
          | node => rfl
        refine ⟨unmarked_append (unmarked_append unmarked node) plain, ?_, by simp [isOf]⟩
        refine chain_append (chain_append framed ?_) ?_
        · intro x ends is
          rw [last x ends] at is
          cases is
        · intro x ends _
          simp [spells, Token.text_of_spells spelled]
      · rintro m' b'' ⟨⟨h, less'⟩, _⟩
        exact ⟨h, by omega⟩

theorem lambdaBody_perhaps (serves : Serves recur limit) (placed : b.Placed) (free : 4 * b.remaining + 4 ≤ limit) :
    Ensures scope (lambdaBody recur) b (Perhaps Ordinary b) := by
  refine .bind (statementsInto_kept serves (Holds.plain placed) free) ?_
  rintro body b' ⟨⟨h, _⟩, _⟩
  exact h.doneUnlessEmpty (fun es unmarked => fits_of_isPlain rfl unmarked) (fun _ => rfl)

theorem lambda_gives (serves : Serves recur limit) (placed : b.Placed) (near : 4 * b.remaining ≤ limit) :
    Ensures scope (lambda recur) b (Gives Ordinary b) := by
  have start : Holds Outline.arrowed.holds b .empty b :=
    .start placed ⟨by simp, List.isChain_nil, by simp⟩
  refine .withTrailingLambdas (.bind (start.expect (by decide)) ?_)
  rintro m b₁ ⟨h, less⟩
  refine .bind (lambdaParametersInto_kept serves h (by omega)) ?_
  rintro m b₂ ⟨h, le⟩
  refine .bind (lambdaBody_perhaps serves h.placed (by omega)) ?_
  intro body b₃ given
  obtain ⟨h, le'⟩ := h.add? given
  refine .bind (h.expect (by decide)) ?_
  rintro m b₄ ⟨h, less'⟩
  exact h.done (by omega) (fun es arrowed => ⟨arrowed.1, nofun, arrowed.2⟩) (fun _ => rfl)

end KotlinSyntax.Grammar
