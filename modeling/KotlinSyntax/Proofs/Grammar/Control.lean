import KotlinSyntax.Grammar.Control
import KotlinSyntax.Proofs.Grammar.Declaration

/-! Branches, loops, jumps and other expressions that a keyword begins. -/
namespace KotlinSyntax.Grammar

open Builder RawElement

variable {recur : Recur} {limit : Nat} {scope : Scope} {b₀ b : Builder} {m : Marker} {o : Outline} {t : Token}

/-- The first token of a node tells its kind. -/
theorem advanceHead_took (placed : b.Placed) (seen : b.peek = some t) (plain : Ordinary (.leaf ⟨t, false⟩)) :
    Ensures scope (advance .empty) b (Took (Outline.headed t.text).holds b b) := by
  have start : Holds (fun es => es = []) b .empty b := .start placed rfl
  refine (start.advanceWith (J := (Outline.headed t.text).holds) seen ?_).mono fun _ _ after => after.1
  rintro _ rfl
  exact ⟨by simpa [isMark] using not_isMark_of_isOrdinary plain, ⟨t, false⟩, [], rfl, rfl⟩

theorem labelInto_kept (h : Holds o.holds b₀ m b) : Ensures scope (labelInto m) b (Kept o.holds b₀ b) := by
  refine .look (.ite ?_ ?_)
  · intro label
    simp only [Bool.and_eq_true] at label
    refine .bind (h.advance (ahead_of_sees label.1.1 (by decide))) ?_
    rintro m b₁ ⟨h, less⟩
    refine h.expectName.mono ?_
    rintro m b₂ ⟨h, less'⟩
    exact ⟨h, by omega⟩
  · intro _
    exact .pure ⟨h, Nat.le_refl _⟩

theorem thisExpression_gives (placed : b.Placed) (ahead : Ahead b) :
    Ensures scope thisExpression b (Gives Ordinary b) := by
  refine .bind ((Holds.plain placed).advance ahead) ?_
  rintro m b₁ ⟨h, less⟩
  refine .bind (labelInto_kept h) ?_
  rintro m b₂ ⟨h, le⟩
  exact h.donePlain (by omega) rfl (fun _ => rfl)

theorem superTypeInto_kept (serves : Serves recur limit) (h : Holds o.holds b₀ m b) (near : 4 * b.remaining ≤ limit) :
    Ensures scope (superTypeInto recur m) b (Kept o.holds b₀ b) := by
  refine .look (.ite ?_ ?_)
  · intro bracket
    simp only [Bool.and_eq_true] at bracket
    refine .bind (h.advance (ahead_of_sees bracket.1 (by decide))) ?_
    rintro m b₁ ⟨h, less⟩
    refine .bind (serves.type h.placed false (by omega)) ?_
    intro type b₂ given
    have := given.lt
    refine ((h.add given).expect (by decide)).mono ?_
    rintro m b₃ ⟨h, less'⟩
    exact ⟨h, by omega⟩
  · intro _
    exact .pure ⟨h, Nat.le_refl _⟩

theorem superExpression_gives (serves : Serves recur limit) (placed : b.Placed) (near : 4 * b.remaining ≤ limit)
    (ahead : Ahead b) : Ensures scope (superExpression recur) b (Gives Ordinary b) := by
  refine .bind ((Holds.plain placed).advance ahead) ?_
  rintro m b₁ ⟨h, less⟩
  refine .bind (superTypeInto_kept serves h (by omega)) ?_
  rintro m b₂ ⟨h, le⟩
  refine .bind (labelInto_kept h) ?_
  rintro m b₃ ⟨h, le'⟩
  exact h.donePlain (by omega) rfl (fun _ => rfl)

/-! Jumps. -/

theorem throwExpression_gives (serves : Serves recur limit) (placed : b.Placed) (near : 4 * b.remaining ≤ limit)
    (seen : b.peek = some t) (plain : Ordinary (.leaf ⟨t, false⟩)) (word : t.text = "throw") :
    Ensures scope (throwExpression recur) b (Gives Ordinary b) := by
  refine .bind (advanceHead_took placed seen plain) ?_
  rintro m b₁ ⟨h, less⟩
  refine .bind (serves.expression h.placed (by omega)) ?_
  intro e b₂ given
  have := given.lt
  refine (h.add given).done (by omega) ?_ (fun _ => rfl)
  intro es headed
  exact ⟨headed.1, nofun, by simpa [Framed, word] using headed.2⟩

theorem returnExpression_gives (serves : Serves recur limit) (placed : b.Placed) (near : 4 * b.remaining ≤ limit)
    (seen : b.peek = some t) (plain : Ordinary (.leaf ⟨t, false⟩)) (word : t.text = "return") :
    Ensures scope (returnExpression recur) b (Gives Ordinary b) := by
  have fits : ∀ es, (Outline.headed t.text).holds es → Fits .returnExpression es := by
    intro es headed
    exact ⟨headed.1, nofun, by simpa [Framed, word] using headed.2⟩
  refine .bind (advanceHead_took placed seen plain) ?_
  rintro m b₁ ⟨h, less⟩
  refine .bind (labelInto_kept h) ?_
  rintro m b₂ ⟨h, le⟩
  refine .look (.ite ?_ ?_)
  · intro _
    refine .bind (serves.expression h.placed (by omega)) ?_
    intro e b₃ given
    have := given.lt
    exact (h.add given).done (by omega) fits (fun _ => rfl)
  · intro _
    exact h.done (by omega) fits (fun _ => rfl)

theorem jump_gives {kind : RawKind} (placed : b.Placed) (seen : b.peek = some t)
    (plain : Ordinary (.leaf ⟨t, false⟩)) (fits : ∀ es, (Outline.headed t.text).holds es → Fits kind es)
    (goal : kind.isItem = false) : Ensures scope (jump kind) b (Gives Ordinary b) := by
  refine .bind (advanceHead_took placed seen plain) ?_
  rintro m b₁ ⟨h, less⟩
  refine .bind (labelInto_kept h) ?_
  rintro m b₂ ⟨h, le⟩
  exact h.done (by omega) fits (fun _ => by simp [Ordinary, isOrdinary, goal])

/-! Branches. -/

theorem emptyBody_ensures {what : String} (h : Holds Outline.plain.holds b₀ m b)
    (moved : b.remaining < b₀.remaining) :
    Ensures scope (emptyBody m what) b (Maybe (Gives Ordinary b₀) (· = b)) := by
  refine .look (.ite ?_ ?_)
  · intro _
    exact .note (.map (h.donePlain moved rfl (fun _ => rfl)))
  · intro _
    exact .pure rfl

theorem conditionInto_took (serves : Serves recur limit) (h : Holds o.holds b₀ m b) (near : 4 * b.remaining ≤ limit) :
    Ensures scope (conditionInto recur m) b (Took o.holds b₀ b) := by
  refine .withTrailingLambdas (.bind (h.expect (by decide)) ?_)
  rintro m b₁ ⟨h, less⟩
  refine .bind (serves.expression h.placed (by omega)) ?_
  intro condition b₂ given
  have := given.lt
  refine ((h.add given).expect (by decide)).mono ?_
  rintro m b₃ ⟨h, less'⟩
  exact ⟨h, by omega⟩

/-- A body, or its absence, ends the node. -/
theorem loopBody_gives (serves : Serves recur limit) {what : String} {kind : RawKind}
    (h : Holds Outline.plain.holds b₀ m b) (moved : b.remaining < b₀.remaining)
    (free : 4 * b.remaining + 4 ≤ limit) (plain : kind.isPlain = true) (goal : kind.isItem = false) :
    Ensures scope (loopBody recur m what kind) b (Gives Ordinary b₀) := by
  refine .bind (emptyBody_ensures h moved) ?_
  rintro (_ | empty) b₁ given
  · cases given
    refine .bind (controlBody_gives serves h.placed free) ?_
    intro body b₂ given
    have := given.lt
    exact (h.add given).donePlain (by omega) plain (fun _ => by simp [Ordinary, isOrdinary, goal])
  · exact .pure given

theorem elseInto_gives (serves : Serves recur limit) (h : Holds Outline.plain.holds b₀ m b)
    (near : 4 * b.remaining ≤ limit) (ahead : Ahead b) :
    Ensures scope (elseInto recur m) b (Gives Ordinary b₀) := by
  have le := h.le
  refine .bind (h.advance ahead) ?_
  rintro m b₁ ⟨h, less⟩
  exact loopBody_gives serves h (by omega) (by omega) rfl rfl

theorem ifExpression_gives (serves : Serves recur limit) (placed : b.Placed) (near : 4 * b.remaining ≤ limit)
    (ahead : Ahead b) : Ensures scope (ifExpression recur) b (Gives Ordinary b) := by
  refine .bind ((Holds.plain placed).advance ahead) ?_
  rintro m b₁ ⟨h, less⟩
  refine .bind (conditionInto_took serves h (by omega)) ?_
  rintro m b₂ ⟨h, less₂⟩
  refine .bind (emptyBody_ensures h (by omega)) ?_
  rintro (_ | empty) b₃ given
  · cases given
    refine .bind (controlBody_gives serves h.placed (by omega)) ?_
    intro body b₄ given
    have := given.lt
    have h := h.add given
    refine .look (.ite ?_ ?_)
    · intro other
      simp only [Bool.and_eq_true] at other
      exact elseInto_gives serves h (by omega) (ahead_of_sees other.1 (by decide))
    · intro _
      exact h.donePlain (by omega) rfl (fun _ => rfl)
  · exact .pure given

theorem whenCondition_gives (serves : Serves recur limit) (placed : b.Placed) (free : 4 * b.remaining + 4 ≤ limit) :
    Ensures scope (whenCondition recur) b (Gives (fun e => e.isOf .whenCondition = true) b) := by
  refine .look (.ite ?_ ?_)
  · intro seen
    refine .bind ((Holds.plain placed).advance (ahead_of_seesAny seen (by decide))) ?_
    rintro m b₁ ⟨h, less⟩
    refine .bind (serves.expression h.placed (by omega)) ?_
    intro e b₂ given
    have := given.lt
    exact (h.add given).donePlain (by omega) rfl (fun _ => rfl)
  · intro _
    refine .ite ?_ ?_
    · intro seen
      refine .bind ((Holds.plain placed).advance (ahead_of_seesAny seen (by decide))) ?_
      rintro m b₁ ⟨h, less⟩
      refine .bind (serves.type h.placed false (by omega)) ?_
      intro type b₂ given
      have := given.lt
      exact (h.add given).donePlain (by omega) rfl (fun _ => rfl)
    · intro _
      refine .bind (serves.expression placed (by omega)) ?_
      intro e b₁ given
      exact ((Holds.plain placed).add given).donePlain given.lt rfl (fun _ => rfl)

theorem whenConditions_kept (serves : Serves recur limit) (placed : b.Placed) (free : 4 * b.remaining + 4 ≤ limit) :
    Ensures scope (whenConditions recur) b (Kept (Outline.list .whenCondition rfl).holds b b) := by
  refine .look (.ite ?_ ?_)
  · intro seen
    have start : Holds (Outline.list .whenCondition rfl).holds b .empty b := .start placed Open.nil.list
    exact (start.advance (ahead_of_sees seen (by decide))).mono fun _ _ took => took.kept
  · intro _
    have start : Holds (Open .whenCondition) b .empty b := .start placed Open.nil
    exact (start.commaList rfl fun b' placed le => whenCondition_gives serves placed (by omega)).mono
      fun _ _ after => after.1

theorem whenEntry_gives (serves : Serves recur limit) (placed : b.Placed) (free : 4 * b.remaining + 4 ≤ limit) :
    Ensures scope (whenEntry recur) b (Gives Ordinary b) := by
  refine .bind (whenConditions_kept serves placed free) ?_
  rintro m b₁ ⟨h, le⟩
  refine .bind (h.expect (by decide)) ?_
  rintro m b₂ ⟨h, less⟩
  refine .bind (controlBody_gives serves h.placed (by omega)) ?_
  intro body b₃ given
  have := given.lt
  exact (h.add given).done (by omega) (fun es listed => fits_of_item rfl trivial listed.1 listed.2) (fun _ => rfl)

theorem whenSubject_gives (serves : Serves recur limit) (placed : b.Placed) (free : 4 * b.remaining + 4 ≤ limit) :
    Ensures scope (whenSubject recur) b (Gives Ordinary b) := by
  refine .look (.ite ?_ ?_)
  · intro seen
    exact propertyDeclaration_gives serves (.start placed Open.nil.list) (by omega)
      (ahead_of_seesAny seen (by decide))
  · intro _
    exact serves.expression placed (by omega)

theorem whenSubjectInto_kept (serves : Serves recur limit) (h : Holds o.holds b₀ m b)
    (near : 4 * b.remaining ≤ limit) : Ensures scope (whenSubjectInto recur m) b (Kept o.holds b₀ b) := by
  refine .look (.ite ?_ ?_)
  · intro seen
    refine .bind (h.advance (ahead_of_sees seen (by decide))) ?_
    rintro m b₁ ⟨h, less⟩
    refine .bind (whenSubject_gives serves h.placed (by omega)) ?_
    intro subject b₂ given
    have := given.lt
    refine ((h.add given).expect (by decide)).mono ?_
    rintro m b₃ ⟨h, less'⟩
    exact ⟨h, by omega⟩
  · intro _
    exact .pure ⟨h, Nat.le_refl _⟩

theorem whenExpression_gives (serves : Serves recur limit) (placed : b.Placed) (near : 4 * b.remaining ≤ limit)
    (ahead : Ahead b) : Ensures scope (whenExpression recur) b (Gives Ordinary b) := by
  refine .bind ((Holds.plain placed).advance ahead) ?_
  rintro m b₁ ⟨h, less⟩
  refine .bind (whenSubjectInto_kept serves h (by omega)) ?_
  rintro m b₂ ⟨h, le₂⟩
  refine .bind (h.expect (by decide)) ?_
  rintro m b₃ ⟨h, less₃⟩
  refine .bind (h.iterateWhile ?_) ?_
  · intro m b' h le goesOn
    simp only [Bool.and_eq_true, Bool.not_eq_true'] at goesOn
    exact h.recovering goesOn.2 (whenEntry_gives serves h.placed (by omega))
  · rintro m b₄ ⟨⟨h, le₄⟩, _⟩
    refine .bind (h.expect (by decide)) ?_
    rintro m b₅ ⟨h, less₅⟩
    exact h.donePlain (by omega) rfl (fun _ => rfl)

/-! Handlers and loops. -/

theorem catchClause_gives (serves : Serves recur limit) (placed : b.Placed) (near : 4 * b.remaining ≤ limit)
    (ahead : Ahead b) : Ensures scope (catchClause recur) b (Gives Ordinary b) := by
  refine .bind ((Holds.plain placed).advance ahead) ?_
  rintro m b₁ ⟨h, less⟩
  refine .bind (valueParameters_gives serves h.placed (by omega)) ?_
  intro params b₂ given
  have := given.lt
  have h := h.add given
  refine .bind (block_gives serves h.placed (by omega)) ?_
  intro body b₃ given
  have := given.lt
  exact (h.add given).donePlain (by omega) rfl (fun _ => rfl)

theorem tryExpression_gives (serves : Serves recur limit) (placed : b.Placed) (near : 4 * b.remaining ≤ limit)
    (ahead : Ahead b) : Ensures scope (tryExpression recur) b (Gives Ordinary b) := by
  refine .bind ((Holds.plain placed).advance ahead) ?_
  rintro m b₁ ⟨h, less⟩
  refine .bind (block_gives serves h.placed (by omega)) ?_
  intro body b₂ given
  have := given.lt
  refine .bind ((h.add given).iterateWhile ?_) ?_
  · intro m b' h le seen
    refine .bind (catchClause_gives serves h.placed (by omega) (ahead_of_sees seen (by decide))) ?_
    intro clause b'' given
    exact .pure (h.took given)
  · rintro m b₃ ⟨⟨h, le₃⟩, _⟩
    refine .look (.ite ?_ ?_)
    · intro seen
      refine .bind (h.advance (ahead_of_sees seen (by decide))) ?_
      rintro m b₄ ⟨h, less₄⟩
      refine .bind (block_gives serves h.placed (by omega)) ?_
      intro last b₅ given
      have := given.lt
      exact (h.add given).donePlain (by omega) rfl (fun _ => rfl)
    · intro _
      exact h.donePlain (by omega) rfl (fun _ => rfl)

/-- A node of any kind may stand where only marks are unwelcome. -/
theorem Holds.addNode {kind : RawKind} {p : Parsed} {b' : Builder} (h : Holds Outline.plain.holds b₀ m b)
    (given : Gives (fun e => e.isOf kind = true) b p b') : Holds Outline.plain.holds b₀ (m.add p) b' := by
  refine h.addWith given fun es unmarked => unmarked_append unmarked ?_
  have is := given.holds
  cases element : p.element with
  | leaf =>
    rw [element] at is
    cases is
  | node => rfl

theorem forLoop_gives (serves : Serves recur limit) (placed : b.Placed) (near : 4 * b.remaining ≤ limit)
    (ahead : Ahead b) : Ensures scope (forLoop recur) b (Gives Ordinary b) := by
  refine .bind ((Holds.plain placed).advance ahead) ?_
  rintro m b₁ ⟨h, less⟩
  refine .bind (h.expect (by decide)) ?_
  rintro m b₂ ⟨h, less₂⟩
  refine .bind (lambdaParameter_gives serves h.placed (by omega)) ?_
  intro item b₃ given
  have := given.lt
  refine .bind ((h.addNode given).expect (by decide)) ?_
  rintro m b₄ ⟨h, less₄⟩
  refine .bind (serves.expression h.placed (by omega)) ?_
  intro range b₅ given
  have := given.lt
  refine .bind ((h.add given).expect (by decide)) ?_
  rintro m b₆ ⟨h, less₆⟩
  exact loopBody_gives serves h (by omega) (by omega) rfl rfl

theorem whileLoop_gives (serves : Serves recur limit) (placed : b.Placed) (near : 4 * b.remaining ≤ limit)
    (ahead : Ahead b) : Ensures scope (whileLoop recur) b (Gives Ordinary b) := by
  refine .bind ((Holds.plain placed).advance ahead) ?_
  rintro m b₁ ⟨h, less⟩
  refine .bind (conditionInto_took serves h (by omega)) ?_
  rintro m b₂ ⟨h, less₂⟩
  exact loopBody_gives serves h (by omega) (by omega) rfl rfl

theorem doWhileLoop_gives (serves : Serves recur limit) (placed : b.Placed) (near : 4 * b.remaining ≤ limit)
    (ahead : Ahead b) : Ensures scope (doWhileLoop recur) b (Gives Ordinary b) := by
  refine .bind ((Holds.plain placed).advance ahead) ?_
  rintro m b₁ ⟨h, less⟩
  refine .bind (controlBody_gives serves h.placed (by omega)) ?_
  intro body b₂ given
  have := given.lt
  refine .bind ((h.add given).expect (by decide)) ?_
  rintro m b₃ ⟨h, less₃⟩
  refine .bind (conditionInto_took serves h (by omega)) ?_
  rintro m b₄ ⟨h, less₄⟩
  exact h.donePlain (by omega) rfl (fun _ => rfl)

theorem keywordExpression_gives (serves : Serves recur limit) (placed : b.Placed) (near : 4 * b.remaining ≤ limit)
    (seen : b.peek = some t) (keyword : t.kind = .keyword) :
    Ensures scope (keywordExpression recur t.text) b (Gives Ordinary b) := by
  have plain : Ordinary (.leaf ⟨t, false⟩) :=
    ordinary_of_isOperand (proper_of_peek placed seen) (by rw [keyword]; rfl)
  have ahead : Ahead b := ⟨t, seen, plain⟩
  unfold keywordExpression
  split
  · exact token_gives placed seen plain
  · exact token_gives placed seen plain
  · exact token_gives placed seen plain
  · exact thisExpression_gives placed ahead
  · exact superExpression_gives serves placed near ahead
  · exact ifExpression_gives serves placed near ahead
  · exact whenExpression_gives serves placed near ahead
  · exact tryExpression_gives serves placed near ahead
  · exact forLoop_gives serves placed near ahead
  · exact whileLoop_gives serves placed near ahead
  · exact doWhileLoop_gives serves placed near ahead
  · exact throwExpression_gives serves placed near seen plain ‹_›
  · exact returnExpression_gives serves placed near seen plain ‹_›
  · rename_i word
    exact jump_gives placed seen plain
      (fun es headed => ⟨headed.1, nofun, by simpa [Framed, word] using headed.2⟩) rfl
  · rename_i word
    exact jump_gives placed seen plain
      (fun es headed => ⟨headed.1, nofun, by simpa [Framed, word] using headed.2⟩) rfl
  · exact classDeclaration_gives serves (.plain placed) near ahead false
  · exact functionDeclaration_gives serves (.plain placed) near ahead
  · exact .reject

end KotlinSyntax.Grammar
