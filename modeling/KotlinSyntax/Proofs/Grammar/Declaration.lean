import KotlinSyntax.Grammar.Declaration
import KotlinSyntax.Proofs.Grammar.Statement

/-! Declarations. -/
namespace KotlinSyntax.Grammar

open Builder RawElement

variable {recur : Recur} {limit : Nat} {scope : Scope} {b₀ b : Builder} {m : Marker} {o : Outline}

/-- A node that may have a comment on its line. -/
theorem Holds.doneBound {kind : RawKind} {I : List RawElement → Prop} (h : Holds I b₀ m b)
    (moved : b.remaining < b₀.remaining) (fits : ∀ es, I es → Fits kind es) (goal : kind.isItem = false) :
    Ensures scope (do Grammar.done (← Grammar.bindTrailingComment m) kind) b (Gives Ordinary b₀) := by
  refine .bind (h.bindTrailingComment moved) ?_
  rintro m b' ⟨h, le⟩
  exact h.done (by omega) fits (fun _ => by simp [Ordinary, isOrdinary, goal])

/-! Classes. -/

theorem primaryConstructor_perhaps (serves : Serves recur limit) (placed : b.Placed) (free : 4 * b.remaining + 4 ≤ limit) :
    Ensures scope (primaryConstructor recur) b (Perhaps Ordinary b) := by
  refine .look (.ite ?_ ?_)
  · intro _
    refine .bind (valueParameters_gives serves placed (by omega)) ?_
    intro params b₁ given
    exact .map (((Holds.plain placed).add given).donePlain given.lt rfl (fun _ => rfl))
  · intro _
    refine .speculate (.bind (modified_kept serves (Holds.plain placed) (by omega)) ?_)
    rintro m b₁ ⟨h, le⟩
    refine .bind (h.expect (by decide)) ?_
    rintro m b₂ ⟨h, less⟩
    refine .bind (valueParameters_gives serves h.placed (by omega)) ?_
    intro params b₃ given
    have := given.lt
    exact (h.add given).donePlain (by omega) rfl (fun _ => rfl)

theorem primaryConstructorInto_kept (serves : Serves recur limit) {isObject : Bool} (h : Holds o.holds b₀ m b)
    (free : 4 * b.remaining + 4 ≤ limit) :
    Ensures scope (primaryConstructorInto recur isObject m) b (Kept o.holds b₀ b) := by
  refine .ite ?_ ?_
  · intro _
    exact .pure ⟨h, Nat.le_refl _⟩
  · intro _
    exact .bind (primaryConstructor_perhaps serves h.placed free) fun p b' given => .pure (h.add? given)

theorem superType_gives (serves : Serves recur limit) (placed : b.Placed) (near : 4 * b.remaining ≤ limit) :
    Ensures scope (superType recur) b (Gives Ordinary b) := by
  refine .bind (userType_gives serves placed near false) ?_
  intro type b₁ given
  have less := given.lt
  have h := (Holds.plain placed).add given
  refine .look (.ite ?_ ?_)
  · intro _
    refine .bind (valueArguments_gives serves h.placed (by omega)) ?_
    intro args b₂ given
    have := given.lt
    exact (h.add given).donePlain (by omega) rfl (fun _ => rfl)
  · intro _
    refine .ite ?_ ?_
    · intro seen
      refine .bind (h.advance (ahead_of_sees seen (by decide))) ?_
      rintro m b₂ ⟨h, less'⟩
      refine .bind (.withTrailingLambdas (serves.expression h.placed (by omega))) ?_
      intro e b₃ given
      have := given.lt
      exact (h.add given).donePlain (by omega) rfl (fun _ => rfl)
    · intro _
      exact h.donePlain less rfl (fun _ => rfl)

theorem superTypes_gives (serves : Serves recur limit) (placed : b.Placed) (near : 4 * b.remaining ≤ limit)
    (ahead : Ahead b) : Ensures scope (superTypes recur) b (Gives Ordinary b) := by
  refine .bind ((Holds.plain placed).advance ahead) ?_
  rintro m b₁ ⟨h, less⟩
  refine .bind (superType_gives serves h.placed (by omega)) ?_
  intro first b₂ given
  have := given.lt
  refine .bind ((h.add given).iterateWhile ?_) ?_
  · intro m b₃ h le seen
    refine .bind (h.advanceWord seen) ?_
    rintro m b₄ ⟨h, less'⟩
    refine .bind (superType_gives serves h.placed (by omega)) ?_
    intro next b₅ given
    have := given.lt
    exact .pure ⟨h.add given, by omega⟩
  · rintro m b₃ ⟨⟨h, le⟩, _⟩
    exact h.donePlain (by omega) rfl (fun _ => rfl)

theorem classDeclaration_gives (serves : Serves recur limit) (h : Holds Outline.plain.holds b₀ m b)
    (near : 4 * b.remaining ≤ limit) (ahead : Ahead b) (isEnum : Bool) :
    Ensures scope (classDeclaration recur m isEnum) b (Gives Ordinary b₀) := by
  have le := h.le
  refine .look (.bind (h.advance ahead) ?_)
  rintro m b₁ ⟨h, less⟩
  refine .bind (h.advanceIf (ahead_of_seesName h.placed)) ?_
  rintro m b₂ ⟨h, le₂⟩
  refine .bind (typeParametersInto_kept serves h (by omega)) ?_
  rintro m b₃ ⟨h, le₃⟩
  refine .bind (primaryConstructorInto_kept serves h (by omega)) ?_
  rintro m b₄ ⟨h, le₄⟩
  refine .bind (h.addIf fun seen => superTypes_gives serves h.placed (by omega) (ahead_of_sees seen (by decide))) ?_
  rintro m b₅ ⟨h, le₅⟩
  refine .bind (constraintsInto_kept serves h (by omega)) ?_
  rintro m b₆ ⟨h, le₆⟩
  refine .bind (h.addIf fun _ => serves.classBody h.placed isEnum (by omega)) ?_
  rintro m b₇ ⟨h, le₇⟩
  exact h.doneBound (by omega) (fun _ unmarked => fits_of_isPlain rfl unmarked) rfl

theorem initializerBlock_gives (serves : Serves recur limit) (h : Holds Outline.plain.holds b₀ m b)
    (near : 4 * b.remaining ≤ limit) (ahead : Ahead b) :
    Ensures scope (initializerBlock recur m) b (Gives Ordinary b₀) := by
  have le := h.le
  refine .bind (h.advance ahead) ?_
  rintro m b₁ ⟨h, less⟩
  refine .bind (block_gives serves h.placed (by omega)) ?_
  intro body b₂ given
  have := given.lt
  exact (h.add given).doneBound (by omega) (fun _ unmarked => fits_of_isPlain rfl unmarked) rfl

theorem delegationCall_gives (serves : Serves recur limit) (placed : b.Placed) (near : 4 * b.remaining ≤ limit) :
    Ensures scope (delegationCall recur) b (Gives Ordinary b) := by
  refine .bind ((Holds.plain placed).expectAny (by decide)) ?_
  rintro m b₁ ⟨h, less⟩
  refine .bind (valueArguments_gives serves h.placed (by omega)) ?_
  intro args b₂ given
  have := given.lt
  exact (h.add given).donePlain (by omega) rfl (fun _ => rfl)

theorem delegationInto_kept (serves : Serves recur limit) (h : Holds o.holds b₀ m b) (near : 4 * b.remaining ≤ limit) :
    Ensures scope (delegationInto recur m) b (Kept o.holds b₀ b) := by
  refine .look (.ite ?_ ?_)
  · intro seen
    refine .bind (h.advance (ahead_of_sees seen (by decide))) ?_
    rintro m b₁ ⟨h, less⟩
    refine .bind (delegationCall_gives serves h.placed (by omega)) ?_
    intro call b₂ given
    have := given.lt
    exact .pure ⟨h.add given, by omega⟩
  · intro _
    exact .pure ⟨h, Nat.le_refl _⟩

theorem secondaryConstructor_gives (serves : Serves recur limit) (h : Holds Outline.plain.holds b₀ m b)
    (near : 4 * b.remaining ≤ limit) (ahead : Ahead b) :
    Ensures scope (secondaryConstructor recur m) b (Gives Ordinary b₀) := by
  have le := h.le
  refine .bind (h.advance ahead) ?_
  rintro m b₁ ⟨h, less⟩
  refine .bind (valueParameters_gives serves h.placed (by omega)) ?_
  intro params b₂ given
  have := given.lt
  refine .bind (delegationInto_kept serves (h.add given) (by omega)) ?_
  rintro m b₃ ⟨h, le₃⟩
  refine .bind (h.addIf fun _ => block_gives serves h.placed (by omega)) ?_
  rintro m b₄ ⟨h, le₄⟩
  exact h.doneBound (by omega) (fun _ unmarked => fits_of_isPlain rfl unmarked) rfl

/-! Functions. -/

theorem Gives.withRole {p : Parsed} {role : String} (h : Gives Ordinary b₀ p b) :
    Gives Ordinary b₀ (p.withRole role) b := by
  refine ⟨h.built.withRole role, ?_⟩
  have ordinary := h.holds
  obtain ⟨leading, element⟩ := p
  cases element with
  | leaf => exact ordinary
  | node => exact ordinary

/-- The dot behind the receiver is not taken yet. -/
theorem receiverType_ensures (serves : Serves recur limit) (placed : b.Placed) (free : 4 * b.remaining + 4 ≤ limit) :
    Ensures scope (receiverType recur) b
      (Maybe (fun p b' => Gives Ordinary b p b' ∧ b'.sees "." = true) (· = b)) := by
  refine .speculate (.bind (serves.type placed true (by omega)) ?_)
  intro type b₁ given
  refine .look (.ite ?_ fun _ => .reject)
  intro dot
  exact .pure ⟨given.withRole, dot⟩

theorem receiverInto_kept (serves : Serves recur limit) (h : Holds o.holds b₀ m b) (free : 4 * b.remaining + 4 ≤ limit) :
    Ensures scope (receiverInto recur m) b (Kept o.holds b₀ b) := by
  refine .bind (receiverType_ensures serves h.placed free) ?_
  rintro (_ | receiver) b₁ given
  · cases given
    exact .pure ⟨h, Nat.le_refl _⟩
  · obtain ⟨given, dot⟩ := given
    have less := given.lt
    refine ((h.add given).advance (ahead_of_sees dot (by decide))).mono ?_
    rintro m b₂ ⟨h, less'⟩
    exact ⟨h, by omega⟩

theorem contractEffect_gives (serves : Serves recur limit) (placed : b.Placed) (free : 4 * b.remaining + 4 ≤ limit) :
    Ensures scope (contractEffect recur) b (Gives (fun e => e.isOf .contractEffect = true) b) := by
  refine .bind (serves.expression placed (by omega)) ?_
  intro e b₁ given
  exact ((Holds.plain placed).add given).donePlain given.lt rfl (fun _ => rfl)

theorem contract_gives (serves : Serves recur limit) (placed : b.Placed) (near : 4 * b.remaining ≤ limit)
    (ahead : Ahead b) : Ensures scope (contract recur) b (Gives Ordinary b) := by
  refine .bind ((Holds.plain placed).advance ahead) ?_
  rintro m b₁ ⟨h, less⟩
  refine .bind (bracketed_gives rfl rfl (fun _ => trivial) (by decide) rfl h.placed fun b' placed less' =>
    contractEffect_gives serves placed (by omega)) ?_
  intro effects b₂ given
  have := given.lt
  exact (h.add given).donePlain (by omega) rfl (fun _ => rfl)

theorem postModifiersInto_kept (serves : Serves recur limit) (h : Holds o.holds b₀ m b)
    (near : 4 * b.remaining ≤ limit) : Ensures scope (postModifiersInto recur m) b (Kept o.holds b₀ b) := by
  refine h.iterate ?_
  intro m b' h le
  refine .look (.ite ?_ ?_)
  · intro seen
    refine .bind (typeConstraintSet_gives serves h.placed (by omega) (ahead_of_sees seen (by decide))) ?_
    intro p b'' given
    exact .pure (h.took given)
  · intro _
    refine .ite ?_ ?_
    · intro seen
      simp only [Bool.and_eq_true] at seen
      refine .bind (contract_gives serves h.placed (by omega) (ahead_of_sees seen.1 (by decide))) ?_
      intro p b'' given
      exact .pure (h.took given)
    · intro _
      exact .pure ⟨h, Nat.le_refl _⟩

theorem functionBodyInto_kept (serves : Serves recur limit) (h : Holds o.holds b₀ m b)
    (near : 4 * b.remaining ≤ limit) : Ensures scope (functionBodyInto recur m) b (Kept o.holds b₀ b) := by
  refine .look (.ite ?_ ?_)
  · intro _
    exact assignedInto_kept serves h near
  · intro _
    refine .ite ?_ ?_
    · intro _
      refine .bind (block_gives serves h.placed near) ?_
      intro body b₁ given
      exact .pure (h.took given).kept
    · intro _
      exact .pure ⟨h, Nat.le_refl _⟩

theorem functionNameInto_kept (serves : Serves recur limit) (h : Holds o.holds b₀ m b)
    (free : 4 * b.remaining + 4 ≤ limit) : Ensures scope (functionNameInto recur m) b (Kept o.holds b₀ b) := by
  refine .look (.ite ?_ ?_)
  · intro _
    exact .pure ⟨h, Nat.le_refl _⟩
  · intro _
    refine .bind (receiverInto_kept serves h free) ?_
    rintro m b₁ ⟨h, le⟩
    refine (h.advanceIf (ahead_of_seesName h.placed)).mono ?_
    rintro m b₂ ⟨h, le'⟩
    exact ⟨h, by omega⟩

theorem functionDeclaration_gives (serves : Serves recur limit) (h : Holds Outline.plain.holds b₀ m b)
    (near : 4 * b.remaining ≤ limit) (ahead : Ahead b) :
    Ensures scope (functionDeclaration recur m) b (Gives Ordinary b₀) := by
  have le := h.le
  refine .bind (h.advance ahead) ?_
  rintro m b₁ ⟨h, less⟩
  refine .bind (typeParametersInto_kept serves h (by omega)) ?_
  rintro m b₂ ⟨h, le₂⟩
  refine .bind (functionNameInto_kept serves h (by omega)) ?_
  rintro m b₃ ⟨h, le₃⟩
  refine .bind (valueParameters_gives serves h.placed (by omega)) ?_
  intro params b₄ given
  have less' := given.lt
  refine .bind (typeSuffix_kept serves (h.add given) (by omega)) ?_
  rintro m b₅ ⟨h, le₅⟩
  refine .bind (postModifiersInto_kept serves h (by omega)) ?_
  rintro m b₆ ⟨h, le₆⟩
  refine .bind (functionBodyInto_kept serves h (by omega)) ?_
  rintro m b₇ ⟨h, le₇⟩
  exact h.doneBound (by omega) (fun _ unmarked => fits_of_isPlain rfl unmarked) rfl

/-! Properties. -/

theorem destructuringEntry_gives (serves : Serves recur limit) (placed : b.Placed)
    (free : 4 * b.remaining + 4 ≤ limit) :
    Ensures scope (destructuringEntry recur) b (Gives (fun e => e.isOf .destructuringEntry = true) b) := by
  refine .bind (Holds.plain placed).expectName ?_
  rintro m b₁ ⟨h, less⟩
  refine .bind (typeSuffix_kept serves h (by omega)) ?_
  rintro m b₂ ⟨h, le⟩
  exact h.donePlain (by omega) rfl (fun _ => rfl)

theorem accessorParametersInto_took (serves : Serves recur limit) {isGetter : Bool}
    (h : Holds Outline.plain.holds b₀ m b) (near : 4 * b.remaining ≤ limit) (ahead : Ahead b) :
    Ensures scope (accessorParametersInto recur isGetter m) b (Took Outline.plain.holds b₀ b) := by
  refine .ite ?_ ?_
  · intro _
    refine .bind (h.advance ahead) ?_
    rintro m b₁ ⟨h, less⟩
    refine .bind (h.expect (by decide)) ?_
    rintro m b₂ ⟨h, less'⟩
    refine (typeSuffix_kept serves h (by omega)).mono ?_
    rintro m b₃ ⟨h, le⟩
    exact ⟨h, by omega⟩
  · intro _
    refine .bind (valueParameters_gives serves h.placed near) ?_
    intro params b₁ given
    exact .pure (h.took given)

theorem accessorBodyInto_kept (serves : Serves recur limit) {isGetter : Bool}
    (h : Holds Outline.plain.holds b₀ m b) (near : 4 * b.remaining ≤ limit) :
    Ensures scope (accessorBodyInto recur isGetter m) b (Kept Outline.plain.holds b₀ b) := by
  refine .look (.ite ?_ ?_)
  · intro seen
    refine .bind (accessorParametersInto_took serves h near (ahead_of_sees seen (by decide))) ?_
    rintro m b₁ ⟨h, less⟩
    refine .look (.ite ?_ fun _ => .reject)
    intro _
    refine (functionBodyInto_kept serves h (by omega)).mono ?_
    rintro m b₂ ⟨h, le⟩
    exact ⟨h, by omega⟩
  · intro _
    refine .ite (fun _ => .reject) ?_
    intro _
    exact .pure ⟨h, Nat.le_refl _⟩

theorem accessor_perhaps (serves : Serves recur limit) (placed : b.Placed) (room : 4 * b.remaining < limit) :
    Ensures scope (accessor recur) b (Perhaps Ordinary b) := by
  refine .speculate (.bind (modified_kept serves (Holds.plain placed) room) ?_)
  rintro m b₁ ⟨h, le⟩
  refine .look (.bind (h.expectAny (by decide)) ?_)
  rintro m b₂ ⟨h, less⟩
  refine .bind (accessorBodyInto_kept serves h (by omega)) ?_
  rintro m b₃ ⟨h, le'⟩
  cases b₁.sees "get" with
  | true => exact h.donePlain (by omega) rfl (fun _ => rfl)
  | false => exact h.donePlain (by omega) rfl (fun _ => rfl)

theorem accessorsInto_kept (serves : Serves recur limit) (h : Holds o.holds b₀ m b) (room : 4 * b.remaining < limit) :
    Ensures scope (accessorsInto recur m) b (Kept o.holds b₀ b) := by
  refine .bind (accessor_perhaps serves h.placed room) ?_
  rintro (_ | first) b₁ given
  · cases given
    exact .pure ⟨h, Nat.le_refl _⟩
  · have less := Gives.lt given
    have h := h.add given
    refine .bind (accessor_perhaps serves h.placed (by omega)) ?_
    intro second b₂ given
    obtain ⟨h, le⟩ := h.add? given
    exact .pure ⟨h, by omega⟩

theorem propertyValueInto_kept (serves : Serves recur limit) (h : Holds o.holds b₀ m b)
    (near : 4 * b.remaining ≤ limit) : Ensures scope (propertyValueInto recur m) b (Kept o.holds b₀ b) := by
  refine .look (.ite ?_ ?_)
  · intro _
    exact assignedInto_kept serves h near
  · intro _
    refine .ite ?_ ?_
    · intro seen
      refine .bind ((Holds.plain h.placed).advance (ahead_of_sees seen (by decide))) ?_
      rintro delegate b₁ ⟨k, less⟩
      refine .bind (serves.expression k.placed (by omega)) ?_
      intro e b₂ given
      have := given.lt
      refine .bind ((k.add given).donePlain (P := Ordinary) (by omega) rfl (fun _ => rfl)) ?_
      intro delegate b₃ given
      exact .pure (h.took given).kept
    · intro _
      exact .pure ⟨h, Nat.le_refl _⟩

theorem propertyReceiverInto_kept (serves : Serves recur limit) (h : Holds o.holds b₀ m b)
    (free : 4 * b.remaining + 4 ≤ limit) : Ensures scope (propertyReceiverInto recur m) b (Kept o.holds b₀ b) := by
  refine .look (.ite ?_ ?_)
  · intro _
    exact .pure ⟨h, Nat.le_refl _⟩
  · intro _
    exact receiverInto_kept serves h free

theorem bindingsInto_kept (serves : Serves recur limit)
    (h : Holds (Outline.list .destructuringEntry rfl).holds b₀ m b) (free : 4 * b.remaining + 4 ≤ limit) :
    Ensures scope (bindingsInto recur m) b (Kept (Outline.list .destructuringEntry rfl).holds b₀ b) := by
  refine .look (.ite ?_ ?_)
  · intro seen
    refine .bind (h.advanceOpening seen (by decide)) ?_
    rintro m b₁ ⟨h, less⟩
    refine .bind (h.commaList rfl fun b' placed le => destructuringEntry_gives serves placed (by omega)) ?_
    rintro m b₂ ⟨⟨h, le⟩, _⟩
    refine (h.expect (by decide)).mono ?_
    rintro m b₃ ⟨h, less'⟩
    exact ⟨h, by omega⟩
  · intro _
    refine .bind h.expectName ?_
    rintro m b₁ ⟨h, less⟩
    refine (typeSuffix_kept serves h (by omega)).mono ?_
    rintro m b₂ ⟨h, le⟩
    exact ⟨h, by omega⟩

theorem propertyDeclaration_gives (serves : Serves recur limit)
    (h : Holds (Outline.list .destructuringEntry rfl).holds b₀ m b) (near : 4 * b.remaining ≤ limit)
    (ahead : Ahead b) : Ensures scope (propertyDeclaration recur m) b (Gives Ordinary b₀) := by
  have le := h.le
  refine .bind (h.advance ahead) ?_
  rintro m b₁ ⟨h, less⟩
  refine .bind (typeParametersInto_kept serves h (by omega)) ?_
  rintro m b₂ ⟨h, le₂⟩
  refine .bind (propertyReceiverInto_kept serves h (by omega)) ?_
  rintro m b₃ ⟨h, le₃⟩
  refine .bind (bindingsInto_kept serves h (by omega)) ?_
  rintro m b₄ ⟨h, le₄⟩
  refine .bind (constraintsInto_kept serves h (by omega)) ?_
  rintro m b₅ ⟨h, le₅⟩
  refine .bind (propertyValueInto_kept serves h (by omega)) ?_
  rintro m b₆ ⟨h, le₆⟩
  refine .bind (accessorsInto_kept serves h (by omega)) ?_
  rintro m b₇ ⟨h, le₇⟩
  exact h.doneBound (by omega) (fun _ listed => fits_of_item rfl trivial listed.1 listed.2) rfl

theorem typeAlias_gives (serves : Serves recur limit) (h : Holds Outline.plain.holds b₀ m b)
    (near : 4 * b.remaining ≤ limit) (ahead : Ahead b) :
    Ensures scope (typeAlias recur m) b (Gives Ordinary b₀) := by
  have le := h.le
  refine .bind (h.advance ahead) ?_
  rintro m b₁ ⟨h, less⟩
  refine .bind h.expectName ?_
  rintro m b₂ ⟨h, less₂⟩
  refine .bind (typeParametersInto_kept serves h (by omega)) ?_
  rintro m b₃ ⟨h, le₃⟩
  refine .bind (h.expect (by decide)) ?_
  rintro m b₄ ⟨h, less₄⟩
  refine .bind (serves.type h.placed false (by omega)) ?_
  intro type b₅ given
  have := given.lt
  exact (h.add given).doneBound (by omega) (fun _ unmarked => fits_of_isPlain rfl unmarked) rfl

/-! Declarations of all kinds. -/

theorem modifiers_list {modifiers : Option Parsed} (placed : b₀.Placed) (given : Perhaps Ordinary b₀ modifiers b)
    (isItem : RawKind.isItem .destructuringEntry = true) :
    Holds (Outline.list .destructuringEntry isItem).holds b₀ (Marker.empty.add? modifiers) b :=
  ((Holds.start placed Open.nil.list).add? given).1

/-- Each rule that a word can begin takes that word. -/
theorem declarationRule?_gives (serves : Serves recur limit) {place : DeclarationPlace} {modifiers : Option Parsed}
    {rule : Grammar Parsed} (given : Perhaps Ordinary b₀ modifiers b) (placed : b₀.Placed)
    (near : 4 * b.remaining ≤ limit)
    (found : declarationRule? recur place b modifiers (Marker.empty.add? modifiers) = some rule) :
    Ensures scope rule b (Gives Ordinary b₀) := by
  have list := modifiers_list placed given rfl
  have plain := list.mono (J := Outline.plain.holds) fun es listed => listed.1
  unfold declarationRule? at found
  cases seen : b.peek with
  | none => simp [seen] at found
  | some t =>
    simp only [seen] at found
    split at found
    · rename_i word
      have ahead : Ahead b := by
        refine ⟨t, seen, ordinary_of_isOperand (proper_of_peek list.placed seen) ?_⟩
        simp only [Bool.or_eq_true, beq_iff_eq] at word
        rcases word with is | is <;> rw [is] <;> rfl
      split at found
      · cases found
        exact classDeclaration_gives serves plain near ahead _
      · cases found
        exact classDeclaration_gives serves plain near ahead _
      · split at found
        · cases found
          exact classDeclaration_gives serves plain near ahead _
        · cases found
      · split at found
        · cases found
          exact functionDeclaration_gives serves plain near ahead
        · cases found
      · split at found
        · cases found
          exact propertyDeclaration_gives serves list near ahead
        · cases found
      · split at found
        · cases found
          exact propertyDeclaration_gives serves list near ahead
        · cases found
      · cases found
        exact typeAlias_gives serves plain near ahead
      · split at found
        · cases found
          exact secondaryConstructor_gives serves plain near ahead
        · cases found
      · split at found
        · cases found
          exact initializerBlock_gives serves plain near ahead
        · cases found
      · cases found
    · cases found

theorem declaration_perhaps (serves : Serves recur limit) {place : DeclarationPlace} (placed : b.Placed)
    (room : 4 * b.remaining < limit) : Ensures scope (declaration recur place) b (Perhaps Ordinary b) := by
  refine .look (.bind (modifierList_perhaps serves placed room) ?_)
  intro modifiers b₁ given
  have h := modifiers_list placed given rfl
  have le := h.le
  refine .look ?_
  split
  · rename_i rule found
    exact .map (declarationRule?_gives serves given placed (by omega) found)
  · refine .ite ?_ fun _ => .reject
    intro _
    refine .look (.goTo (.pure ?_))
    obtain ⟨es, built, _⟩ := h
    exact restore_snapshot built.tokens built.significant

theorem declarationOnly_gives (serves : Serves recur limit) {place : DeclarationPlace} {what : String}
    (placed : b.Placed) (room : 4 * b.remaining < limit) :
    Ensures scope (declarationOnly recur place what) b (Gives Ordinary b) := by
  refine .bind (declaration_perhaps serves placed room) ?_
  rintro (_ | p) b₁ given
  · exact .reject
  · exact .pure given

/-! Bodies of classes. -/

theorem atEnumEntry_ensures (serves : Serves recur limit) (placed : b.Placed) (room : 4 * b.remaining < limit) :
    Ensures scope (atEnumEntry recur) b fun _ b' => b' = b := by
  refine .look (.ite ?_ ?_)
  · intro _
    exact .pure rfl
  · intro _
    refine .ite ?_ ?_
    · intro _
      have tested : Ensures scope (do
          let _ ← modifierList recur .declaration
          let b ← look
          if !b.seesName || standsModifier .declaration b then reject (.not "an enum entry")) b
          fun _ _ => True := by
        refine .bind (modifierList_perhaps serves placed room) ?_
        intro _ b₁ _
        exact .look (.ite (fun _ => .reject) fun _ => .pure trivial)
      exact (Ends.lookahead tested).mono fun _ _ same => same.1
    · intro _
      exact .pure rfl

theorem enumEntry_gives (serves : Serves recur limit) (placed : b.Placed) (free : 4 * b.remaining + 4 ≤ limit) :
    Ensures scope (enumEntry recur) b (Gives (fun e => e.isOf .enumEntry = true) b) := by
  refine .bind (modified_kept serves (Holds.plain placed) (by omega)) ?_
  rintro m b₁ ⟨h, le⟩
  refine .bind h.expectName ?_
  rintro m b₂ ⟨h, less⟩
  refine .bind (h.addIf fun _ => valueArguments_gives serves h.placed (by omega)) ?_
  rintro m b₃ ⟨h, le₃⟩
  refine .bind (h.addIf fun _ => serves.classBody h.placed false (by omega)) ?_
  rintro m b₄ ⟨h, le₄⟩
  exact h.donePlain (by omega) rfl (fun _ => rfl)

/-- Where the comma is taken in earnest, an entry is known to stand behind it. -/
theorem entryFollowsComma_ensures (serves : Serves recur limit) {t : Token} {gap : List Token}
    (next : Placed.Next b t gap) (free : 4 * b.remaining + 4 ≤ limit) :
    Ensures scope (entryFollowsComma recur) b fun found b' => b' = b ∧ (found = true →
      Gets scope (atEnumEntry recur) (b.behind 1 (b.pos + gap.length)) true (b.behind 1 (b.pos + gap.length))) := by
  have less := next.remaining
  have still : Ensures scope (atEnumEntry recur) (b.behind 1 (b.pos + gap.length)) fun _ b' =>
    b' = b.behind 1 (b.pos + gap.length) := atEnumEntry_ensures serves next.placed (by omega)
  have tested : Ensures scope (do
      let _ ← advance .empty
      if !(← atEnumEntry recur) then reject (.not "an enum entry")) b fun _ b' =>
        Gets scope (atEnumEntry recur) (b.behind 1 (b.pos + gap.length)) true (b.behind 1 (b.pos + gap.length)) := by
    refine .bind_gets (advance_gets next .empty scope) (.bind still.gets ?_)
    rintro found _ ⟨rfl, gets⟩
    refine .ite (fun _ => .reject) ?_
    intro entry
    have is : found = true := by simpa using entry
    subst is
    exact .pure gets
  refine (Ends.lookahead tested).mono ?_
  rintro found b' ⟨same, gets⟩
  refine ⟨same, ?_⟩
  intro is
  obtain ⟨_, b'', gets⟩ := gets is
  exact tested.of_gets gets

def Entries (es : List RawElement) : Prop :=
  (∀ e ∈ es, e.isMark = false) ∧ Spaced (isOf .enumEntry) es ∧ Entered es ∧
    ∀ e ∈ es.getLast?, e.isOf .enumEntry = false

def EntriesTo (es : List RawElement) : Prop :=
  Outline.body.holds es ∧ ∃ e ∈ es.getLast?, e.isOf .enumEntry = true

theorem Entries.append {es : List RawElement} {e : RawElement} (h : Entries es) (is : e.isOf .enumEntry = true) :
    EntriesTo (es ++ [e]) := by
  obtain ⟨unmarked, spaced, framed, last⟩ := h
  have opened : Open .enumEntry es := ⟨unmarked, spaced, last⟩
  obtain ⟨unmarked', spaced'⟩ := opened.append is rfl
  refine ⟨⟨unmarked', spaced', chain_append framed fun _ _ _ => is, ?_⟩, e, List.getLast?_concat, is⟩
  cases e with
  | leaf => cases is
  | node => simp [spells]

theorem EntriesTo.comma {es : List RawElement} {t : Token} (h : EntriesTo es) (word : t.isWord = true) :
    Entries (es ++ [.leaf ⟨t, false⟩]) := by
  obtain ⟨⟨unmarked, spaced, framed, noComma⟩, e, ends, is⟩ := h
  have list : (Outline.list .enumEntry rfl).holds es := ⟨unmarked, spaced⟩
  have item : ∀ x ∈ (listStart :: es).getLast?, x.isOf .enumEntry = true := by
    intro x last
    cases es with
    | nil => cases ends
    | cons y ys =>
      have same : some e = some x := ends.symm.trans (by simpa using last)
      cases same
      exact is
  obtain ⟨unmarked', spaced', last'⟩ := Open.word list word fun _ => item
  refine ⟨unmarked', spaced', chain_append framed ?_, last'⟩
  intro x last comma
  rw [noComma x last] at comma
  cases comma

/-- Behind a comma that is a part an entry is known to come. -/
def EntriesBefore (recur : Recur) (scope : Scope) (b₀ : Builder) (m : Marker) (b : Builder) : Prop :=
  Holds Entries b₀ m b ∧ (Holds Outline.body.holds b₀ m b ∨ Gets scope (atEnumEntry recur) b true b)

theorem entryCommaTurn_ensures (serves : Serves recur limit) (h : Holds EntriesTo b₀ m b)
    (moved : b.remaining < b₀.remaining) (free : 4 * b.remaining + 4 ≤ limit) :
    Ensures scope (entryCommaTurn recur m) b (Turning
      (fun m' b' => EntriesBefore recur scope b₀ m' b' ∧ b'.remaining < b.remaining)
      (Kept Outline.body.holds b₀ b)) := by
  have body := h.mono fun es entries => entries.1
  refine .look (.ite ?_ ?_)
  · intro _
    exact .pure ⟨body, Nat.le_refl _⟩
  · intro comma
    have seen : b.sees "," = true := by simpa using comma
    obtain ⟨t, seen, spelled⟩ := peek_of_sees seen
    obtain ⟨gap, next⟩ := h.placed.next seen
    have asTrivia : Ensures scope (do return Turn.stop (← advanceAsTrivia m)) b (Turning
        (fun m' b' => EntriesBefore recur scope b₀ m' b' ∧ b'.remaining < b.remaining)
        (Kept Outline.body.holds b₀ b)) :=
      .bind (body.advanceAsTrivia moved seen (Token.not_isMark_of_isWord (Token.isWord_of_spells spelled))) fun _ _ took => .pure took.kept
    refine .ite (fun _ => asTrivia) fun _ => ?_
    refine .bind (entryFollowsComma_ensures serves next free) ?_
    rintro found _ ⟨rfl, gets⟩
    refine .ite ?_ fun _ => asTrivia
    intro entry
    refine .bind_gets (advance_gets next m scope) (.pure ?_)
    obtain ⟨es, built, entries⟩ := h
    have opened := entries.comma (Token.isWord_of_spells spelled)
    have less := next.remaining
    exact ⟨⟨⟨_, built.token next, opened⟩, .inr (gets entry)⟩, by omega⟩

theorem enumEntriesInto_kept (serves : Serves recur limit) (h : Holds Entries b₀ m b)
    (body : Holds Outline.body.holds b₀ m b) (free : 4 * b.remaining + 4 ≤ limit) :
    Ensures scope (enumEntriesInto recur m) b (Kept Outline.body.holds b₀ b) := by
  refine .iterate (fun m' b' => EntriesBefore recur scope b₀ m' b' ∧ b'.remaining ≤ b.remaining) ?_
    ⟨⟨h, .inl body⟩, Nat.le_refl _⟩
  rintro m b₁ ⟨⟨h, either⟩, le⟩
  refine .bind (atEnumEntry_ensures serves h.placed (by omega)).gets ?_
  rintro found _ ⟨rfl, gets⟩
  refine .ite ?_ ?_
  · intro _
    refine .bind (enumEntry_gives serves h.placed (by omega)) ?_
    intro entry b₂ given
    have less := given.lt
    have from₀ := h.le
    have h := h.addWith given fun es entries => entries.append given.holds
    refine (entryCommaTurn_ensures serves h (by omega) (by omega)).mono ?_
    rintro (m | m) b₃ ⟨holds, le'⟩
    · exact ⟨⟨holds, by omega⟩, by omega⟩
    · exact ⟨holds, by omega⟩
  · intro none
    rcases either with body | known
    · exact .pure ⟨body, le⟩
    · exact absurd (gets.unique known).1.symm none

theorem entriesInto_kept (serves : Serves recur limit) {isEnum : Bool} (h : Holds Entries b₀ m b)
    (body : Holds Outline.body.holds b₀ m b) (free : 4 * b.remaining + 4 ≤ limit) :
    Ensures scope (entriesInto recur isEnum m) b (Kept Outline.body.holds b₀ b) := by
  refine .ite ?_ ?_
  · intro _
    exact enumEntriesInto_kept serves h body free
  · intro _
    exact .pure ⟨body, Nat.le_refl _⟩

theorem membersInto_kept (serves : Serves recur limit) {isEnum : Bool} (h : Holds Entries b₀ m b)
    (body : Holds Outline.body.holds b₀ m b) (free : 4 * b.remaining + 4 ≤ limit) :
    Ensures scope (membersInto recur isEnum m) b (Kept Outline.body.holds b₀ b) := by
  refine .bind (entriesInto_kept serves h body free) ?_
  rintro m b₁ ⟨h, le⟩
  refine (h.iterateWhile ?_).mono ?_
  · intro m b₂ h le' goesOn
    simp only [Bool.and_eq_true, Bool.not_eq_true'] at goesOn
    exact h.recovering goesOn.2 (declarationOnly_gives serves h.placed (by omega))
  · rintro m b₂ ⟨⟨h, le'⟩, _⟩
    exact ⟨h, by omega⟩

theorem classBody_gives (serves : Serves recur limit) {isEnum : Bool} (placed : b.Placed)
    (near : 4 * b.remaining ≤ limit) : Ensures scope (classBody recur isEnum) b (Gives Ordinary b) := by
  have start : Holds (fun es => es = []) b .empty b := .start placed rfl
  refine .withTrailingLambdas (.bind (start.expectWith (J := fun es => Entries es ∧ Outline.body.holds es) ?_) ?_)
  · rintro _ t rfl spelled
    have spells : t.text = openBrace := Token.text_of_spells spelled
    have unmarked := Token.not_isMark_of_isWord (Token.isWord_of_spells spelled)
    have noComma : t.text ≠ "," := by simp [spells, openBrace]
    have spaced : Spaced (isOf .enumEntry) [.leaf ⟨t, false⟩] :=
      Spaced.append (List.isChain_singleton _) (by simpa [RawElement.spells] using noComma) rfl
    refine ⟨⟨by simpa [isMark] using unmarked, spaced, List.isChain_singleton _, by simp [isOf]⟩,
      by simpa [isMark] using unmarked, spaced, List.isChain_singleton _,
      by simpa [RawElement.spells] using noComma⟩
  · rintro m b₁ ⟨h, less⟩
    refine .bind (membersInto_kept serves (h.mono fun es both => both.1) (h.mono fun es both => both.2)
      (by omega)) ?_
    rintro m b₂ ⟨h, le⟩
    refine .bind (h.expect (by decide)) ?_
    rintro m b₃ ⟨h, less'⟩
    refine h.done (by omega) ?_ (fun _ => rfl)
    intro es body
    exact fits_of_item rfl body.2.2 body.1 body.2.1

end KotlinSyntax.Grammar
