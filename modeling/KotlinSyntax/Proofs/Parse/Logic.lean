import KotlinSyntax.Proofs.Depth.Recursion

/-! What a rule reads. A reading gives something, and nothing is wrong on the way: no token is rejected but by a
speculation, and no fault is recorded. -/
namespace KotlinSyntax.Grammar

variable {α β : Type} {scope : Scope} {b : Builder} {Q R : α → Builder → Prop}

def Reads (scope : Scope) (g : Grammar α) (b : Builder) (Q : α → Builder → Prop) : Prop :=
  ∃ log a b', g scope b = ⟨[], log, .ok (a, b')⟩ ∧ Q a b'

namespace Reads

theorem mono {g : Grammar α} (h : Reads scope g b R) (weaker : ∀ a b', R a b' → Q a b') : Reads scope g b Q := by
  obtain ⟨log, a, b', ran, holds⟩ := h
  exact ⟨log, a, b', ran, weaker a b' holds⟩

theorem pure {a : α} (h : Q a b) : Reads scope (Pure.pure a) b Q := ⟨[], a, b, rfl, h⟩

theorem bind {g : Grammar α} {f : α → Grammar β} {Q : β → Builder → Prop} (first : Reads scope g b R)
    (next : ∀ a b', R a b' → Reads scope (f a) b' Q) : Reads scope (g >>= f) b Q := by
  obtain ⟨log, a, b', ran, holds⟩ := first
  obtain ⟨log', c, b'', ran', holds'⟩ := next a b' holds
  refine ⟨log ++ log', c, b'', ?_, holds'⟩
  rw [bind_of_ok ran, ran']
  rfl

theorem map {g : Grammar α} {f : α → β} {Q : β → Builder → Prop} (h : Reads scope g b fun a b' => Q (f a) b') :
    Reads scope (f <$> g) b Q :=
  bind h fun _ _ holds => pure holds

theorem look {f : Builder → Grammar β} {Q : β → Builder → Prop} (h : Reads scope (f b) b Q) :
    Reads scope (Grammar.look >>= f) b Q :=
  bind (R := fun a b' => a = b ∧ b' = b) ⟨[], b, b, rfl, rfl, rfl⟩ (by rintro _ _ ⟨rfl, rfl⟩; exact h)

theorem surroundings {f : Scope → Grammar β} {Q : β → Builder → Prop} (h : Reads scope (f scope) b Q) :
    Reads scope (Grammar.surroundings >>= f) b Q :=
  bind (R := fun s b' => s = scope ∧ b' = b) ⟨[], scope, b, rfl, rfl, rfl⟩ (by rintro _ _ ⟨rfl, rfl⟩; exact h)

theorem goTo {c : Builder} {f : Unit → Grammar β} {Q : β → Builder → Prop} (h : Reads scope (f ()) c Q) :
    Reads scope (Grammar.goTo c >>= f) b Q :=
  bind (R := fun _ b' => b' = c) ⟨[], (), c, rfl, rfl⟩ (by rintro _ _ rfl; exact h)

/-- The branch that is taken. -/
theorem yes {c : Prop} [Decidable c] {g k : Grammar α} (holds : c) (h : Reads scope g b Q) :
    Reads scope (if c then g else k) b Q := by
  rwa [if_pos holds]

/-- The branch that is left. -/
theorem no {c : Prop} [Decidable c] {g k : Grammar α} (fails : ¬c) (h : Reads scope k b Q) :
    Reads scope (if c then g else k) b Q := by
  rwa [if_neg fails]

theorem withTrailingLambdas {allowed : Bool} {g : Grammar α} (h : Reads ⟨allowed⟩ g b Q) :
    Reads scope (Grammar.withTrailingLambdas allowed g) b Q := h

/-- What is rejected in the end leaves no trace. -/
theorem speculate_none {g : Grammar α} {Q : Option α → Builder → Prop} (rejects : Ensures scope g b fun _ _ => False)
    (h : Q none b) : Reads scope (Grammar.speculate g) b Q := by
  unfold Ensures Ends at rejects
  rcases answer : g scope b with ⟨faults, log, result⟩
  rw [answer] at rejects
  cases result with
  | ok value => exact rejects.elim
  | error e =>
    cases e with
    | rejected fault => exact ⟨log, none, b, by rw [Grammar.speculate, answer], h⟩
    | builder e => exact rejects.elim
    | exhausted => exact rejects.elim

/-- A run over tokens that is a reading ends without faults. -/
theorem run {tokens : List Token} {g : Grammar α} (h : Reads {} g (.ofTokens tokens) Q) :
    ∃ a s, Grammar.run g tokens = .ok a s ∧ s.faults = [] ∧ Q a s.builder := by
  obtain ⟨log, a, b', ran, holds⟩ := h
  exact ⟨a, ⟨b', [], log⟩, by rw [Grammar.run, ran], rfl, holds⟩

end Reads

def Loops (scope : Scope) (step : α → Grammar (Turn α)) (a : α) (b : Builder) (Q : α → Builder → Prop) : Prop :=
  ∀ n, b.remaining < n → Reads scope (turns step n a) b Q

namespace Loops

variable {step : α → Grammar (Turn α)} {a : α}

/-- A turn goes on behind a token, or ends the loop. -/
theorem turn (h : Reads scope (step a) b
    (Turning (fun a' b' => b'.remaining < b.remaining ∧ Loops scope step a' b' Q) Q)) : Loops scope step a b Q := by
  intro n enough
  obtain ⟨n, rfl⟩ : ∃ k, n = k + 1 := ⟨n - 1, by omega⟩
  refine .bind h ?_
  rintro (a' | a') b' after
  · obtain ⟨less, loops⟩ : b'.remaining < b.remaining ∧ Loops scope step a' b' Q := after
    exact loops n (by omega)
  · exact .pure after

theorem stop (h : Reads scope (step a) b fun turn b' => turn = .stop a ∧ b' = b) (holds : Q a b) :
    Loops scope step a b Q := by
  refine turn (h.mono ?_)
  rintro _ _ ⟨rfl, rfl⟩
  exact holds

/-- A loop of no turns. -/
theorem of_stop (h : Loops scope (fun a => pure (.stop a)) a b Q) : Q a b := by
  obtain ⟨log, a', b', ran, holds⟩ := h _ (Nat.lt_succ_self _)
  cases ran
  exact holds

end Loops

theorem Reads.iterate {step : α → Grammar (Turn α)} {a : α} (h : Loops scope step a b Q) :
    Reads scope (Grammar.iterate step a) b Q :=
  .look (h _ (Nat.lt_succ_self _))

/-- A rule with as many calls as it needs reads what it stands for. -/
theorem Reads.whole {r : Rule} {Q : Parsed → Builder → Prop} (placed : b.Placed) (applies : r.Applies b)
    (h : Reads scope (body Recur.whole r) b Q) : Reads scope (Recur.whole r) b Q := by
  unfold Reads at h ⊢
  rwa [whole_unfold placed applies]

/-- So does a rule that is applied to tokens. -/
theorem Reads.apply {r : Rule} {Q : Parsed → Builder → Prop} (placed : b.Placed) (applies : r.Applies b)
    (h : Reads scope (body Recur.whole r) b Q) : Reads scope (Grammar.apply r) b Q := by
  have enough := depthFor_enough b
  have low := r.rank_lt
  have same : rule (depthFor b.significant.size) r scope b = Recur.whole r scope b :=
    rule_eq_whole placed applies (by unfold Rule.weight; omega)
  refine .look ?_
  have read := h.whole placed applies
  unfold Reads at read ⊢
  rwa [same]

end KotlinSyntax.Grammar
