import Mathlib.Data.List.Forall2
import KotlinSyntax.Mutation

/-! How a mutation ends: with a value or with an error, and in either case with a state, since what was done before
a failure stays done. -/
namespace KotlinSyntax.Mutation

variable {σ α β : Type} {s s₁ : State σ} {a : α}

section Steps

variable {x : Mutate σ α} {f : α → Mutate σ β}

theorem bind_of_ok (ran : x s = .ok a s₁) : (x >>= f) s = f a s₁ := by
  change EStateM.bind x f s = _
  rw [EStateM.bind, ran]

theorem bind_of_error {e : MutationError} (failed : x s = .error e s₁) : (x >>= f) s = .error e s₁ := by
  change EStateM.bind x f s = _
  rw [EStateM.bind, failed]

theorem bind_ok {b : β} {after : State σ} (h : (x >>= f) s = .ok b after) :
    ∃ a s₁, x s = .ok a s₁ ∧ f a s₁ = .ok b after := by
  cases ran : x s with
  | ok a s₁ =>
    rw [bind_of_ok ran] at h
    exact ⟨a, s₁, rfl, h⟩
  | error e s₁ =>
    rw [bind_of_error ran] at h
    cases h

theorem mapM_cons_of_ok {as : List α} {b : β} {bs : List β} {s₂ : State σ} (first : f a s = .ok b s₁)
    (others : as.mapM f s₁ = .ok bs s₂) : (a :: as).mapM f s = .ok (b :: bs) s₂ := by
  rw [List.mapM_cons, bind_of_ok first, bind_of_ok others]
  rfl

theorem visitChild_of_ok {visit : Path → Mutate σ Rebuilt} {p : Path} {k : Kind} {c : Field × Node} {r : Rebuilt}
    (ran : visit (p.down c.2) s = .ok r s₁) (fit : fits k c.1 r.node = true) :
    visitChild visit p k c s = .ok (c.1, r) s₁ := by
  rw [visitChild, bind_of_ok ran, if_pos fit]
  rfl

end Steps

/-- The first condition holds of the value and of the state behind it, or the second one of the error. -/
def Leaves (x : Mutate σ α) (s : State σ) (Q : α → State σ → Prop) (E : MutationError → State σ → Prop) : Prop :=
  match x s with
  | .ok a after => Q a after
  | .error e after => E e after

namespace Leaves

variable {x : Mutate σ α} {Q R : α → State σ → Prop} {E F : MutationError → State σ → Prop}

theorem pure {a : α} (h : Q a s) : Leaves (Pure.pure a) s Q E := h

theorem throw {e : MutationError} (h : E e s) : Leaves (throw e) s Q E := h

theorem get {Q : State σ → State σ → Prop} (h : Q s s) : Leaves (MonadState.get : Mutate σ (State σ)) s Q E := h

theorem set {after : State σ} {Q : Unit → State σ → Prop} (h : Q () after) :
    Leaves (MonadStateOf.set after : Mutate σ Unit) s Q E := h

theorem note {line : String} {Q : Unit → State σ → Prop} (h : Q () { s with log := line :: s.log }) :
    Leaves (Mutation.note line) s Q E := h

theorem mono (h : Leaves x s R F) (value : ∀ a after, R a after → Q a after)
    (error : ∀ e after, F e after → E e after) : Leaves x s Q E := by
  unfold Leaves at h ⊢
  split
  · rename_i a after ran
    rw [ran] at h
    exact value a after h
  · rename_i e after failed
    rw [failed] at h
    exact error e after h

theorem bind {f : α → Mutate σ β} {Q : β → State σ → Prop} (first : Leaves x s R E)
    (next : ∀ a after, R a after → Leaves (f a) after Q E) : Leaves (x >>= f) s Q E := by
  unfold Leaves at first ⊢
  cases ran : x s with
  | ok a after =>
    rw [ran] at first
    rw [bind_of_ok ran]
    exact next a after first
  | error e after =>
    rw [ran] at first
    rw [bind_of_error ran]
    exact first

theorem ite {c : Prop} [Decidable c] {y : Mutate σ α} (yes : c → Leaves x s Q E) (no : ¬c → Leaves y s Q E) :
    Leaves (if c then x else y) s Q E := by
  split
  · rename_i h
    exact yes h
  · rename_i h
    exact no h

/-- An invariant that each step keeps is kept by all of them, one after the other. -/
theorem mapM {f : α → Mutate σ β} {P : α → β → Prop} (I : State σ → Prop) (xs : List α)
    (each : ∀ a ∈ xs, ∀ s, I s → Leaves (f a) s (fun b after => P a b ∧ I after) E) (s : State σ) (start : I s) :
    Leaves (xs.mapM f) s (fun bs after => List.Forall₂ P xs bs ∧ I after) E := by
  induction xs generalizing s with
  | nil => exact pure ⟨.nil, start⟩
  | cons a rest ih =>
    rw [List.mapM_cons]
    refine bind (each a (List.mem_cons_self ..) s start) ?_
    rintro b after ⟨made, kept⟩
    refine bind (ih (fun a member => each a (List.mem_cons_of_mem _ member)) after kept) ?_
    rintro bs last ⟨others, kept⟩
    exact pure ⟨.cons made others, kept⟩

end Leaves

end KotlinSyntax.Mutation
