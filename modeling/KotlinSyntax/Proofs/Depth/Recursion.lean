import KotlinSyntax.Proofs.Depth.Progress
import KotlinSyntax.Proofs.Depth.Rule
import KotlinSyntax.Proofs.Twin.Token

/-! The recursion of the grammar is well founded. A call weighs four for each token left and the rank of its rule,
and calls only what weighs less. So the rules need no bound on their depth: any bound that is large enough gives
what the rules give that have as many calls as they need. -/
namespace KotlinSyntax.Grammar

open Builder

variable {recur : Recur} {limit depth : Nat} {scope : Scope} {b : Builder} {r : Rule}

/-- Four for each token left, and the rank of the rule. -/
def Rule.weight (b : Builder) (r : Rule) : Nat := 4 * b.remaining + r.rank

theorem Rule.rank_lt (r : Rule) : r.rank < 4 := by cases r <;> simp [Rule.rank]

instance (b : Builder) : (r : Rule) → Decidable (r.Applies b)
  | .annotationSet => inferInstanceAs (Decidable (b.sees "@" = true))
  | .expression | .unary | .typeReference _ | .statement | .classBody _ => isTrue trivial

/-- The rules, where a call that weighs no less than the limit runs out at once, and so does the call of a rule
that does not apply. -/
def Recur.below (recur : Recur) (limit : Nat) : Recur := fun r scope b =>
  if r.weight b < limit ∧ r.Applies b then recur r scope b else fail .exhausted scope b

/-- The rules with as many calls as they need where they begin. -/
def Recur.whole : Recur := fun r scope b => rule (r.weight b + 1) r scope b

theorem Serves.below (serves : Serves recur limit) : Serves (recur.below limit) limit := by
  intro r scope b placed applies room
  have given := serves r scope b placed applies room
  unfold Ensures Ends at given ⊢
  rwa [Recur.below, if_pos ⟨room, applies⟩]

theorem whole_apply (r : Rule) (scope : Scope) (b : Builder) :
    Recur.whole r scope b = rule (r.weight b + 1) r scope b := rfl

theorem whole_serves (limit : Nat) : Serves Recur.whole limit := by
  intro r scope b placed applies _
  have given := rule_serves (r.weight b + 1) r scope b placed applies (Nat.lt_succ_self _)
  unfold Ensures Ends at given ⊢
  rwa [whole_apply]

theorem below_deepens (limit : Nat) : (Recur.whole.below limit).Deepens (rule limit) := by
  intro r scope b
  unfold Recur.below
  split
  · rename_i lighter
    rw [whole_apply]
    exact rule_deepens (Nat.succ_le_of_lt lighter.1) r scope b
  · exact .inl rfl

/-- A rule that ensures something does not run out of calls. -/
theorem Ends.not_exhausted {α : Type} {may : Prop} {g : Grammar α} {Q : α → Builder → Prop} (h : Ends may scope g b Q) :
    (g scope b).result ≠ .error .exhausted := by
  intro out
  unfold Ends at h
  rw [out] at h
  exact h

/-- A bound on the depth that is large enough makes no difference. -/
theorem rule_eq_whole (placed : b.Placed) (applies : r.Applies b) (enough : r.weight b < depth) :
    rule depth r scope b = Recur.whole r scope b := by
  have given := rule_serves (r.weight b + 1) r scope b placed applies (Nat.lt_succ_self _)
  rw [whole_apply]
  exact (Deepens.eq (rule_deepens enough r) given.not_exhausted).symm

/-- The rules are what they stand for, with calls of less weight only. -/
theorem whole_eq (placed : b.Placed) (applies : r.Applies b) :
    Recur.whole r scope b = body (Recur.whole.below (r.weight b)) r scope b := by
  have given : Ensures scope (body (Recur.whole.below (r.weight b)) r) b (Gives Ordinary b) :=
    body_gives (whole_serves _).below placed applies (Nat.le_refl _)
  rw [whole_apply]
  exact (Deepens.eq (body_deepens (below_deepens _) r) given.not_exhausted).symm

theorem whole_below_deepens (limit : Nat) : (Recur.whole.below limit).Deepens Recur.whole := by
  intro r scope b
  unfold Recur.below
  split
  · exact .inr rfl
  · exact .inl rfl

/-- The rules solve the equations that define them. -/
theorem whole_unfold (placed : b.Placed) (applies : r.Applies b) :
    Recur.whole r scope b = body Recur.whole r scope b := by
  have given : Ensures scope (body (Recur.whole.below (r.weight b)) r) b (Gives Ordinary b) :=
    body_gives (whole_serves _).below placed applies (Nat.le_refl _)
  rw [whole_eq placed applies]
  exact Deepens.eq (body_deepens (whole_below_deepens _) r) given.not_exhausted

end KotlinSyntax.Grammar
