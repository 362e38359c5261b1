import KotlinSyntax.Proofs.Builder
import KotlinSyntax.Proofs.Grammar.Logic
import KotlinSyntax.Proofs.Plan.Token

/-! What a rule yields. Only runs without faults count: a rule that gives something then has found all that it
expects, and nothing was skipped. -/
namespace KotlinSyntax

/-- The builder counts the significant tokens right, and no name or literal is spelled like a word of a plan. -/
structure Builder.Ready (b : Builder) : Prop where
  placed : b.Placed
  unreserved : ∀ t ∈ b.tokens.toList, t.isUnreserved = true

namespace Grammar

structure Reached (b b' : Builder) : Prop where
  ready : b'.Ready
  tokens : b'.tokens = b.tokens
  significant : b'.significant = b.significant

variable {α β : Type} {scope : Scope} {b b' : Builder}

def Yields (scope : Scope) (g : Grammar α) (b : Builder) (Q : α → Builder → Prop) : Prop :=
  b.Ready → ∀ log a b', g scope b = ⟨[], log, .ok (a, b')⟩ → Reached b b' ∧ Q a b'

namespace Reached

theorem refl (h : b.Ready) : Reached b b := ⟨h, rfl, rfl⟩

theorem trans {c : Builder} (h : Reached b b') (k : Reached b' c) : Reached b c :=
  ⟨k.ready, k.tokens.trans h.tokens, k.significant.trans h.significant⟩

end Reached

namespace Yields

variable {Q R : α → Builder → Prop}

theorem mono {g : Grammar α} (h : Yields scope g b R) (weaker : ∀ a b', R a b' → Q a b') : Yields scope g b Q := by
  intro ready log a b' run
  obtain ⟨reached, holds⟩ := h ready log a b' run
  exact ⟨reached, weaker a b' holds⟩

/-- Two conditions hold of the same run. -/
theorem and {g : Grammar α} (h : Yields scope g b Q) (k : Yields scope g b R) :
    Yields scope g b fun a b' => Q a b' ∧ R a b' := by
  intro ready log a b' run
  exact ⟨(h ready log a b' run).1, (h ready log a b' run).2, (k ready log a b' run).2⟩

theorem reached {g : Grammar α} (h : Yields scope g b Q) : Yields scope g b fun a b' => Q a b' ∧ Reached b b' := by
  intro ready log a b' run
  obtain ⟨reached, holds⟩ := h ready log a b' run
  exact ⟨reached, holds, reached⟩

theorem gets {g : Grammar α} (h : Yields scope g b Q) : Yields scope g b fun a b' => Q a b' ∧ Gets scope g b a b' := by
  intro ready log a b' run
  obtain ⟨reached, holds⟩ := h ready log a b' run
  exact ⟨reached, holds, by rw [Gets, run]⟩

/-- The builder in front of a rule may be taken as ready. -/
theorem whenReady {g : Grammar α} (h : b.Ready → Yields scope g b Q) : Yields scope g b Q :=
  fun ready => h ready ready

/-- A run that is known. -/
theorem ofGets {g : Grammar α} {a : α} (gets : Gets scope g b a b') (back : b.Ready → Reached b b') (h : Q a b') :
    Yields scope g b Q := by
  intro ready log a' b'' run
  obtain ⟨rfl, rfl⟩ := Gets.unique gets (by rw [Gets, run] : Gets scope g b a' b'')
  exact ⟨back ready, h⟩

theorem pure {a : α} (h : Q a b) : Yields scope (Pure.pure a) b Q := by
  intro ready log a' b' run
  cases run
  exact ⟨.refl ready, h⟩

theorem bind {g : Grammar α} {f : α → Grammar β} {Q : β → Builder → Prop} (first : Yields scope g b R)
    (next : ∀ a b', R a b' → Yields scope (f a) b' Q) : Yields scope (g >>= f) b Q := by
  intro ready log c b'' run
  rcases answer : g scope b with ⟨faults, log, result⟩
  cases result with
  | error e =>
    rw [bind_of_error answer] at run
    cases run
  | ok value =>
    obtain ⟨a, b'⟩ := value
    rw [bind_of_ok answer] at run
    rcases answer' : f a scope b' with ⟨faults', log', result'⟩
    simp only [answer', Answer.mk.injEq, List.append_eq_nil_iff] at run
    obtain ⟨⟨rfl, rfl⟩, _, rfl⟩ := run
    obtain ⟨reached, holds⟩ := first ready log a b' answer
    obtain ⟨reached', holds'⟩ := next a b' holds reached.ready log' c b'' answer'
    exact ⟨reached.trans reached', holds'⟩

theorem map {g : Grammar α} {f : α → β} {Q : β → Builder → Prop} (h : Yields scope g b fun a b' => Q (f a) b') :
    Yields scope (f <$> g) b Q :=
  bind h fun _ _ holds => pure holds

theorem look {f : Builder → Grammar β} {Q : β → Builder → Prop} (h : Yields scope (f b) b Q) :
    Yields scope (Grammar.look >>= f) b Q := by
  refine bind (R := fun a b' => a = b ∧ b' = b) ?_ ?_
  · intro ready log a b' run
    cases run
    exact ⟨.refl ready, rfl, rfl⟩
  · rintro _ _ ⟨rfl, rfl⟩
    exact h

theorem surroundings {f : Scope → Grammar β} {Q : β → Builder → Prop} (h : ∀ s, Yields scope (f s) b Q) :
    Yields scope (Grammar.surroundings >>= f) b Q := by
  refine bind (R := fun _ b' => b' = b) ?_ ?_
  · intro ready log a b' run
    cases run
    exact ⟨.refl ready, rfl⟩
  · rintro s _ rfl
    exact h s

theorem goTo {c : Builder} {f : Unit → Grammar β} {Q : β → Builder → Prop} (back : b.Ready → Reached b c)
    (h : Yields scope (f ()) c Q) : Yields scope (Grammar.goTo c >>= f) b Q := by
  refine bind (R := fun _ b' => b' = c) ?_ ?_
  · intro ready log a b' run
    cases run
    exact ⟨back ready, rfl⟩
  · rintro _ _ rfl
    exact h

theorem note {line : String} {f : Unit → Grammar β} {Q : β → Builder → Prop} (h : Yields scope (f ()) b Q) :
    Yields scope (Grammar.note line >>= f) b Q := by
  refine bind (R := fun _ b' => b' = b) ?_ ?_
  · intro ready log a b' run
    cases run
    exact ⟨.refl ready, rfl⟩
  · rintro _ _ rfl
    exact h

theorem fail {e : Failure} : Yields scope (Grammar.fail e) b Q := by
  intro ready log a b' run
  cases run

theorem reject {complaint : Complaint} : Yields scope (Grammar.reject complaint) b Q := look fail

theorem ite {c : Prop} [Decidable c] {g k : Grammar α} (yes : c → Yields scope g b Q)
    (no : ¬c → Yields scope k b Q) : Yields scope (if c then g else k) b Q := by
  split
  · rename_i h
    exact yes h
  · rename_i h
    exact no h

/-- A complaint is a fault. -/
theorem complainUnless {fine : Bool} {complaint : Complaint} {f : Unit → Grammar β} {Q : β → Builder → Prop}
    (h : fine = true → Yields scope (f ()) b Q) : Yields scope (Grammar.complainUnless fine complaint >>= f) b Q := by
  refine bind (R := fun _ b' => fine = true ∧ b' = b) (ite (fun yes => pure ⟨yes, rfl⟩) fun _ => ?_) ?_
  · intro ready log a b' run
    cases run
  · rintro _ _ ⟨yes, rfl⟩
    exact h yes

theorem withTrailingLambdas {allowed : Bool} {g : Grammar α} (h : Yields ⟨allowed⟩ g b Q) :
    Yields scope (Grammar.withTrailingLambdas allowed g) b Q := h

theorem speculate {g : Grammar α} (h : Yields scope g b Q) :
    Yields scope (Grammar.speculate g) b (Maybe Q (· = b)) := by
  intro ready log a b' run
  unfold Grammar.speculate at run
  cases answer : g scope b with
  | mk faults log result =>
    rw [answer] at run
    cases result with
    | ok value =>
      cases run
      exact h ready _ _ _ answer
    | error e =>
      cases e with
      | rejected fault =>
        cases run
        exact ⟨.refl ready, rfl⟩
      | builder e => cases run
      | exhausted => cases run

/-- Looking ahead leaves the builder where it was, and tells what the rule would give. -/
theorem lookahead {g : Grammar α} : Yields scope (Grammar.lookahead g) b fun found b' =>
    b' = b ∧ (found = true → ∃ a b'', Gets scope g b a b'') := by
  intro ready log found b' run
  unfold Grammar.lookahead at run
  cases answer : g scope b with
  | mk faults log result =>
    rw [answer] at run
    cases result with
    | ok value =>
      cases run
      exact ⟨.refl ready, rfl, fun _ => ⟨value.1, value.2, by rw [Gets, answer]⟩⟩
    | error e =>
      cases e with
      | rejected fault =>
        cases run
        exact ⟨.refl ready, rfl, nofun⟩
      | builder e => cases run
      | exhausted => cases run

theorem iterate {step : α → Grammar (Turn α)} {I : α → Builder → Prop} {a : α} (start : I a b)
    (each : ∀ a b, I a b → Yields scope (step a) b (Turning I Q)) : Yields scope (Grammar.iterate step a) b Q := by
  have turns (n : Nat) : ∀ a b, I a b → Yields scope (Grammar.turns step n a) b Q := by
    induction n with
    | zero => exact fun _ _ _ => fail
    | succ n ih =>
      intro a b holds
      refine bind (each a b holds) ?_
      rintro (a' | a') b' after
      · exact ih a' b' after
      · exact pure after
  exact look (turns _ a b start)

theorem iterateWhile {test : Builder → Bool} {step : α → Grammar α} {I : α → Builder → Prop} {a : α} (start : I a b)
    (each : ∀ a b, I a b → test b = true → Yields scope (step a) b I) :
    Yields scope (Grammar.iterateWhile test step a) b fun a' b' => I a' b' ∧ test b' = false := by
  refine iterate start fun a b holds => look (ite (fun tested => ?_) fun tested => ?_)
  · exact bind (each a b holds tested) fun a' b' after => pure after
  · exact pure ⟨holds, by simpa using tested⟩

/-- Recovery records a fault, so what is added is what the rule gives. -/
theorem recovering {m : Marker} {rule : Grammar Parsed} {Q : Marker → Builder → Prop}
    (h : Yields scope rule b fun p b' => Q (m.add p) b') : Yields scope (Grammar.recovering m rule) b Q := by
  intro ready log a b' run
  unfold Grammar.recovering at run
  cases answer : rule scope b with
  | mk faults log result =>
    rw [answer] at run
    cases result with
    | ok value =>
      cases run
      exact h ready _ _ _ answer
    | error e =>
      cases e with
      | rejected fault => simp at run
      | builder e => cases run
      | exhausted => cases run

end Yields

end Grammar

end KotlinSyntax
