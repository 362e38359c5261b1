import KotlinSyntax.Grammar.Basic

/-! What a rule ensures. A rule never uses the builder wrongly and never runs out of turns, and what it gives
with the builder behind it satisfies a condition. Most rules may reject the tokens, some never do. -/
namespace KotlinSyntax.Grammar

variable {α β : Type} {scope : Scope} {b : Builder}

/-- What the rule gives satisfies the condition, or it rejects the tokens if it may. -/
def Ends (may : Prop) (scope : Scope) (g : Grammar α) (b : Builder) (Q : α → Builder → Prop) : Prop :=
  match (g scope b).result with
  | .ok (a, b') => Q a b'
  | .error (.rejected _) => may
  | .error _ => False

abbrev Ensures (scope : Scope) (g : Grammar α) (b : Builder) (Q : α → Builder → Prop) : Prop :=
  Ends True scope g b Q

def Gets (scope : Scope) (g : Grammar α) (b : Builder) (a : α) (b' : Builder) : Prop :=
  (g scope b).result = .ok (a, b')

/-- What holds where a loop goes on, and where it ends. -/
def Turning (again stop : α → Builder → Prop) : Turn α → Builder → Prop
  | .again a, b => again a b
  | .stop a, b => stop a b

def Maybe (Q : α → Builder → Prop) (N : Builder → Prop) : Option α → Builder → Prop
  | some a, b => Q a b
  | none, b => N b

theorem bind_of_ok {g : Grammar α} {f : α → Grammar β} {faults : List Fault} {log : List String} {a : α} {b' : Builder}
    (h : g scope b = ⟨faults, log, .ok (a, b')⟩) : (g >>= f) scope b =
      ⟨faults ++ (f a scope b').faults, log ++ (f a scope b').log, (f a scope b').result⟩ := by
  simp only [Bind.bind, h]

theorem bind_of_error {g : Grammar α} {f : α → Grammar β} {faults : List Fault} {log : List String} {e : Failure}
    (h : g scope b = ⟨faults, log, .error e⟩) : (g >>= f) scope b = ⟨faults, log, .error e⟩ := by
  simp only [Bind.bind, h]

theorem bind_result (g : Grammar α) (f : α → Grammar β) (scope : Scope) (b : Builder) :
    ((g >>= f) scope b).result = match (g scope b).result with
      | .ok (a, b') => (f a scope b').result
      | .error e => .error e := by
  rcases answer : g scope b with ⟨faults, log, result⟩
  cases result with
  | ok value => rw [bind_of_ok answer]
  | error e => rw [bind_of_error answer]

/-- Both rules of a bind succeed. -/
theorem gets_of_bind {g : Grammar α} {f : α → Grammar β} {c : β} {b'' : Builder}
    (h : Gets scope (g >>= f) b c b'') : ∃ a b', Gets scope g b a b' ∧ Gets scope (f a) b' c b'' := by
  unfold Gets at *
  rw [bind_result] at h
  cases found : (g scope b).result with
  | ok answer =>
    rw [found] at h
    exact ⟨answer.1, answer.2, rfl, h⟩
  | error e =>
    rw [found] at h
    cases h

theorem Gets.unique {g : Grammar α} {a a' : α} {b' b'' : Builder} (h : Gets scope g b a b')
    (k : Gets scope g b a' b'') : a' = a ∧ b'' = b' := by
  have same := k.symm.trans h
  cases same
  exact ⟨rfl, rfl⟩

/-- A loop whose test fails at once does nothing. -/
theorem iterateWhile_gets {test : Builder → Bool} {step : α → Grammar α} {a : α} (stops : test b = false) :
    Gets scope (iterateWhile test step a) b a b := by
  unfold Gets iterateWhile iterate
  rw [bind_result]
  simp only [look, turns]
  rw [bind_result, bind_result]
  simp only [look, stops]
  rfl

namespace Ends

variable {may : Prop} {Q R : α → Builder → Prop}

theorem of_gets {g : Grammar α} {a : α} {b' : Builder} (h : Ends may scope g b Q) (gets : Gets scope g b a b') :
    Q a b' := by
  unfold Ends at h
  rw [gets] at h
  exact h

/-- A rule that may not reject gives something. -/
theorem gets_of_false {g : Grammar α} (h : Ends False scope g b Q) : ∃ a b', Gets scope g b a b' ∧ Q a b' := by
  unfold Ends Gets at *
  cases found : (g scope b).result with
  | ok answer =>
    rw [found] at h
    exact ⟨answer.1, answer.2, rfl, h⟩
  | error e =>
    rw [found] at h
    cases e <;> exact h.elim

theorem pure {a : α} (h : Q a b) : Ends may scope (Pure.pure a) b Q := h

theorem mono {g : Grammar α} (h : Ends may scope g b R) (weaker : ∀ a b', R a b' → Q a b') :
    Ends may scope g b Q := by
  unfold Ends at h ⊢
  split
  · rename_i a b' found
    rw [found] at h
    exact weaker a b' h
  · rename_i found
    rw [found] at h
    exact h
  · rename_i e fatal found
    rw [found] at h
    cases e with
    | rejected fault => exact absurd rfl (fatal fault)
    | builder e => exact h
    | exhausted => exact h

theorem bind {g : Grammar α} {f : α → Grammar β} {Q : β → Builder → Prop} (first : Ends may scope g b R)
    (next : ∀ a b', R a b' → Ends may scope (f a) b' Q) : Ends may scope (g >>= f) b Q := by
  unfold Ends at first ⊢
  rw [bind_result]
  cases found : (g scope b).result with
  | ok answer =>
    rw [found] at first
    exact next answer.1 answer.2 first
  | error e =>
    rw [found] at first
    cases e with
    | rejected fault => exact first
    | builder e => exact first
    | exhausted => exact first

/-- What a rule ensures, it ensures of what it gives. -/
theorem gets {g : Grammar α} (h : Ends may scope g b Q) :
    Ends may scope g b fun a b' => Q a b' ∧ Gets scope g b a b' := by
  unfold Ends Gets at *
  cases found : (g scope b).result with
  | ok answer =>
    rw [found] at h
    exact ⟨h, rfl⟩
  | error e =>
    rw [found] at h
    cases e with
    | rejected fault => exact h
    | builder e => exact h
    | exhausted => exact h

/-- A bind whose first rule is known to succeed. -/
theorem bind_gets {g : Grammar α} {f : α → Grammar β} {Q : β → Builder → Prop} {a : α} {b' : Builder}
    (first : Gets scope g b a b') (next : Ends may scope (f a) b' Q) : Ends may scope (g >>= f) b Q := by
  unfold Ends
  rw [bind_result, first]
  exact next

theorem map {g : Grammar α} {f : α → β} {Q : β → Builder → Prop}
    (h : Ends may scope g b fun a b' => Q (f a) b') : Ends may scope (f <$> g) b Q :=
  bind h fun _ _ holds => holds

theorem look {f : Builder → Grammar β} {Q : β → Builder → Prop} (h : Ends may scope (f b) b Q) :
    Ends may scope (Grammar.look >>= f) b Q :=
  bind_gets (a := b) rfl h

theorem goTo {b' : Builder} {f : Unit → Grammar β} {Q : β → Builder → Prop} (h : Ends may scope (f ()) b' Q) :
    Ends may scope (Grammar.goTo b' >>= f) b Q :=
  bind_gets (a := ()) rfl h

theorem surroundings {f : Scope → Grammar β} {Q : β → Builder → Prop} (h : Ends may scope (f scope) b Q) :
    Ends may scope (Grammar.surroundings >>= f) b Q :=
  bind_gets (a := scope) rfl h

theorem note {line : String} {f : Unit → Grammar β} {Q : β → Builder → Prop}
    (h : Ends may scope (f ()) b Q) : Ends may scope (Grammar.note line >>= f) b Q :=
  bind_gets (a := ()) rfl h

theorem reject {complaint : Complaint} : Ensures scope (Grammar.reject complaint) b Q := trivial

theorem ite {c : Prop} [Decidable c] {g k : Grammar α} (yes : c → Ends may scope g b Q)
    (no : ¬c → Ends may scope k b Q) : Ends may scope (if c then g else k) b Q := by
  split
  · rename_i h
    exact yes h
  · rename_i h
    exact no h

theorem withTrailingLambdas {allowed : Bool} {g : Grammar α} (h : Ends may ⟨allowed⟩ g b Q) :
    Ends may scope (Grammar.withTrailingLambdas allowed g) b Q := h

/-- A failed speculation leaves the builder where it was. -/
theorem speculate {g : Grammar α} (h : Ensures scope g b Q) :
    Ends may scope (Grammar.speculate g) b (Maybe Q (· = b)) := by
  unfold Ensures at h
  unfold Ends Grammar.speculate at *
  generalize g scope b = answer at *
  obtain ⟨faults, log, result⟩ := answer
  cases result with
  | ok answer => exact h
  | error e =>
    cases e with
    | rejected fault => rfl
    | builder e => exact h
    | exhausted => exact h

/-- Looking ahead leaves the builder where it was, and tells what the rule would give. -/
theorem lookahead {g : Grammar α} (h : Ensures scope g b Q) :
    Ends may scope (Grammar.lookahead g) b fun found b' =>
      b' = b ∧ (found = true → ∃ a b'', Gets scope g b a b'') := by
  unfold Ensures at h
  unfold Ends Grammar.lookahead Gets at *
  generalize g scope b = answer at *
  obtain ⟨faults, log, result⟩ := answer
  cases result with
  | ok answer => exact ⟨rfl, fun _ => ⟨answer.1, answer.2, rfl⟩⟩
  | error e =>
    cases e with
    | rejected fault => exact ⟨rfl, nofun⟩
    | builder e => exact h
    | exhausted => exact h

/-- Each turn but the last keeps the invariant and takes a token. -/
theorem turns {step : α → Grammar (Turn α)} (inv : α → Builder → Prop)
    (each : ∀ a b, inv a b → Ends may scope (step a) b
      (Turning (fun a' b' => inv a' b' ∧ b'.remaining < b.remaining) Q))
    (n : Nat) (a : α) (b : Builder) (start : inv a b) (enough : b.remaining < n) :
    Ends may scope (Grammar.turns step n a) b Q := by
  induction n generalizing a b with
  | zero => omega
  | succ n ih =>
    refine bind (each a b start) ?_
    intro turn b' after
    cases turn with
    | again a' => exact ih a' b' after.1 (by have := after.2; omega)
    | stop a' => exact pure after

theorem iterate {step : α → Grammar (Turn α)} (inv : α → Builder → Prop)
    (each : ∀ a b, inv a b → Ends may scope (step a) b
      (Turning (fun a' b' => inv a' b' ∧ b'.remaining < b.remaining) Q))
    {a : α} (start : inv a b) : Ends may scope (Grammar.iterate step a) b Q :=
  look (turns inv each _ a b start (by omega))

theorem iterateWhile {test : Builder → Bool} {step : α → Grammar α} (inv : α → Builder → Prop)
    (each : ∀ a b, inv a b → test b = true →
      Ends may scope (step a) b fun a' b' => inv a' b' ∧ b'.remaining < b.remaining)
    {a : α} (start : inv a b) :
    Ends may scope (Grammar.iterateWhile test step a) b fun a' b' => inv a' b' ∧ test b' = false := by
  refine iterate inv ?_ start
  intro a b holds
  refine look (ite ?_ ?_)
  · intro tested
    exact bind (each a b holds tested) fun a' b' after => pure after
  · intro tested
    exact pure ⟨holds, by simpa using tested⟩

/-- Recovery adds what the rule gives, or what is skipped from where the rule began. -/
theorem recovering {m : Marker} {rule : Grammar Parsed} {P : Parsed → Builder → Prop}
    {Q : Marker → Builder → Prop} (h : Ensures scope rule b P) (given : ∀ p b', P p b' → Q (m.add p) b')
    (skipped : Ends may scope skipToBoundary b fun p b' => Q (m.add? p) b') :
    Ends may scope (Grammar.recovering m rule) b Q := by
  have added : Ends may scope (do return m.add? (← skipToBoundary)) b Q :=
    bind skipped fun p b' holds => pure holds
  unfold Ensures at h
  unfold Ends Grammar.recovering at *
  generalize rule scope b = answer at *
  obtain ⟨faults, log, result⟩ := answer
  cases result with
  | ok answer => exact given answer.1 answer.2 h
  | error e =>
    cases e with
    | rejected fault => exact added
    | builder e => exact h
    | exhausted => exact h

end Ends

end KotlinSyntax.Grammar
