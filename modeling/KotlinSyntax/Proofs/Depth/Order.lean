import KotlinSyntax.Grammar.File
import KotlinSyntax.Proofs.Grammar.Logic

/-! Rules under different bounds on their depth. One rule is a deeper run of another if it answers in the same
way, faults and log included, wherever the other one does not run out of calls. Each rule of the grammar gets
deeper with the rules that it calls. -/
namespace KotlinSyntax.Grammar

variable {α β : Type}

/-- The second rule answers like the first one, unless the first one runs out of calls. -/
def Deepens (g h : Grammar α) : Prop :=
  ∀ scope b, (g scope b).result = .error .exhausted ∨ g scope b = h scope b

namespace Deepens

variable {g g' h h' : Grammar α}

theorem refl {g : Grammar α} : Deepens g g := fun _ _ => .inr rfl

/-- Where the first rule does not run out of calls, both give the same answer. -/
theorem eq {scope : Scope} {b : Builder} (deeper : Deepens g h) (enough : (g scope b).result ≠ .error .exhausted) :
    g scope b = h scope b :=
  (deeper scope b).resolve_left enough

theorem exhausted : Deepens (fail .exhausted) g := fun _ _ => .inl rfl

theorem bind {f f' : α → Grammar β} (first : Deepens g g') (next : ∀ a, Deepens (f a) (f' a)) :
    Deepens (g >>= f) (g' >>= f') := by
  intro scope b
  rcases first scope b with out | same
  · left
    rw [bind_result, out]
  · rcases answer : g' scope b with ⟨faults, log, result⟩
    have answer' := same.trans answer
    cases result with
    | error e =>
      right
      rw [bind_of_error answer, bind_of_error answer']
    | ok value =>
      rw [bind_of_ok answer, bind_of_ok answer']
      rcases next value.1 scope value.2 with out | same
      · exact .inl out
      · right
        rw [same]

/-- The same rule first, and a deeper one behind it. -/
theorem next {f f' : α → Grammar β} (each : ∀ a, Deepens (f a) (f' a)) : Deepens (g >>= f) (g >>= f') :=
  .bind .refl each

/-- A deeper rule first, and the same one behind it. -/
theorem first {f : α → Grammar β} (deeper : Deepens g g') : Deepens (g >>= f) (g' >>= f) :=
  .bind deeper fun _ => .refl

theorem map {f : α → β} (deeper : Deepens g g') : Deepens (f <$> g) (f <$> g') := .first deeper

theorem ite {c : Prop} [Decidable c] (yes : Deepens g g') (no : Deepens h h') :
    Deepens (if c then g else h) (if c then g' else h') := by
  split
  · exact yes
  · exact no

theorem withTrailingLambdas {allowed : Bool} (deeper : Deepens g h) :
    Deepens (Grammar.withTrailingLambdas allowed g) (Grammar.withTrailingLambdas allowed h) :=
  fun _ b => deeper ⟨allowed⟩ b

theorem cases (deeper : Deepens g h) (scope : Scope) (b : Builder) :
    (∃ faults log, g scope b = ⟨faults, log, .error .exhausted⟩) ∨ g scope b = h scope b := by
  refine (deeper scope b).imp_left fun out => ?_
  rcases answer : g scope b with ⟨faults, log, result⟩
  rw [answer] at out
  cases out
  exact ⟨faults, log, rfl⟩

/-- Running out of calls is no rejection: a speculation does not catch it. -/
theorem speculate (deeper : Deepens g h) : Deepens (Grammar.speculate g) (Grammar.speculate h) := by
  intro scope b
  unfold Grammar.speculate
  rcases deeper.cases scope b with ⟨faults, log, out⟩ | same
  · left
    rw [out]
  · right
    rw [same]

theorem lookahead (deeper : Deepens g h) : Deepens (Grammar.lookahead g) (Grammar.lookahead h) := by
  intro scope b
  unfold Grammar.lookahead
  rcases deeper.cases scope b with ⟨faults, log, out⟩ | same
  · left
    rw [out]
  · right
    rw [same]

/-- Nor does recovery. -/
theorem recovering {m : Marker} {g h : Grammar Parsed} (deeper : Deepens g h) :
    Deepens (Grammar.recovering m g) (Grammar.recovering m h) := by
  intro scope b
  unfold Grammar.recovering
  rcases deeper.cases scope b with ⟨faults, log, out⟩ | same
  · left
    rw [out]
  · right
    rw [same]

theorem turns {step step' : α → Grammar (Turn α)} (each : ∀ a, Deepens (step a) (step' a)) (n : Nat) (a : α) :
    Deepens (Grammar.turns step n a) (Grammar.turns step' n a) := by
  induction n generalizing a with
  | zero => exact .refl
  | succ n ih =>
    refine .bind (each a) fun turn => ?_
    cases turn with
    | again a' => exact ih a'
    | stop a' => exact .refl

theorem iterate {step step' : α → Grammar (Turn α)} {a : α} (each : ∀ a, Deepens (step a) (step' a)) :
    Deepens (Grammar.iterate step a) (Grammar.iterate step' a) :=
  .next fun _ => .turns each _ a

theorem iterateWhile {test : Builder → Bool} {step step' : α → Grammar α} {a : α}
    (each : ∀ a, Deepens (step a) (step' a)) :
    Deepens (Grammar.iterateWhile test step a) (Grammar.iterateWhile test step' a) :=
  .iterate fun a => .next fun _ => .ite (.first (each a)) .refl

theorem addIf {test : Builder → Bool} {g h : Grammar Parsed} {m : Marker} (deeper : Deepens g h) :
    Deepens (Grammar.addIf test g m) (Grammar.addIf test h m) :=
  .next fun _ => .ite (.first deeper) .refl

theorem commaList {close : String} {g h : Grammar Parsed} {m : Marker} (deeper : Deepens g h) :
    Deepens (Grammar.commaList m close g) (Grammar.commaList m close h) :=
  .iterate fun _ => .next fun _ => .ite .refl (.first deeper)

theorem bracketed {kind : RawKind} {opening closing : String} {g h : Grammar Parsed} (deeper : Deepens g h) :
    Deepens (Grammar.bracketed kind opening closing g) (Grammar.bracketed kind opening closing h) :=
  .next fun _ => .first (.commaList deeper)

end Deepens

end KotlinSyntax.Grammar
