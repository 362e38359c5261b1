import KotlinSyntax.Proofs.Trim.Marker

/-! What rules build is trimmed. Only what a rule gives counts, and it may run anywhere: neither the tokens nor the
faults matter, so a rule that recovers is no different from any other. -/
namespace KotlinSyntax.Grammar

variable {α β : Type} {Q R : α → Prop} {m : Marker}

def Always (g : Grammar α) (Q : α → Prop) : Prop := ∀ scope b a b', Gets scope g b a b' → Q a

def Turn.Holds (again stop : α → Prop) : Turn α → Prop
  | .again a => again a
  | .stop a => stop a

abbrev Optional (o : Option Parsed) : Prop := ∀ p ∈ o, p.Tidy

abbrev Builds (g : Grammar Parsed) : Prop := Always g Parsed.Tidy

abbrev Grows (g : Grammar Marker) : Prop := Always g Marker.Tidy

/-- A tidy element is tidy as one that may be absent. -/
theorem Always.optional {g : Grammar Parsed} (h : Builds g) : Always g fun p => Optional (some p) := by
  intro scope b p b' gets q same
  cases same
  exact h scope b p b' gets

namespace Always

theorem pure {a : α} (h : Q a) : Always (Pure.pure a) Q := by
  intro scope b a' b' gets
  cases gets
  exact h

theorem mono {g : Grammar α} (h : Always g R) (weaker : ∀ a, R a → Q a) : Always g Q :=
  fun scope b a b' gets => weaker a (h scope b a b' gets)

theorem bind {g : Grammar α} {f : α → Grammar β} {Q : β → Prop} (first : Always g R)
    (next : ∀ a, R a → Always (f a) Q) : Always (g >>= f) Q := by
  intro scope b c b'' gets
  obtain ⟨a, b', given, behind⟩ := gets_of_bind gets
  exact next a (first scope b a b' given) scope b' c b'' behind

/-- Nothing need be known of what comes first. -/
theorem behind {g : Grammar α} {f : α → Grammar β} {Q : β → Prop} (next : ∀ a, Always (f a) Q) :
    Always (g >>= f) Q := by
  intro scope b c b'' gets
  obtain ⟨a, b', -, behind⟩ := gets_of_bind gets
  exact next a scope b' c b'' behind

theorem map {g : Grammar α} {f : α → β} {Q : β → Prop} (h : Always g fun a => Q (f a)) : Always (f <$> g) Q :=
  h.bind fun _ holds => pure holds

theorem fail {e : Failure} : Always (Grammar.fail e) Q := by
  intro scope b a b' gets
  cases gets

theorem reject {complaint : Complaint} : Always (Grammar.reject complaint) Q := behind fun _ => fail

theorem ite {c : Prop} [Decidable c] {g k : Grammar α} (yes : Always g Q) (no : Always k Q) :
    Always (if c then g else k) Q := by
  split
  · exact yes
  · exact no

theorem withTrailingLambdas {allowed : Bool} {g : Grammar α} (h : Always g Q) :
    Always (Grammar.withTrailingLambdas allowed g) Q :=
  fun _ b a b' gets => h ⟨allowed⟩ b a b' gets

theorem speculate {g : Grammar α} (h : Always g Q) : Always (Grammar.speculate g) fun o => ∀ a ∈ o, Q a := by
  intro scope b o b' gets
  unfold Gets Grammar.speculate at gets
  rcases answer : g scope b with ⟨faults, log, result⟩
  rw [answer] at gets
  cases result with
  | ok value =>
    cases gets
    rintro a ⟨⟩
    exact h scope b _ _ (congrArg Answer.result answer)
  | error e =>
    cases e with
    | rejected fault =>
      cases gets
      exact nofun
    | builder e => cases gets
    | exhausted => cases gets

theorem turns {I : α → Prop} {step : α → Grammar (Turn α)} (each : ∀ a, I a → Always (step a) (Turn.Holds I Q))
    (n : Nat) (a : α) (start : I a) : Always (Grammar.turns step n a) Q := by
  induction n generalizing a with
  | zero => exact fail
  | succ n ih =>
    refine (each a start).bind fun turn holds => ?_
    cases turn with
    | again a' => exact ih a' holds
    | stop a' => exact pure holds

theorem iterate {I : α → Prop} {step : α → Grammar (Turn α)} {a : α} (start : I a)
    (each : ∀ a, I a → Always (step a) (Turn.Holds I Q)) : Always (Grammar.iterate step a) Q :=
  behind fun _ => turns each _ a start

theorem iterateWhile {I : α → Prop} {test : Builder → Bool} {step : α → Grammar α} {a : α} (start : I a)
    (each : ∀ a, I a → Always (step a) I) : Always (Grammar.iterateWhile test step a) I := by
  refine iterate start fun a holds => behind fun _ => ite ?_ (pure holds)
  exact (each a holds).bind fun _ after => pure after

end Always

/-! Taking tokens. -/

/-- Trivia goes into the marker, and behind it the leaf. -/
theorem take_leaf {b b' : Builder} {m' : Marker} {count : Nat} {trivia : Bool} {l : Leaf}
    (h : b.take m count trivia = (b', m', .ok l)) :
    ∃ ls, m' = (m.addTrivia ls).push (.leaf l) ∧ l.trivia = trivia := by
  unfold Builder.take at h
  split at h
  · dsimp only [Builder.takeTrivia] at h
    split at h
    · cases h
      exact ⟨_, rfl, rfl⟩
    · cases h
  · cases h

theorem take_always {count : Nat} {trivia : Bool} {P : Marker → Prop}
    (h : ∀ ls l, l.trivia = trivia → P ((m.addTrivia ls).push (.leaf l))) : Always (take m count trivia) P := by
  refine .behind fun b => ?_
  rcases taken : b.take m count trivia with ⟨b', m', result⟩
  refine .behind fun _ => ?_
  cases result with
  | error e => exact .fail
  | ok l =>
    obtain ⟨ls, rfl, same⟩ := take_leaf taken
    exact .pure (h ls l same)

theorem token_builds : Builds token := by
  refine .behind fun b => ?_
  rcases taken : b.take .empty 1 false with ⟨b', m', result⟩
  refine .behind fun _ => ?_
  cases result with
  | error e => exact .fail
  | ok l =>
    obtain ⟨ls, -, part⟩ := take_leaf taken
    exact .pure ⟨part, .leaf l⟩

end KotlinSyntax.Grammar

namespace KotlinSyntax.Marker

open Grammar

variable {m : Marker} {kind : RawKind} {text : String}

namespace Begun

theorem advanceGlued_full (h : m.Begun) (count : Nat) : Always (Grammar.advanceGlued m count) Full :=
  take_always fun ls l part => (h.addTrivia ls).push part (.leaf l)

theorem advance_full (h : m.Begun) : Always (Grammar.advance m) Full := h.advanceGlued_full 1

theorem advanceGlued (h : m.Begun) (count : Nat) : Grows (Grammar.advanceGlued m count) :=
  (h.advanceGlued_full count).mono fun _ on => on.toTidy

theorem advance (h : m.Begun) : Grows (Grammar.advance m) := h.advanceGlued 1

theorem expect (h : m.Begun) : Grows (Grammar.expect m text) :=
  .behind fun _ => .ite h.advance .reject

theorem expectKind {k : TokenKind} {what : String} (h : m.Begun) : Grows (Grammar.expectKind m k what) :=
  .behind fun _ => .ite h.advance .reject

theorem expectName (h : m.Begun) : Grows (Grammar.expectName m) := h.expectKind

theorem expectAny {texts : List String} {what : String} (h : m.Begun) : Grows (Grammar.expectAny m texts what) :=
  .behind fun _ => .ite h.advance .reject

theorem advanceTwice (h : m.Begun) : Grows (Grammar.advanceTwice m) := h.advance.bind fun _ on => on.advance

/-- A comma that counts as trivia goes behind a part. -/
theorem advanceAsTrivia (h : m.Begun) (filled : m.children ≠ #[]) : Always (Grammar.advanceAsTrivia m) Begun := by
  refine take_always fun ls l _ => (h.addTrivia ls).pushLeaf ?_ l
  intro none
  have lists := toList_addTrivia filled ls
  rw [none] at lists
  exact filled (Array.toList_eq_nil_iff.mp (List.append_eq_nil_iff.mp lists.symm).1)

end Begun

namespace Tidy

/-! Finishing nodes. -/

theorem done {role : Option String} (h : m.Tidy) : Builds (Grammar.done m kind role) := by
  unfold Grammar.done
  split
  · rename_i made
    exact .pure (h.of_done made)
  · exact .fail

theorem doneUnlessEmpty (h : m.Tidy) : Always (Grammar.doneUnlessEmpty m kind) Optional :=
  .ite (.pure nofun) (.map h.done.optional)

/-- A declaration may take the comment behind it. -/
theorem doneBound (h : m.Tidy) (binds : kind.bindsComment = true) :
    Builds (do Grammar.done (← Grammar.bindTrailingComment m) kind) := by
  refine .bind (R := fun m' => m' = m ∨ ∃ ls : List Leaf, EndsLine (ls.map .leaf) ∧ m' = m.addTrivia ls) ?_ ?_
  · exact .behind fun b => .behind fun _ => .pure (b.bindTrailingComment_endsLine m)
  · rintro _ (rfl | ⟨ls, ends, rfl⟩)
    · exact h.done
    · unfold Grammar.done
      split
      · rename_i made
        exact .pure (h.of_doneBound ends binds made)
      · exact .fail

/-! Parts that may be absent. -/

theorem advanceIf {test : Builder → Bool} (h : m.Tidy) : Grows (Grammar.advanceIf test m) :=
  .behind fun _ => .ite h.advance (.pure h)

theorem advanceTwiceIf {test : Builder → Bool} (h : m.Tidy) : Grows (Grammar.advanceTwiceIf test m) :=
  .behind fun _ => .ite h.advanceTwice (.pure h)

end Tidy

theorem Begun.addRule {rule : Grammar Parsed} (h : m.Begun) (each : Builds rule) :
    Grows (do return m.add (← rule)) :=
  each.bind fun _ given => .pure (h.add given)

/-- A node whose last part is what the rule gives. -/
theorem Begun.close {rule : Grammar Parsed} {role : Option String} (h : m.Begun) (each : Builds rule) :
    Builds (do Grammar.done (m.add (← rule)) kind role) :=
  each.bind fun _ given => (h.add given).done

theorem Tidy.addIf {test : Builder → Bool} {rule : Grammar Parsed} (h : m.Tidy) (each : Builds rule) :
    Grows (Grammar.addIf test rule m) :=
  .behind fun _ => .ite (h.addRule each) (.pure h)

/-! Lists. -/

theorem Tidy.iterateWhile {test : Builder → Bool} {step : Marker → Grammar Marker} (h : m.Tidy)
    (each : ∀ m, m.Tidy → Grows (step m)) : Grows (Grammar.iterateWhile test step m) :=
  .iterateWhile h each

theorem Tidy.commaList {close : String} {item : Grammar Parsed} (h : m.Tidy) (each : Builds item) :
    Grows (Grammar.commaList m close item) := by
  refine .iterate h fun m on => .behind fun _ => .ite (.pure on) (each.bind fun p given => .behind fun _ => .ite ?_ ?_)
  · exact (on.add given).advance.bind fun _ on => .pure on
  · exact .pure (on.add given)

end KotlinSyntax.Marker

namespace KotlinSyntax.Grammar

open Marker

variable {m : Marker} {kind : RawKind}

/-- A list between two words. -/
theorem bracketed_builds {opening closing : String} {item : Grammar Parsed} (each : Builds item) :
    Builds (bracketed kind opening closing item) :=
  Tidy.empty.expect.bind fun _ on => (on.commaList each).bind fun _ on => on.expect.bind fun _ on => on.done

/-! Recovery. -/

/-- What is skipped begins and ends with a part like any other node. -/
theorem skipToBoundary_offers : Always skipToBoundary Optional := by
  refine .bind (R := fun s => s.1.Tidy) (.iterate (I := fun s => s.1.Tidy) Tidy.empty ?_) fun _ on => on.doneUnlessEmpty
  rintro ⟨m, depth⟩ on
  exact .behind fun _ => .ite (.pure on) (on.advance.bind fun _ on => .pure on)

/-- Recovery adds what the rule gives, or what is skipped, if it is anything. -/
theorem recovering_grows {rule : Grammar Parsed} (h : m.Begun) (each : Builds rule) :
    Always (recovering m rule) fun m' => m' = m ∨ m'.Tidy := by
  have added : Always (do return m.add? (← skipToBoundary)) fun m' => m' = m ∨ m'.Tidy := by
    refine skipToBoundary_offers.bind fun o given => .pure ?_
    cases o with
    | none => exact .inl rfl
    | some p => exact .inr (h.add (given p rfl))
  intro scope b m' b' gets
  unfold Gets recovering at gets
  rcases answer : rule scope b with ⟨faults, log, result⟩
  rw [answer] at gets
  cases result with
  | ok value =>
    cases gets
    exact .inr (h.add (each scope b _ _ (congrArg Answer.result answer)))
  | error e =>
    cases e with
    | rejected fault => exact added scope b m' b' gets
    | builder e => cases gets
    | exhausted => cases gets

theorem recovering_tidy {rule : Grammar Parsed} (h : m.Tidy) (each : Builds rule) : Grows (recovering m rule) := by
  refine (recovering_grows h.toBegun each).mono ?_
  rintro m' (rfl | tidy)
  · exact h
  · exact tidy

/-- The rules through which the grammar recurs build tidy elements. -/
def Careful (recur : Recur) : Prop := ∀ r, Builds (recur r)

end KotlinSyntax.Grammar
