import Mathlib.Data.List.Forall2
import KotlinSyntax.Proofs.Twin.Builder

/-! Two runs of the grammar over twin sources. Rules are alike if from builders at the same part they record the
same faults at the same parts, and either fail alike or give values that are alike. -/
namespace KotlinSyntax

/-- The same complaint about the same part, or about the end of the text. -/
structure Fault.Alike (ts us : List Token) (f g : Fault) : Prop where
  complaint : f.complaint = g.complaint
  place : ∃ k : Nat, (Token.places ts)[k]? = some f.offset ∧ (Token.places us)[k]? = some g.offset

namespace Grammar

inductive Failure.Alike (w : Twins) : Failure → Failure → Prop
  | rejected {f g : Fault} (h : f.Alike w.one w.two g) : Alike w (.rejected f) (.rejected g)
  | builder (e : BuilderError) : Alike w (.builder e) (.builder e)
  | exhausted : Alike w .exhausted .exhausted

variable {α β : Type}

inductive Answer.Ends (w : Twins) (R : α → α → Prop) (P : Builder → Builder → Prop) :
    Except Failure (α × Builder) → Except Failure (α × Builder) → Prop
  | ok {a a' : α} {b c : Builder} (same : R a a') (place : P b c) : Ends w R P (.ok (a, b)) (.ok (a', c))
  | error {e e' : Failure} (same : e.Alike w e') : Ends w R P (.error e) (.error e')

/-- The same faults, and alike failures or values, with the builders behind them related. -/
structure Answer.Alike (w : Twins) (R : α → α → Prop) (P : Builder → Builder → Prop) (x y : Answer α) : Prop where
  faults : List.Forall₂ (Fault.Alike w.one w.two) x.faults y.faults
  result : Ends w R P x.result y.result

/-- The rules are alike at the two builders, whatever the surroundings. -/
def LikeAt (w : Twins) (R : α → α → Prop) (b c : Builder) (g h : Grammar α) : Prop :=
  ∀ scope, (g scope b).Alike w R (Builder.Alike w) (h scope c)

def Like (w : Twins) (R : α → α → Prop) (g h : Grammar α) : Prop :=
  ∀ ⦃b c : Builder⦄, b.Alike w c → LikeAt w R b c g h

variable {w : Twins} {R : α → α → Prop} {S : β → β → Prop} {b c : Builder} {g h : Grammar α}

theorem bind_faults (g : Grammar α) (f : α → Grammar β) (scope : Scope) (b : Builder) :
    ((g >>= f) scope b).faults = (g scope b).faults ++ match (g scope b).result with
      | .ok (a, b') => (f a scope b').faults
      | .error _ => [] := by
  rcases answer : g scope b with ⟨faults, log, result⟩
  cases result with
  | ok value => rw [bind_of_ok answer]
  | error e => rw [bind_of_error answer, List.append_nil]

theorem Answer.Alike.bind {f f' : α → Grammar β} {P : Builder → Builder → Prop} {scope : Scope}
    (first : (g scope b).Alike w R (Builder.Alike w) (h scope c))
    (next : ∀ {a a' b' c'}, R a a' → b'.Alike w c' → (f a scope b').Alike w S P (f' a' scope c')) :
    ((g >>= f) scope b).Alike w S P ((h >>= f') scope c) := by
  obtain ⟨faults, ends⟩ := first
  refine ⟨?_, ?_⟩
  · rw [bind_faults, bind_faults]
    refine List.rel_append faults ?_
    generalize (g scope b).result = x at ends
    generalize (h scope c).result = y at ends
    cases ends with
    | ok same place => exact (next same place).faults
    | error same => exact .nil
  · rw [bind_result, bind_result]
    generalize (g scope b).result = x at ends
    generalize (h scope c).result = y at ends
    cases ends with
    | ok same place => exact (next same place).result
    | error same => exact .error same

theorem Answer.Alike.look {f f' : Builder → Grammar α} {P : Builder → Builder → Prop} {scope : Scope}
    (each : (f b scope b).Alike w R P (f' c scope c)) :
    ((Grammar.look >>= f) scope b).Alike w R P ((Grammar.look >>= f') scope c) := each

theorem LikeAt.bind {f f' : α → Grammar β} (first : LikeAt w R b c g h)
    (next : ∀ {a a' b' c'}, R a a' → b'.Alike w c' → LikeAt w S b' c' (f a) (f' a')) :
    LikeAt w S b c (g >>= f) (h >>= f') :=
  fun scope => (first scope).bind fun same place => next same place scope

theorem LikeAt.ite {t t' : Bool} {k k' : Grammar α} (same : t = t') (yes : t = true → LikeAt w R b c g h)
    (no : t = false → LikeAt w R b c k k') : LikeAt w R b c (if t then g else k) (if t' then h else k') := by
  subst same
  cases t with
  | true => exact yes rfl
  | false => exact no rfl

namespace Like

theorem pure {a a' : α} (same : R a a') : Like w R (Pure.pure a) (Pure.pure a') :=
  fun _ _ place _ => ⟨.nil, .ok same place⟩

theorem bind {f f' : α → Grammar β} (first : Like w R g h)
    (next : ∀ {a a'}, R a a' → Like w S (f a) (f' a')) : Like w S (g >>= f) (h >>= f') :=
  fun _ _ place => (first place).bind fun same place => next same place

theorem map {f f' : α → β} (first : Like w R g h) (next : ∀ {a a'}, R a a' → S (f a) (f' a')) :
    Like w S (f <$> g) (f' <$> h) :=
  first.bind fun same => .pure (next same)

theorem some (first : Like w R g h) : Like w (Option.Rel R) (Option.some <$> g) (Option.some <$> h) :=
  first.map .some

/-- The rules that follow may rely on the builder that was looked at. -/
theorem lookAt {f f' : Builder → Grammar α} (each : ∀ {b c}, b.Alike w c → LikeAt w R b c (f b) (f' c)) :
    Like w R (look >>= f) (look >>= f') :=
  fun _ _ place scope => each place scope

theorem look {f f' : Builder → Grammar α} (each : ∀ {b c}, b.Alike w c → Like w R (f b) (f' c)) :
    Like w R (Grammar.look >>= f) (Grammar.look >>= f') :=
  lookAt fun place => each place place

theorem surroundings {f f' : Scope → Grammar α} (each : ∀ scope, Like w R (f scope) (f' scope)) :
    Like w R (Grammar.surroundings >>= f) (Grammar.surroundings >>= f') :=
  fun _ _ place scope => each scope place scope

theorem ite {t t' : Bool} {k k' : Grammar α} (same : t = t') (yes : Like w R g h) (no : Like w R k k') :
    Like w R (if t then g else k) (if t' then h else k') :=
  fun _ _ place => .ite same (fun _ => yes place) fun _ => no place

theorem exhausted : Like w R (fail .exhausted) (fail .exhausted) :=
  fun _ _ _ _ => ⟨.nil, .error .exhausted⟩

theorem builder (e : BuilderError) : Like w R (fail (.builder e)) (fail (.builder e)) :=
  fun _ _ _ _ => ⟨.nil, .error (.builder e)⟩

end Like

theorem alike_fault (h : b.Alike w c) (complaint : Complaint) :
    Fault.Alike w.one w.two ⟨complaint, b.offset⟩ ⟨complaint, c.offset⟩ :=
  ⟨rfl, b.cursor, h.one.offset, by rw [h.cursor]; exact h.two.offset⟩

namespace Like

theorem reject (complaint : Complaint) : Like w R (Grammar.reject complaint) (Grammar.reject complaint) :=
  lookAt fun place _ => ⟨.nil, .error (.rejected (alike_fault place complaint))⟩

theorem complain (complaint : Complaint) : Like w Eq (Grammar.complain complaint) (Grammar.complain complaint) :=
  fun _ _ place _ => ⟨.cons (alike_fault place complaint) .nil, .ok rfl place⟩

theorem complainUnless {fine fine' : Bool} (same : fine = fine') (complaint : Complaint) :
    Like w Eq (Grammar.complainUnless fine complaint) (Grammar.complainUnless fine' complaint) :=
  .ite same (.pure rfl) (.complain complaint)

theorem note (line line' : String) : Like w Eq (Grammar.note line) (Grammar.note line') :=
  fun _ _ place _ => ⟨.nil, .ok rfl place⟩

/-- Both go back to a place where they were before. -/
theorem goBack {b c b' c' : Builder} (start : b.Alike w c) (place : b'.Alike w c') :
    Like w Eq (goTo (b'.restore b.snapshot)) (goTo (c'.restore c.snapshot)) := by
  have one : b'.restore b.snapshot = b := place.one.restore start.one
  have two : c'.restore c.snapshot = c := place.two.restore start.two
  rw [one, two]
  exact fun _ _ _ _ => ⟨.nil, .ok rfl start⟩

theorem withTrailingLambdas (allowed : Bool) (rule : Like w R g h) :
    Like w R (Grammar.withTrailingLambdas allowed g) (Grammar.withTrailingLambdas allowed h) :=
  fun _ _ place _ => rule place ⟨allowed⟩

theorem speculate (rule : Like w R g h) : Like w (Option.Rel R) (Grammar.speculate g) (Grammar.speculate h) := by
  intro b c place scope
  obtain ⟨same, ends⟩ := rule place scope
  unfold Grammar.speculate
  generalize g scope b = x at same ends
  generalize h scope c = y at same ends
  obtain ⟨faults, log, result⟩ := x
  obtain ⟨faults', log', result'⟩ := y
  cases ends with
  | ok alike place' => exact ⟨same, .ok (.some alike) place'⟩
  | error failure =>
    cases failure with
    | rejected fault => exact ⟨.nil, .ok .none place⟩
    | builder e => exact ⟨same, .error (.builder e)⟩
    | exhausted => exact ⟨same, .error .exhausted⟩

theorem lookahead {g h : Grammar Unit} (rule : Like w Eq g h) :
    Like w Eq (Grammar.lookahead g) (Grammar.lookahead h) := by
  intro b c place scope
  obtain ⟨same, ends⟩ := rule place scope
  unfold Grammar.lookahead
  generalize g scope b = x at same ends
  generalize h scope c = y at same ends
  obtain ⟨faults, log, result⟩ := x
  obtain ⟨faults', log', result'⟩ := y
  cases ends with
  | ok alike place' => exact ⟨.nil, .ok rfl place⟩
  | error failure =>
    cases failure with
    | rejected fault => exact ⟨.nil, .ok rfl place⟩
    | builder e => exact ⟨same, .error (.builder e)⟩
    | exhausted => exact ⟨same, .error .exhausted⟩

end Like

/-! Loops. -/

def Both (R : α → α → Prop) (S : β → β → Prop) (x y : α × β) : Prop := R x.1 y.1 ∧ S x.2 y.2

inductive Turn.Alike (R : α → α → Prop) : Turn α → Turn α → Prop
  | again {a a' : α} (same : R a a') : Alike R (.again a) (.again a')
  | stop {a a' : α} (same : R a a') : Alike R (.stop a) (.stop a')

namespace Like

variable {step step' : α → Grammar (Turn α)} {a a' : α}

theorem turns (each : ∀ {a a'}, R a a' → Like w (Turn.Alike R) (step a) (step' a')) (n : Nat) (start : R a a') :
    Like w R (Grammar.turns step n a) (Grammar.turns step' n a') := by
  induction n generalizing a a' with
  | zero => exact .exhausted
  | succ n ih =>
    refine .bind (each start) fun turn => ?_
    cases turn with
    | again same => exact ih same
    | stop same => exact .pure same

theorem iterate (start : R a a') (each : ∀ {a a'}, R a a' → Like w (Turn.Alike R) (step a) (step' a')) :
    Like w R (Grammar.iterate step a) (Grammar.iterate step' a') := by
  refine .look fun {b c} place => ?_
  rw [place.remaining]
  exact .turns each (c.remaining + 1) start

theorem iterateWhile {test : Builder → Bool} {step step' : α → Grammar α} (start : R a a')
    (same : ∀ {b c}, b.Alike w c → test b = test c) (each : ∀ {a a'}, R a a' → Like w R (step a) (step' a')) :
    Like w R (Grammar.iterateWhile test step a) (Grammar.iterateWhile test step' a') :=
  .iterate start fun alike => .look fun place =>
    .ite (same place) (.bind (each alike) fun alike => .pure (.again alike)) (.pure (.stop alike))

end Like

/-! Taking tokens. -/

open Builder in
theorem take_eq {t : Token} {gap : List Token} (next : Placed.Next b t gap) (m : Marker) (trivia : Bool)
    (scope : Scope) : take m 1 trivia scope b =
      { result := .ok (m.add (parsed gap t trivia), b.behind 1 (b.pos + gap.length)) } := by
  simp only [take, Bind.bind, look, next.take]
  rfl

theorem take_of_end (ended : b.index? 0 = none) (m : Marker) (count : Nat) (trivia : Bool) (scope : Scope) :
    take m count trivia scope b = { result := .error (.builder .pastEnd) } := by
  simp only [take, Bind.bind, look, Builder.take, ended]
  rfl

open Builder in
theorem token_eq {t : Token} {gap : List Token} (next : Placed.Next b t gap) (scope : Scope) :
    token scope b = { result := .ok (parsed gap t false, b.behind 1 (b.pos + gap.length)) } := by
  simp only [token, Bind.bind, look, next.take]
  rfl

theorem token_of_end (ended : b.index? 0 = none) (scope : Scope) :
    token scope b = { result := .error (.builder .pastEnd) } := by
  simp only [token, Bind.bind, look, Builder.take, ended]
  rfl

namespace Like

variable {m n : Marker}

theorem take (h : m.Alike n) (trivia : Bool) :
    Like w Marker.Alike (Grammar.take m 1 trivia) (Grammar.take n 1 trivia) := by
  intro b c place scope
  rcases place.peek_cases with ⟨one, two⟩ | ⟨t, u, gap, gap', one, two, same⟩
  · rw [take_of_end one, take_of_end two]
    exact ⟨.nil, .error (.builder _)⟩
  · rw [take_eq one, take_eq two]
    exact ⟨.nil, .ok (h.add (place.parsed one two same one.significant trivia)) (place.behind one two)⟩

theorem advance (h : m.Alike n) : Like w Marker.Alike (Grammar.advance m) (Grammar.advance n) := .take h false

theorem advanceAsTrivia (h : m.Alike n) :
    Like w Marker.Alike (Grammar.advanceAsTrivia m) (Grammar.advanceAsTrivia n) := .take h true

theorem advanceTwice (h : m.Alike n) : Like w Marker.Alike (Grammar.advanceTwice m) (Grammar.advanceTwice n) :=
  .bind (.advance h) fun h => .advance h

theorem token : Like w Parsed.Alike Grammar.token Grammar.token := by
  intro b c place scope
  rcases place.peek_cases with ⟨one, two⟩ | ⟨t, u, gap, gap', one, two, same⟩
  · rw [token_of_end one, token_of_end two]
    exact ⟨.nil, .error (.builder _)⟩
  · rw [token_eq one, token_eq two]
    exact ⟨.nil, .ok (place.parsed one two same one.significant false) (place.behind one two)⟩

theorem done (h : m.Alike n) (kind : RawKind) (role : Option String) :
    Like w Parsed.Alike (Grammar.done m kind role) (Grammar.done n kind role) := by
  simp only [Grammar.done, Marker.done, h.isEmpty]
  cases n.children.isEmpty with
  | true => exact .builder _
  | false => exact .pure (.node h kind role)

theorem doneUnlessEmpty (h : m.Alike n) (kind : RawKind) :
    Like w (Option.Rel Parsed.Alike) (Grammar.doneUnlessEmpty m kind) (Grammar.doneUnlessEmpty n kind) :=
  .ite h.isEmpty (.pure .none) (.some (.done h kind none))

end Like

open Builder in
theorem take_two_eq {t u : Token} {gap : List Token} (first : Placed.Next b t gap)
    (second : Placed.Next (b.behind 1 (b.pos + gap.length)) u []) (m : Marker) (scope : Scope) :
    take m 2 false scope b = ⟨[], [], .ok
      (m.add (parsed gap ⟨.operator, t.start, u.stop, String.join [t.text, u.text]⟩ false),
        b.behind 2 (b.pos + gap.length + 1))⟩ := by
  simp only [take, Bind.bind, look, first.take_two second]
  rfl

/-- An operator is glued of the same pieces on both sides. -/
theorem LikeAt.advanceGlued {m n : Marker} {ops : List String} (place : b.Alike w c) (h : m.Alike n)
    (stands : 0 < b.operatorsCount ops) :
    LikeAt w Marker.Alike b c (Grammar.advanceGlued m (b.operatorsCount ops))
      (Grammar.advanceGlued n (c.operatorsCount ops)) := by
  rw [← place.operatorsCount]
  obtain ⟨op, _, count⟩ := operatorsCount_mem stands
  rw [count] at stands ⊢
  rcases operatorCount_cases stands with ⟨one, _⟩ | ⟨first, second, two, _, seen, seen', touch⟩
  · rw [one]
    exact Like.take h false place
  · obtain ⟨t, u, gap, next, next', spelled, spelled'⟩ := next_two place.one.placed seen seen' touch
    rw [place.sees] at seen seen'
    rw [place.adjacent] at touch
    obtain ⟨t', u', gap', next₂, next₂', spelled₂, spelled₂'⟩ := next_two place.two.placed seen seen' touch
    have joined : String.join [t.text, u.text] = String.join [t'.text, u'.text] := by
      rw [Token.text_of_spells spelled, Token.text_of_spells spelled', Token.text_of_spells spelled₂,
        Token.text_of_spells spelled₂']
    rw [two]
    intro scope
    rw [Grammar.advanceGlued, Grammar.advanceGlued, take_two_eq next next', take_two_eq next₂ next₂']
    refine ⟨.nil, .ok (h.add (place.parsed next next₂ ?_ rfl false)) ?_⟩
    · simp only [Token.bare, joined]
    · exact (place.behind next next₂).behind next' next₂'

/-- Pulling in a comment moves over trivia. -/
theorem bindTrailingComment_eq {ts : List Token} (h : b.Over ts) (calm : ∀ t ∈ ts, t.Calm) (m : Marker)
    (scope : Scope) : ∃ m' b', bindTrailingComment m scope b = { result := .ok (m', b') } ∧ b'.Over ts ∧
      b'.cursor = b.cursor ∧ (m' = m ∨ ∃ ls, Marker.Neat ⟨ls, #[]⟩ ∧ m' = m.addTrivia ls) := by
  rcases Builder.bindTrailingComment_eq b m with same | ⟨run, rest, split, blank, taken⟩
  · refine ⟨m, b, ?_, h, rfl, .inl rfl⟩
    simp only [bindTrailingComment, Bind.bind, look, same]
    rfl
  · refine ⟨m.addTrivia (run.map Leaf.ofToken), { b with pos := b.pos + run.length }, ?_,
      ⟨h.tokens, h.significant, h.placed.skip split blank⟩, rfl, .inr ⟨_, h.trivia_neat calm split blank, rfl⟩⟩
    simp only [bindTrailingComment, Bind.bind, look, taken]
    rfl

namespace Like

variable {m n : Marker}

theorem bindTrailingComment (h : m.Alike n) :
    Like w Marker.Alike (Grammar.bindTrailingComment m) (Grammar.bindTrailingComment n) := by
  intro b c place scope
  obtain ⟨m', b', one, stands, cursor, left⟩ := bindTrailingComment_eq place.one w.calm m scope
  obtain ⟨n', c', two, stands', cursor', right⟩ := bindTrailingComment_eq place.two w.calm' n scope
  rw [one, two]
  have same : m'.Alike n := by
    rcases left with rfl | ⟨ls, neat, rfl⟩
    · exact h
    · exact h.addTrivia neat
  have both : m'.Alike n' := by
    rcases right with rfl | ⟨ls, neat, rfl⟩
    · exact same
    · exact (same.symm.addTrivia neat).symm
  exact ⟨.nil, .ok both ⟨stands, stands', by rw [cursor, cursor', place.cursor]⟩⟩

theorem expect (h : m.Alike n) (text : String) :
    Like w Marker.Alike (Grammar.expect m text) (Grammar.expect n text) :=
  .look fun place => .ite (place.sees text 0) (.advance h) (.reject _)

theorem expectKind (h : m.Alike n) (kind : TokenKind) (what : String) :
    Like w Marker.Alike (Grammar.expectKind m kind what) (Grammar.expectKind n kind what) :=
  .look fun place => .ite (place.seesKind kind 0) (.advance h) (.reject _)

theorem expectName (h : m.Alike n) : Like w Marker.Alike (Grammar.expectName m) (Grammar.expectName n) :=
  .expectKind h .identifier _

theorem expectAny (h : m.Alike n) (texts : List String) (what : String) :
    Like w Marker.Alike (Grammar.expectAny m texts what) (Grammar.expectAny n texts what) :=
  .look fun place => .ite (place.seesAny texts) (.advance h) (.reject _)

variable {test : Builder → Bool} {rule rule' : Grammar Parsed}

theorem advanceIf (h : m.Alike n) (same : ∀ {b c}, b.Alike w c → test b = test c) :
    Like w Marker.Alike (Grammar.advanceIf test m) (Grammar.advanceIf test n) :=
  .look fun place => .ite (same place) (.advance h) (.pure h)

theorem advanceTwiceIf (h : m.Alike n) (same : ∀ {b c}, b.Alike w c → test b = test c) :
    Like w Marker.Alike (Grammar.advanceTwiceIf test m) (Grammar.advanceTwiceIf test n) :=
  .look fun place => .ite (same place) (.advanceTwice h) (.pure h)

theorem addIf (h : m.Alike n) (same : ∀ {b c}, b.Alike w c → test b = test c)
    (each : Like w Parsed.Alike rule rule') :
    Like w Marker.Alike (Grammar.addIf test rule m) (Grammar.addIf test rule' n) :=
  .look fun place => .ite (same place) (.bind each fun alike => .pure (h.add alike)) (.pure h)

theorem commaList (h : m.Alike n) (close : String) (each : Like w Parsed.Alike rule rule') :
    Like w Marker.Alike (Grammar.commaList m close rule) (Grammar.commaList n close rule') :=
  .iterate h fun h => .look fun place => .ite (place.sees close 0) (.pure (.stop h))
    (.bind each fun item => .look fun place => .ite (place.sees "," 0)
      (.bind (.advance (h.add item)) fun h => .pure (.again h)) (.pure (.stop (h.add item))))

theorem bracketed (kind : RawKind) (opening closing : String) (each : Like w Parsed.Alike rule rule') :
    Like w Parsed.Alike (Grammar.bracketed kind opening closing rule) (Grammar.bracketed kind opening closing rule') :=
  .bind (.expect .start opening) fun h => .bind (.commaList h closing each) fun h =>
    .bind (.expect h closing) fun h => .done h kind none

/-! Recovery. -/

theorem skipToBoundary : Like w (Option.Rel Parsed.Alike) Grammar.skipToBoundary Grammar.skipToBoundary := by
  have start : Both Marker.Alike Eq (Marker.empty, 0) (Marker.empty, 0) := ⟨.start, rfl⟩
  refine .bind (.iterate start ?_) fun both => .doneUnlessEmpty both.1 .errorElement
  rintro ⟨m, depth⟩ ⟨n, depth'⟩ ⟨h, rfl⟩
  refine .look fun place => .ite ?_ (.pure (.stop ⟨h, rfl⟩)) (.bind (.advance h) fun h => .pure (.again ⟨h, ?_⟩))
  · simp only [h.isEmpty, place.separatedBefore, place.sees, place.atEnd]
  · simp only [place.sees]

theorem recovering (h : m.Alike n) (each : Like w Parsed.Alike rule rule') :
    Like w Marker.Alike (Grammar.recovering m rule) (Grammar.recovering n rule') := by
  have skip : Like w Marker.Alike (do return m.add? (← Grammar.skipToBoundary))
      (do return n.add? (← Grammar.skipToBoundary)) := .bind .skipToBoundary fun p => .pure (h.add? p)
  intro b c place scope
  obtain ⟨same, ends⟩ := each place scope
  have skipped := skip place scope
  unfold Grammar.recovering
  generalize rule scope b = x at same ends
  generalize rule' scope c = y at same ends
  obtain ⟨faults, log, result⟩ := x
  obtain ⟨faults', log', result'⟩ := y
  cases ends with
  | ok alike place' => exact ⟨same, .ok (h.add alike) place'⟩
  | error failure =>
    cases failure with
    | rejected fault => exact ⟨List.rel_append same (.cons fault skipped.faults), skipped.result⟩
    | builder e => exact ⟨same, .error (.builder e)⟩
    | exhausted => exact ⟨same, .error .exhausted⟩

end Like

abbrev Steady (w : Twins) (rule : Grammar Parsed) : Prop := Like w Parsed.Alike rule rule

abbrev SteadyOpt (w : Twins) (rule : Grammar (Option Parsed)) : Prop := Like w (Option.Rel Parsed.Alike) rule rule

/-- The rule makes alike markers of alike ones. -/
abbrev Carries (w : Twins) (f : Marker → Grammar Marker) : Prop :=
  ∀ ⦃m n⦄, m.Alike n → Like w Marker.Alike (f m) (f n)

abbrev Closes (w : Twins) (f : Marker → Grammar Parsed) : Prop :=
  ∀ ⦃m n⦄, m.Alike n → Like w Parsed.Alike (f m) (f n)

end Grammar

end KotlinSyntax
