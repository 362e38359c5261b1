import KotlinSyntax.Proofs.Grammar.Building

/-! What the combinators of the grammar ensure of the marker they work on. -/
namespace KotlinSyntax.Grammar

open Builder RawElement

/-- The marker holds the tokens since the builder where it began, and its parts satisfy the condition. -/
def Holds (I : List RawElement → Prop) (b₀ : Builder) (m : Marker) (b : Builder) : Prop :=
  ∃ es, Built b₀ b m es ∧ I es

/-- The same, and no token was given back. -/
def Kept (I : List RawElement → Prop) (b₀ b : Builder) (m : Marker) (b' : Builder) : Prop :=
  Holds I b₀ m b' ∧ b'.remaining ≤ b.remaining

def Took (I : List RawElement → Prop) (b₀ b : Builder) (m : Marker) (b' : Builder) : Prop :=
  Holds I b₀ m b' ∧ b'.remaining < b.remaining

/-- An element of which the last token stands behind the second builder. -/
def Grown (b₀ b : Builder) (p : Parsed) (b' : Builder) : Prop :=
  Gives Ordinary b₀ p b' ∧ b'.remaining < b.remaining

def Ahead (b : Builder) : Prop := ∃ t, b.peek = some t ∧ Ordinary (.leaf ⟨t, false⟩)

variable {b₀ b b' : Builder} {m : Marker} {es : List RawElement} {p : Parsed} {t : Token} {text : String}
  {may : Prop} {scope : Scope} {P : RawElement → Prop} {I J L : List RawElement → Prop} {o : Outline} {kind : RawKind}

theorem Took.kept (h : Took I b₀ b m b') : Kept I b₀ b m b' := ⟨h.1, Nat.le_of_lt h.2⟩

theorem Gives.lt (h : Gives P b₀ p b) : b.remaining < b₀.remaining := h.built.lt (by simp)

theorem Gives.placed (h : Gives P b₀ p b) : b.Placed := h.built.placed

/-! What a test says about the next token. -/

theorem peek_of_sees {n : Int} (h : b.sees text n = true) : ∃ t, b.peek n = some t ∧ t.spells text = true := by
  unfold Builder.sees at h
  cases found : b.peek n with
  | none => simp [found] at h
  | some t => exact ⟨t, rfl, by simpa [found] using h⟩

theorem peek_of_seesKind {kind : TokenKind} {n : Int} (h : b.seesKind kind n = true) :
    ∃ t, b.peek n = some t ∧ t.kind = kind := by
  unfold Builder.seesKind at h
  cases found : b.peek n with
  | none => simp [found] at h
  | some t => exact ⟨t, rfl, by simpa [found] using h⟩

theorem peek_of_not_atEnd (h : b.atEnd = false) : ∃ t, b.peek = some t := by
  cases found : b.peek with
  | none => simp [atEnd, found] at h
  | some t => exact ⟨t, rfl⟩

theorem proper_of_peek (placed : b.Placed) (seen : b.peek = some t) : t.isProper = true := by
  obtain ⟨gap, next⟩ := placed.next seen
  refine placed.proper t ?_
  rw [next.split]
  exact List.mem_append_right gap (List.mem_cons_self ..)

theorem ordinary_of_spells (h : t.spells text = true) (noComma : text ≠ ",") : Ordinary (.leaf ⟨t, false⟩) := by
  have spelled := Token.text_of_spells h
  have unmarked := Token.not_isMark_of_isWord (Token.isWord_of_spells h)
  simp [Ordinary, isOrdinary, spelled, noComma, unmarked]

def isOperand : TokenKind → Bool
  | .identifier | .keyword | .integerLiteral | .floatLiteral | .charLiteral => true
  | _ => false

theorem ordinary_of_isOperand (proper : t.isProper = true) (h : isOperand t.kind = true) :
    Ordinary (.leaf ⟨t, false⟩) := by
  cases kind : t.kind <;> simp [kind, isOperand] at h <;>
  · simp only [Token.isProper, kind, Bool.and_eq_true] at proper
    simpa [Ordinary, isOrdinary, kind, TokenKind.isMark] using proper.1.1

theorem ahead_of_sees (h : b.sees text = true) (noComma : text ≠ ",") : Ahead b := by
  obtain ⟨t, seen, spelled⟩ := peek_of_sees h
  exact ⟨t, seen, ordinary_of_spells spelled noComma⟩

theorem ahead_of_seesAny {texts : List String} (h : b.seesAny texts = true) (noComma : "," ∉ texts) : Ahead b := by
  obtain ⟨text, member, seen⟩ := List.any_eq_true.mp h
  refine ahead_of_sees seen ?_
  rintro rfl
  exact noComma member

theorem ahead_of_seesName (placed : b.Placed) (h : b.seesName = true) : Ahead b := by
  obtain ⟨t, seen, name⟩ := peek_of_seesKind h
  exact ⟨t, seen, ordinary_of_isOperand (proper_of_peek placed seen) (by rw [name]; rfl)⟩

/-- A name is not spelled like a sign. -/
theorem not_sees_of_seesName (placed : b.Placed) (h : b.seesName = true) :
    b.sees "@" = false ∧ b.sees openBrace = false := by
  obtain ⟨t, seen, name⟩ := peek_of_seesKind h
  have proper := proper_of_peek placed seen
  simp only [Token.isProper, name, Bool.and_eq_true, bne_iff_ne] at proper
  constructor
  · simp [Builder.sees, seen, Token.spells, proper.2]
  · simp [Builder.sees, seen, Token.spells, openBrace, proper.1.2]

/-! Taking tokens. -/

theorem advance_gets {gap : List Token} (next : Placed.Next b t gap) (m : Marker) (scope : Scope) :
    Gets scope (advance m) b ((m.addTrivia (gap.map Leaf.ofToken)).push (.leaf ⟨t, false⟩))
      (b.behind 1 (b.pos + gap.length)) := by
  unfold Gets advance take
  rw [bind_result]
  simp only [look, next.take]
  rfl

namespace Holds

theorem start (placed : b.Placed) (h : I []) : Holds I b .empty b := ⟨[], .start placed, h⟩

theorem ofParsed (given : Gives P b₀ p b) (h : I [p.element]) : Holds I b₀ (.ofParsed p) b :=
  ⟨[p.element], given.built, h⟩

theorem placed (h : Holds I b₀ m b) : b.Placed := by
  obtain ⟨es, built, _⟩ := h
  exact built.placed

theorem le (h : Holds I b₀ m b) : b.remaining ≤ b₀.remaining := by
  obtain ⟨es, built, _⟩ := h
  exact built.le

/-- A marker that took no token has not moved. -/
theorem eq_or_lt (h : Holds I b₀ m b) : b = b₀ ∨ b.remaining < b₀.remaining := by
  obtain ⟨es, built, _⟩ := h
  by_cases none : es = []
  · subst none
    exact .inl built.eq_start
  · exact .inr (built.lt none)

theorem mono (h : Holds I b₀ m b) (weaker : ∀ es, I es → J es) : Holds J b₀ m b := by
  obtain ⟨es, built, holds⟩ := h
  exact ⟨es, built, weaker es holds⟩

/-- The next token, whatever it is, becomes the last part. -/
theorem advanceWith (h : Holds I b₀ m b) (seen : b.peek = some t)
    (step : ∀ es, I es → J (es ++ [.leaf ⟨t, false⟩])) :
    Ends may scope (advance m) b fun m' b' => Took J b₀ b m' b' ∧ ∀ n, b'.peek n = b.peek (n + 1) := by
  obtain ⟨es, built, holds⟩ := h
  obtain ⟨gap, next⟩ := built.placed.next seen
  unfold Ends
  rw [advance_gets next m scope]
  have less := next.remaining
  exact ⟨⟨⟨_, built.token next, step es holds⟩, by omega⟩, behind_peek b _⟩

theorem advance (h : Holds o.holds b₀ m b) (ahead : Ahead b) :
    Ends may scope (advance m) b (Took o.holds b₀ b) := by
  obtain ⟨t, seen, plain⟩ := ahead
  exact (h.advanceWith seen fun es holds => o.ordinary holds plain).mono fun m' b' after => after.1

/-- Any word may be taken where only marks are unwelcome. -/
theorem advanceWord (h : Holds Outline.plain.holds b₀ m b) (seen : b.sees text = true) :
    Ends may scope (Grammar.advance m) b (Took Outline.plain.holds b₀ b) := by
  obtain ⟨t, peeked, spelled⟩ := peek_of_sees seen
  refine (h.advanceWith peeked fun es unmarked => ?_).mono fun m' b' after => after.1
  exact unmarked_append unmarked (Token.not_isMark_of_isWord (Token.isWord_of_spells spelled))

/-- A token that counts as trivia leaves the parts alone. -/
theorem advanceAsTrivia (h : Holds I b₀ m b) (moved : b.remaining < b₀.remaining) (seen : b.peek = some t)
    (unmarked : t.kind.isMark = false) :
    Ends may scope (advanceAsTrivia m) b (Took I b₀ b) := by
  obtain ⟨es, built, holds⟩ := h
  obtain ⟨gap, next⟩ := built.placed.next seen
  have some : es ≠ [] := by
    rintro rfl
    rw [built.eq_start] at moved
    exact Nat.lt_irrefl _ moved
  have less := next.remaining
  refine .look ?_
  rw [next.take]
  exact .goTo (.pure ⟨⟨es, built.tokenAsTrivia some next unmarked, holds⟩, by omega⟩)

theorem advanceTwice (h : Holds o.holds b₀ m b) (ahead : Ahead b) {u : Token} (second : b.peek 1 = some u)
    (plain : Ordinary (.leaf ⟨u, false⟩)) : Ends may scope (advanceTwice m) b (Took o.holds b₀ b) := by
  obtain ⟨t, seen, first⟩ := ahead
  refine .bind (h.advanceWith seen fun es holds => o.ordinary holds first) ?_
  rintro m' b' ⟨⟨built, less⟩, shifted⟩
  have follows : b'.peek = some u := (shifted 0).trans second
  refine (built.advance ⟨u, follows, plain⟩).mono ?_
  rintro m'' b'' ⟨built, less'⟩
  exact ⟨built, by omega⟩

theorem advanceIf {test : Builder → Bool} (h : Holds o.holds b₀ m b) (ahead : test b = true → Ahead b) :
    Ends may scope (advanceIf test m) b (Kept o.holds b₀ b) := by
  refine .look (.ite ?_ ?_)
  · intro tested
    exact (h.advance (ahead tested)).mono fun m' b' after => after.kept
  · intro _
    exact .pure ⟨h, Nat.le_refl _⟩

theorem advanceTwiceIf {test : Builder → Bool} (h : Holds o.holds b₀ m b)
    (ahead : test b = true → Ahead b ∧ ∃ u, b.peek 1 = some u ∧ Ordinary (.leaf ⟨u, false⟩)) :
    Ends may scope (advanceTwiceIf test m) b (Kept o.holds b₀ b) := by
  refine .look (.ite ?_ ?_)
  · intro tested
    obtain ⟨first, u, second, plain⟩ := ahead tested
    exact (h.advanceTwice first second plain).mono fun m' b' after => after.kept
  · intro _
    exact .pure ⟨h, Nat.le_refl _⟩

theorem expectWith (h : Holds I b₀ m b)
    (step : ∀ es t, I es → t.spells text = true → J (es ++ [.leaf ⟨t, false⟩])) :
    Ensures scope (expect m text) b (Took J b₀ b) := by
  refine .look (.ite ?_ fun _ => .reject)
  intro tested
  obtain ⟨t, seen, spelled⟩ := peek_of_sees tested
  exact (h.advanceWith seen fun es holds => step es t holds spelled).mono fun m' b' after => after.1

theorem expect (h : Holds o.holds b₀ m b) (noComma : text ≠ ",") :
    Ensures scope (expect m text) b (Took o.holds b₀ b) :=
  h.expectWith fun _ _ holds spelled => o.ordinary holds (ordinary_of_spells spelled noComma)

theorem expectAny {texts : List String} {what : String} (h : Holds o.holds b₀ m b) (noComma : "," ∉ texts) :
    Ensures scope (expectAny m texts what) b (Took o.holds b₀ b) := by
  refine .look (.ite ?_ fun _ => .reject)
  intro tested
  exact h.advance (ahead_of_seesAny tested noComma)

theorem expectName (h : Holds o.holds b₀ m b) : Ensures scope (expectName m) b (Took o.holds b₀ b) := by
  refine .look (.ite ?_ fun _ => .reject)
  intro tested
  exact h.advance (ahead_of_seesName h.placed tested)

/-- A comment on the line of a node that has a part. -/
theorem bindTrailingComment (h : Holds I b₀ m b) (moved : b.remaining < b₀.remaining) :
    Ends may scope (bindTrailingComment m) b (Kept I b₀ b) := by
  obtain ⟨es, built, holds⟩ := h
  refine .look ?_
  rcases bindTrailingComment_eq b m with same | ⟨run, rest, split, blank, taken⟩
  · rw [same]
    exact .goTo (.pure ⟨⟨es, built, holds⟩, Nat.le_refl _⟩)
  · rw [taken]
    refine .goTo (.pure ⟨⟨es, ?_, holds⟩, Nat.le_refl _⟩)
    have trivia := ofTokens_trivia blank
    refine ⟨built.origin, built.placed.skip split blank, built.tokens, built.significant, ?_,
      Marker.leading_addTrivia m trivia built.leading, ?_, ?_, Marker.addTrivia_sound built.sound trivia, built.spent⟩
    · obtain ⟨used, before, tiles⟩ := built.tiles
      refine ⟨used ++ run, ?_, ?_⟩
      · rw [before, split, left_skip split, List.append_assoc]
      · rw [Marker.leaves_addTrivia]
        exact tiles.append (.ofTokens run)
    · rw [Marker.parts_addTrivia m trivia, built.parts]
    · rintro rfl
      rw [built.eq_start] at moved
      exact absurd moved (Nat.lt_irrefl _)

/-! Adding elements. -/

theorem addWith (h : Holds I b₀ m b) (given : Gives P b p b') (step : ∀ es, I es → J (es ++ [p.element])) :
    Holds J b₀ (m.add p) b' := by
  obtain ⟨es, built, holds⟩ := h
  exact ⟨_, built.add given.built, step es holds⟩

theorem add (h : Holds o.holds b₀ m b) (given : Gives Ordinary b p b') : Holds o.holds b₀ (m.add p) b' :=
  h.addWith given fun _ holds => o.ordinary holds given.holds

theorem took (h : Holds o.holds b₀ m b) (given : Gives Ordinary b p b') : Took o.holds b₀ b (m.add p) b' :=
  ⟨h.add given, given.lt⟩

theorem add? {p : Option Parsed} (h : Holds o.holds b₀ m b) (given : Perhaps Ordinary b p b') :
    Kept o.holds b₀ b (m.add? p) b' := by
  cases p with
  | some p => exact (h.took given).kept
  | none =>
    cases given
    exact ⟨h, Nat.le_refl _⟩

theorem addIf {test : Builder → Bool} {rule : Grammar Parsed} (h : Holds o.holds b₀ m b)
    (each : test b = true → Ends may scope rule b (Gives Ordinary b)) :
    Ends may scope (addIf test rule m) b (Kept o.holds b₀ b) := by
  refine .look (.ite ?_ ?_)
  · intro tested
    refine .bind (each tested) ?_
    intro p b' given
    exact .pure (h.took given).kept
  · intro _
    exact .pure ⟨h, Nat.le_refl _⟩

/-! Loops over a marker. -/

theorem iterate {step : Marker → Grammar (Turn Marker)} (h : Holds I b₀ m b)
    (each : ∀ m' b', Holds I b₀ m' b' → b'.remaining ≤ b.remaining →
      Ends may scope (step m') b' (Turning (Took I b₀ b') (Kept I b₀ b'))) :
    Ends may scope (iterate step m) b (Kept I b₀ b) := by
  refine .iterate (Kept I b₀ b) ?_ ⟨h, Nat.le_refl _⟩
  rintro m' b' ⟨holds, le⟩
  refine (each m' b' holds le).mono ?_
  rintro (m'' | m'') b'' ⟨holds', less⟩
  · exact ⟨⟨holds', by omega⟩, less⟩
  · exact ⟨holds', by omega⟩

theorem iterateWhile {test : Builder → Bool} {step : Marker → Grammar Marker} (h : Holds I b₀ m b)
    (each : ∀ m' b', Holds I b₀ m' b' → b'.remaining ≤ b.remaining → test b' = true →
      Ends may scope (step m') b' (Took I b₀ b')) :
    Ends may scope (iterateWhile test step m) b fun m' b' => Kept I b₀ b m' b' ∧ test b' = false := by
  refine .iterateWhile (Kept I b₀ b) ?_ ⟨h, Nat.le_refl _⟩
  rintro m' b' ⟨holds, le⟩ tested
  refine (each m' b' holds le tested).mono ?_
  rintro m'' b'' ⟨holds', less⟩
  exact ⟨⟨holds', by omega⟩, less⟩

/-! Finishing nodes. -/

/-- A finished node, with the builder where it was. -/
theorem doneHere (h : Holds I b₀ m b) (moved : b.remaining < b₀.remaining) {role : Option String}
    (fits : ∀ es, I es → Fits kind es) (goal : ∀ children, P (.node kind role children)) :
    Ends may scope (done m kind role) b fun p b' => Gives P b₀ p b' ∧ b' = b := by
  obtain ⟨es, built, holds⟩ := h
  have some : es ≠ [] := by
    rintro rfl
    rw [built.eq_start] at moved
    exact Nat.lt_irrefl _ moved
  have filled : m.children.isEmpty = false := by
    cases empty : m.children.isEmpty with
    | false => rfl
    | true =>
      have none : m.parts = [] := by simp [Marker.parts, Array.isEmpty_iff.mp empty, RawElement.significant]
      rw [built.parts] at none
      exact absurd none some
  simp only [Grammar.done, Marker.done, filled]
  exact .pure ⟨⟨built.node role some (fits es holds), goal _⟩, rfl⟩

theorem done (h : Holds I b₀ m b) (moved : b.remaining < b₀.remaining) {role : Option String}
    (fits : ∀ es, I es → Fits kind es) (goal : ∀ children, P (.node kind role children)) :
    Ends may scope (done m kind role) b (Gives P b₀) :=
  (h.doneHere moved fits goal).mono fun _ _ given => given.1

/-- A finished node that took a token behind some place on the way. -/
theorem grown {c : Builder} (h : Holds I b₀ m b) (moved : b.remaining < b₀.remaining)
    (onward : b.remaining < c.remaining) (fits : ∀ es, I es → Fits kind es) (goal : kind.isItem = false) :
    Ends may scope (Grammar.done m kind) b (Grown b₀ c) := by
  refine (h.doneHere (P := Ordinary) moved fits fun _ => ?_).mono ?_
  · simp [Ordinary, isOrdinary, goal]
  · rintro p b' ⟨given, rfl⟩
    exact ⟨given, onward⟩

/-- A node, or nothing if no token was taken. -/
theorem doneUnlessEmpty (h : Holds I b₀ m b) (fits : ∀ es, I es → Fits kind es)
    (goal : ∀ children, P (.node kind none children)) :
    Ends may scope (doneUnlessEmpty m kind) b (Perhaps P b₀) := by
  obtain ⟨es, built, holds⟩ := h
  refine .ite ?_ ?_
  · intro empty
    have none : m.parts = [] := by simp [Marker.parts, Array.isEmpty_iff.mp empty, RawElement.significant]
    rw [built.parts] at none
    subst none
    exact .pure built.eq_start
  · intro filled
    have some : es ≠ [] := by
      rintro rfl
      rw [built.bare rfl] at filled
      exact filled rfl
    have finished : Ends may scope (Grammar.done m kind) b (Gives P b₀) :=
      Holds.done ⟨es, built, holds⟩ (built.lt some) fits goal
    exact .map finished

theorem donePlain (h : Holds Outline.plain.holds b₀ m b) (moved : b.remaining < b₀.remaining)
    {role : Option String} (plain : kind.isPlain = true) (goal : ∀ children, P (.node kind role children)) :
    Ends may scope (Grammar.done m kind role) b (Gives P b₀) :=
  h.done moved (fun _ unmarked => fits_of_isPlain plain unmarked) goal

end Holds

/-- The next token as an element of its own. -/
theorem token_gives (placed : b.Placed) (seen : b.peek = some t) (holds : P (.leaf ⟨t, false⟩)) :
    Ends may scope token b (Gives P b) := by
  obtain ⟨gap, next⟩ := placed.next seen
  have built := (Built.start placed).token next
  refine .look ?_
  rw [next.take]
  exact .goTo (.pure ⟨built, holds⟩)

/-! Operators that are read in pieces. -/

theorem pieces_cases (op : String) :
    pieces op = [op] ∨ ∃ first second, pieces op = [first, second] ∧ op = first ++ second := by
  unfold pieces
  split
  · rename_i is
    exact .inr ⟨"?", ".", rfl, by simpa using is⟩
  · split
    · rename_i is
      exact .inr ⟨"?", ":", rfl, by simpa using is⟩
    · split
      · rename_i is
        exact .inr ⟨">", "=", rfl, by simpa using is⟩
      · split
        · rename_i is
          exact .inr ⟨"as", "?", rfl, by simpa using is⟩
        · exact .inl rfl

/-- An operator stands on one token, or on two that touch. -/
theorem operatorCount_cases {op : String} (h : 0 < b.operatorCount op) :
    (b.operatorCount op = 1 ∧ b.sees op = true) ∨
      ∃ first second, b.operatorCount op = 2 ∧ op = first ++ second ∧ b.sees first = true ∧
        b.sees second 1 = true ∧ b.adjacent 1 = true := by
  unfold Builder.operatorCount at h ⊢
  simp only at h ⊢
  split at h
  · rename_i stands
    rw [if_pos stands]
    rcases pieces_cases op with one | ⟨first, second, two, joined⟩
    · rw [one] at stands ⊢
      simp at stands
      exact .inl ⟨rfl, stands⟩
    · rw [two] at stands ⊢
      simp at stands
      exact .inr ⟨first, second, rfl, joined, stands⟩
  · omega

theorem operatorsCount_mem {ops : List String} (h : 0 < b.operatorsCount ops) :
    ∃ op ∈ ops, b.operatorsCount ops = b.operatorCount op := by
  unfold Builder.operatorsCount at h ⊢
  cases found : (ops.map b.operatorCount).find? (0 < ·) with
  | none => simp [found] at h
  | some count =>
    obtain ⟨op, member, same⟩ := List.mem_map.mp (List.mem_of_find?_eq_some found)
    exact ⟨op, member, by rw [same]; rfl⟩

/-- The gap between two tokens is the trivia that the second one takes along. -/
theorem gap_eq {u : Token} {gap gap' : List Token} (first : Placed.Next b t gap)
    (second : Placed.Next (b.behind 1 (b.pos + gap.length)) u gap') : b.gap 1 = gap' := by
  have start : b.index? (1 - 1) = some (b.pos + gap.length) := first.index
  have stop : b.index? 1 = some (b.pos + gap.length + 1 + gap'.length) := by
    have index := second.index
    rw [behind_index?] at index
    exact index
  have cut := extract_left (b.behind 1 (b.pos + gap.length)) 0 gap'.length
  rw [second.split] at cut
  simp only [Builder.gap, start, stop, Option.map_some, Option.getD_some]
  simpa [behind] using cut

/-- Two words with no trivia between them. -/
theorem next_two {first second : String} (placed : b.Placed) (seen : b.sees first = true)
    (seen' : b.sees second 1 = true) (touch : b.adjacent 1 = true) : ∃ t u gap, Placed.Next b t gap ∧
      Placed.Next (b.behind 1 (b.pos + gap.length)) u [] ∧ t.spells first = true ∧ u.spells second = true := by
  obtain ⟨t, peeked, spelled⟩ := peek_of_sees seen
  obtain ⟨u, peeked', spelled'⟩ := peek_of_sees seen'
  obtain ⟨gap, next⟩ := placed.next peeked
  obtain ⟨gap', next'⟩ := next.placed.next ((behind_peek b _ 0).trans peeked')
  have close : gap' = [] := by
    rw [Builder.adjacent, gap_eq next next'] at touch
    simpa using touch
  subst close
  exact ⟨t, u, gap, next, next', spelled, spelled'⟩

namespace Holds

/-- An operator becomes one part, also where it stands on two tokens. -/
theorem advanceGlued {ops : List String} (h : Holds o.holds b₀ m b) (stands : 0 < b.operatorsCount ops)
    (noComma : "," ∉ ops) : Ends may scope (advanceGlued m (b.operatorsCount ops)) b (Took o.holds b₀ b) := by
  obtain ⟨op, member, count⟩ := operatorsCount_mem stands
  have other : op ≠ "," := by
    rintro rfl
    exact noComma member
  rw [count] at stands ⊢
  rcases operatorCount_cases stands with ⟨one, seen⟩ | ⟨first, second, two, joined, seen, seen', touch⟩
  · rw [one]
    exact h.advance (ahead_of_sees seen other)
  · rw [two]
    obtain ⟨es, built, holds⟩ := h
    obtain ⟨t, u, gap, next, next', spelled, spelled'⟩ := next_two built.placed seen seen' touch
    have text : t.text ++ u.text = op := by
      rw [Token.text_of_spells spelled, Token.text_of_spells spelled', joined]
    have less := next.remaining
    have less' : (b.behind 2 (b.pos + gap.length + 1)).remaining + 1 =
      (b.behind 1 (b.pos + gap.length)).remaining := next'.remaining
    have glued := built.glued next next' (Token.isWord_of_spells spelled) (Token.isWord_of_spells spelled') _ rfl
    refine .look ?_
    rw [next.take_two next']
    refine .goTo (.pure ⟨⟨_, glued, o.ordinary holds ?_⟩, by omega⟩)
    simp [isOrdinary, TokenKind.isMark, text, other]

end Holds

/-! Lists with commas. `J` holds where an item may come, `L` where the list may end. -/

theorem Holds.commaTurn {item : Grammar Parsed} {close : String} (h : Holds J b₀ m b)
    (each : Ends may scope item b (Gives P b)) (list : ∀ es, J es → L es)
    (append : ∀ es e, J es → P e → L (es ++ [e]))
    (comma : ∀ es e t, J es → P e → t.spells "," = true → J (es ++ [e] ++ [.leaf ⟨t, false⟩])) :
    Ends may scope (commaTurn close item m) b (Turning (Took J b₀ b)
      (fun m' b' => Holds L b₀ m' b' ∧ (b' = b ∧ b.sees close = true ∨ b'.remaining < b.remaining))) := by
  refine .look (.ite ?_ ?_)
  · intro closed
    exact .pure ⟨h.mono list, .inl ⟨rfl, closed⟩⟩
  · intro _
    refine .bind each ?_
    intro p b' given
    have less := given.lt
    refine .look (.ite ?_ ?_)
    · intro seen
      obtain ⟨t, peeked, spelled⟩ := peek_of_sees seen
      have added := h.addWith (J := fun es => ∃ es', es = es' ++ [p.element] ∧ J es') given
        fun es holds => ⟨es, rfl, holds⟩
      refine .bind (added.advanceWith (J := J) peeked ?_) ?_
      · rintro _ ⟨es, rfl, holds⟩
        exact comma es p.element t holds given.holds spelled
      · rintro m' b'' ⟨⟨holds, less'⟩, _⟩
        exact .pure ⟨holds, by omega⟩
    · intro _
      exact .pure ⟨h.addWith given fun es holds => append es p.element holds given.holds, .inr less⟩

theorem Holds.commaListWith {item : Grammar Parsed} {close : String} (h : Holds J b₀ m b)
    (each : ∀ b', b'.Placed → b'.remaining ≤ b.remaining → Ends may scope item b' (Gives P b'))
    (list : ∀ es, J es → L es) (append : ∀ es e, J es → P e → L (es ++ [e]))
    (comma : ∀ es e t, J es → P e → t.spells "," = true → J (es ++ [e] ++ [.leaf ⟨t, false⟩])) :
    Ends may scope (commaList m close item) b fun m' b' =>
      Kept L b₀ b m' b' ∧ (b.sees close = false → b'.remaining < b.remaining) := by
  refine .iterate (fun m' b' => Holds J b₀ m' b' ∧ (b' = b ∨ b'.remaining < b.remaining)) ?_ ⟨h, .inl rfl⟩
  rintro m' b' ⟨holds, place⟩
  have le : b'.remaining ≤ b.remaining := by
    rcases place with rfl | less
    · exact Nat.le_refl _
    · exact Nat.le_of_lt less
  refine (holds.commaTurn (each b' holds.placed le) list append comma).mono ?_
  rintro (m'' | m'') b'' after
  · obtain ⟨holds', less⟩ := after
    exact ⟨⟨holds', .inr (by omega)⟩, less⟩
  · obtain ⟨holds', ⟨rfl, closed⟩ | less⟩ := after
    · refine ⟨⟨holds', le⟩, ?_⟩
      intro notClosed
      rcases place with rfl | less
      · rw [closed] at notClosed
        cases notClosed
      · exact less
    · exact ⟨⟨holds', by omega⟩, fun _ => by omega⟩

def Open (kind : RawKind) (es : List RawElement) : Prop :=
  (∀ e ∈ es, e.isMark = false) ∧ Spaced (isOf kind) es ∧ ∀ x ∈ es.getLast?, x.isOf kind = false

theorem Open.list {item : kind.isItem = true} (h : Open kind es) : (Outline.list kind item).holds es :=
  ⟨h.1, h.2.1⟩

theorem Open.append (h : Open kind es) {e : RawElement} (is : e.isOf kind = true) (item : kind.isItem = true) :
    (Outline.list kind item).holds (es ++ [e]) := by
  cases e with
  | leaf => cases is
  | node k role children =>
    refine ⟨unmarked_append h.1 rfl, chain_append h.2.1 ?_⟩
    intro x last
    have other : x.isOf kind = false := by
      cases es with
      | nil =>
        cases last
        rfl
      | cons y ys => exact h.2.2 x (by simpa using last)
    refine ⟨nofun, ?_⟩
    intro first
    rw [other] at first
    cases first

/-- A word in front of a list, and a comma behind an item, open the list. -/
theorem Open.word {item : kind.isItem = true} (h : (Outline.list kind item).holds es) (word : t.isWord = true)
    (fits : t.text = "," → ∀ x ∈ (listStart :: es).getLast?, x.isOf kind = true) :
    Open kind (es ++ [.leaf ⟨t, false⟩]) := by
  refine ⟨unmarked_append h.1 (Token.not_isMark_of_isWord word), chain_append h.2 ?_, by simp [isOf]⟩
  intro x last
  exact ⟨fun comma => fits (by simpa [spells] using comma) x last, fun _ => rfl⟩

theorem Open.nil : Open kind [] := ⟨by simp, List.isChain_singleton _, by simp⟩

/-- A word other than a comma opens a list. -/
theorem Holds.expectOpening {isItem : kind.isItem = true} (h : Holds (Outline.list kind isItem).holds b₀ m b)
    (noComma : text ≠ ",") : Ensures scope (Grammar.expect m text) b (Took (Open kind) b₀ b) := by
  refine h.expectWith ?_
  intro es t holds spelled
  refine Open.word holds (Token.isWord_of_spells spelled) ?_
  intro comma
  exact absurd ((Token.text_of_spells spelled).symm.trans comma) noComma

theorem Holds.advanceOpening {isItem : kind.isItem = true} (h : Holds (Outline.list kind isItem).holds b₀ m b)
    (seen : b.sees text = true) (noComma : text ≠ ",") :
    Ends may scope (Grammar.advance m) b (Took (Open kind) b₀ b) := by
  obtain ⟨t, peeked, spelled⟩ := peek_of_sees seen
  refine (h.advanceWith peeked ?_).mono fun _ _ after => after.1
  intro es holds
  refine Open.word holds (Token.isWord_of_spells spelled) ?_
  intro comma
  exact absurd ((Token.text_of_spells spelled).symm.trans comma) noComma

/-- The items of the kind with commas between them. -/
theorem Holds.commaList {item : Grammar Parsed} {close : String} (isItem : kind.isItem = true)
    (h : Holds (Open kind) b₀ m b)
    (each : ∀ b', b'.Placed → b'.remaining ≤ b.remaining →
      Ends may scope item b' (Gives (fun e => e.isOf kind = true) b')) :
    Ends may scope (commaList m close item) b fun m' b' =>
      Kept (Outline.list kind isItem).holds b₀ b m' b' ∧ (b.sees close = false → b'.remaining < b.remaining) := by
  refine h.commaListWith each (fun es opened => opened.list) (fun es e opened is => opened.append is isItem) ?_
  intro es e t opened is spelled
  refine Open.word (opened.append is isItem) (Token.isWord_of_spells spelled) ?_
  intro _ x last
  have same : x = e := by
    rw [← List.cons_append, List.getLast?_concat] at last
    exact (Option.some.inj last).symm
  rw [same]
  exact is

/-- A list between two words. -/
theorem bracketed_gives {item : RawKind} {opening closing : String} {rule : Grammar Parsed}
    (lists : kind.item? = some item) (isItem : item.isItem = true) (framed : ∀ es, Framed kind es)
    (noComma : opening ≠ "," ∧ closing ≠ ",") (goal : kind.isItem = false) (placed : b.Placed)
    (each : ∀ b', b'.Placed → b'.remaining < b.remaining →
      Ensures scope rule b' (Gives (fun e => e.isOf item = true) b')) :
    Ensures scope (bracketed kind opening closing rule) b (Gives Ordinary b) := by
  have start : Holds (Outline.list item isItem).holds b .empty b := .start placed Open.nil.list
  refine .bind (start.expectOpening noComma.1) ?_
  rintro m b₁ ⟨holds, less⟩
  refine .bind (holds.commaList isItem fun b' placed le => each b' placed (by omega)) ?_
  rintro m b₂ ⟨⟨holds, le⟩, _⟩
  refine .bind (holds.expect noComma.2) ?_
  rintro m b₃ ⟨holds, less'⟩
  refine holds.done (by omega) (fun es listed => fits_of_item lists (framed es) listed.1 listed.2) ?_
  simp [Ordinary, isOrdinary, goal]

/-! Recovery. -/

/-- Skipping begins with a token, whatever it is, and goes on to the boundary. -/
theorem skipTurn_ensures (state : Marker × Nat) (h : Holds (fun es => es = [] → b.atEnd = false) b₀ state.1 b) :
    Ends may scope (skipTurn state) b (Turning
      (fun state b' => Holds (fun es => es = [] → b'.atEnd = false) b₀ state.1 b' ∧ b'.remaining < b.remaining)
      (fun state b' => Holds (· ≠ []) b₀ state.1 b')) := by
  obtain ⟨m, depth⟩ := state
  refine .look (.ite ?_ ?_)
  · intro stops
    obtain ⟨es, built, more⟩ := h
    refine .pure ⟨es, built, ?_⟩
    rintro rfl
    have bare : m = .empty := built.bare rfl
    rw [bare, more rfl] at stops
    simp [Marker.empty] at stops
  · intro goesOn
    have more : b.atEnd = false := by
      simp only [Bool.or_eq_true, not_or, Bool.not_eq_true] at goesOn
      exact goesOn.1
    obtain ⟨t, seen⟩ := peek_of_not_atEnd more
    refine .bind (h.advanceWith (J := (· ≠ [])) seen fun es _ => by simp) ?_
    rintro m' b' ⟨⟨holds, less⟩, _⟩
    exact .pure ⟨holds.mono fun es some none => absurd none some, less⟩

theorem skipToBoundary_gives (placed : b.Placed) (more : b.atEnd = false) :
    Ends may scope skipToBoundary b fun p b' => ∃ q, p = some q ∧ Gives Ordinary b q b' := by
  refine .bind (.iterate (fun state b' => Holds (fun es => es = [] → b'.atEnd = false) b state.1 b')
    (fun state b' holds => skipTurn_ensures state holds) (.start placed fun _ => more)) ?_
  rintro ⟨m, depth⟩ b' ⟨es, built, some⟩
  have holds : Holds (fun _ => True) b m b' := ⟨es, built, trivial⟩
  refine .ite ?_ ?_
  · intro empty
    have none : m.parts = [] := by simp [Marker.parts, Array.isEmpty_iff.mp empty, RawElement.significant]
    rw [built.parts] at none
    exact absurd none some
  · intro _
    have finished : Ends may scope (done m .errorElement) b' (Gives Ordinary b) :=
      holds.done (built.lt some) (fun _ _ => trivial) (fun _ => rfl)
    exact .map (finished.mono fun q b'' given => ⟨q, rfl, given⟩)

/-- Either way recovery adds an element. -/
theorem Holds.recovering {rule : Grammar Parsed} (h : Holds o.holds b₀ m b) (more : b.atEnd = false)
    (each : Ensures scope rule b (Gives Ordinary b)) :
    Ends may scope (recovering m rule) b (Took o.holds b₀ b) := by
  refine .recovering each (fun p b' given => h.took given) ?_
  refine (skipToBoundary_gives h.placed more).mono ?_
  rintro _ b' ⟨q, rfl, given⟩
  exact h.took given

end KotlinSyntax.Grammar
