import KotlinSyntax.Proofs.Builder

/-! A builder in use. Whoever holds a builder may ask it for anything in any order, go on after an error and go back
to snapshots. The two counters never part: the next token that no node holds lies between the significant token
that was taken last and the one that is taken next. -/
namespace KotlinSyntax

def significantPlaces (tokens : List Token) : List Nat := indicesFrom 0 tokens

theorem mem_indicesFrom {n i : Nat} {ts : List Token} :
    i ∈ indicesFrom n ts ↔ ∃ k t, i = n + k ∧ ts[k]? = some t ∧ t.kind.isTrivia = false := by
  induction ts generalizing n with
  | nil => simp [indicesFrom]
  | cons u us ih =>
    have shift : (∃ k t, i = n + k ∧ (u :: us)[k]? = some t ∧ t.kind.isTrivia = false) ↔
        (i = n ∧ u.kind.isTrivia = false) ∨ ∃ k t, i = n + 1 + k ∧ us[k]? = some t ∧ t.kind.isTrivia = false := by
      constructor
      · rintro ⟨k, t, place, found, part⟩
        cases k with
        | zero =>
          cases found
          exact .inl ⟨place, part⟩
        | succ k => exact .inr ⟨k, t, by omega, found, part⟩
      · rintro (⟨place, part⟩ | ⟨k, t, place, found, part⟩)
        · exact ⟨0, u, place, rfl, part⟩
        · exact ⟨k + 1, t, by omega, found, part⟩
    rw [shift, indicesFrom]
    cases trivia : u.kind.isTrivia with
    | true => simpa using ih
    | false => simpa using or_congr Iff.rfl ih

theorem indicesFrom_sorted (n : Nat) (ts : List Token) : (indicesFrom n ts).Pairwise (· < ·) := by
  induction ts generalizing n with
  | nil => exact .nil
  | cons t ts ih =>
    rw [indicesFrom]
    split
    · exact ih (n + 1)
    · refine .cons ?_ (ih (n + 1))
      intro i member
      obtain ⟨k, _, place, -⟩ := mem_indicesFrom.mp member
      omega

variable {tokens : List Token} {i j x y : Nat} {t : Token}

theorem mem_significantPlaces :
    i ∈ significantPlaces tokens ↔ ∃ t, tokens[i]? = some t ∧ t.kind.isTrivia = false := by
  rw [significantPlaces, mem_indicesFrom]
  simp

theorem significantPlaces_lt (first : (significantPlaces tokens)[i]? = some x)
    (second : (significantPlaces tokens)[j]? = some y) (less : i < j) : x < y := by
  obtain ⟨inside, rfl⟩ := List.getElem?_eq_some_iff.mp first
  obtain ⟨inside', rfl⟩ := List.getElem?_eq_some_iff.mp second
  exact List.pairwise_iff_getElem.mp (indicesFrom_sorted 0 tokens) i j inside inside' less

theorem significantPlaces_le (first : (significantPlaces tokens)[i]? = some x)
    (second : (significantPlaces tokens)[j]? = some y) (le : i ≤ j) : x ≤ y := by
  rcases Nat.lt_or_eq_of_le le with less | rfl
  · exact Nat.le_of_lt (significantPlaces_lt first second less)
  · rw [first] at second
    exact Nat.le_of_eq (Option.some.inj second)

theorem lt_length_of_significant (found : (significantPlaces tokens)[i]? = some x) : x < tokens.length := by
  obtain ⟨t, there, -⟩ := mem_significantPlaces.mp (List.mem_of_getElem? found)
  exact (List.getElem?_eq_some_iff.mp there).1

/-- Where the significant token stands that comes behind so many others, or else the tokens end. -/
def placeOf (tokens : List Token) (cursor : Nat) : Nat := ((significantPlaces tokens)[cursor]?).getD tokens.length

/-- The first token that no node holds stands behind the significant token that was taken last, and not behind the
next one. -/
structure Between (tokens : List Token) (cursor pos : Nat) : Prop where
  counted : cursor ≤ (significantPlaces tokens).length
  behind : ∀ last, 0 < cursor → (significantPlaces tokens)[cursor - 1]? = some last → last < pos
  before : pos ≤ placeOf tokens cursor

namespace Between

variable {cursor pos : Nat}

theorem start (tokens : List Token) : Between tokens 0 0 where
  counted := Nat.zero_le _
  behind _ more := absurd more (Nat.lt_irrefl 0)
  before := Nat.zero_le _

/-- All that is left in front of the next significant token is trivia. -/
theorem blank (h : Between tokens cursor pos) (reach : pos ≤ i) (below : i < placeOf tokens cursor)
    (there : tokens[i]? = some t) : t.kind.isTrivia = true := by
  cases part : t.kind.isTrivia with
  | true => rfl
  | false =>
    exfalso
    obtain ⟨k, found⟩ := List.getElem?_of_mem (mem_significantPlaces.mpr ⟨t, there, part⟩)
    rcases Nat.lt_or_ge k cursor with taken | ahead
    · have counted := h.counted
      have last := List.getElem?_eq_getElem (l := significantPlaces tokens) (i := cursor - 1) (by omega)
      have passed := h.behind _ (by omega) last
      have order := significantPlaces_le found last (by omega)
      omega
    · have inside := (List.getElem?_eq_some_iff.mp found).1
      have next := List.getElem?_eq_getElem (l := significantPlaces tokens) (i := cursor) (by omega)
      have order := significantPlaces_le next found ahead
      rw [placeOf, next] at below
      exact absurd below (Nat.not_lt.mpr order)

/-- Behind a significant token the counters stand right behind it. -/
theorem behindToken {last : Nat} (found : (significantPlaces tokens)[cursor]? = some last) :
    Between tokens (cursor + 1) (last + 1) where
  counted := (List.getElem?_eq_some_iff.mp found).1
  behind place _ there := by
    rw [Nat.add_sub_cancel, found] at there
    cases there
    exact Nat.lt_succ_self last
  before := by
    unfold placeOf
    cases next : (significantPlaces tokens)[cursor + 1]? with
    | none => exact lt_length_of_significant found
    | some place => exact significantPlaces_lt found next (Nat.lt_succ_self cursor)

/-- A token of trivia may be passed over. -/
theorem pass (h : Between tokens cursor pos) (there : tokens[pos]? = some t) (trivia : t.kind.isTrivia = true) :
    Between tokens cursor (pos + 1) where
  counted := h.counted
  behind last more found := Nat.lt_succ_of_lt (h.behind last more found)
  before := by
    have bound := h.before
    have other : pos ≠ placeOf tokens cursor := by
      intro same
      rw [placeOf] at same
      cases next : (significantPlaces tokens)[cursor]? with
      | none =>
        rw [next] at same
        have inside := (List.getElem?_eq_some_iff.mp there).1
        exact absurd same (Nat.ne_of_lt inside)
      | some place =>
        rw [next] at same
        obtain ⟨u, at_, part⟩ := mem_significantPlaces.mp (List.mem_of_getElem? next)
        obtain rfl : pos = place := same
        rw [there] at at_
        cases at_
        rw [trivia] at part
        cases part
    omega

/-- So may several. -/
theorem passAll (h : Between tokens cursor pos) {run rest : List Token} (split : tokens.drop pos = run ++ rest)
    (trivia : ∀ t ∈ run, t.kind.isTrivia = true) : Between tokens cursor (pos + run.length) := by
  induction run generalizing pos with
  | nil => exact h
  | cons t run ih =>
    have there : tokens[pos]? = some t := by
      rw [← List.head?_drop, split]
      rfl
    have behind : tokens.drop (pos + 1) = run ++ rest := by
      rw [← List.tail_drop, split]
      rfl
    have passed := ih (h.pass there (trivia t (List.mem_cons_self ..))) behind fun u member =>
      trivia u (List.mem_cons_of_mem t member)
    rwa [Nat.add_assoc, Nat.add_comm 1] at passed

end Between

/-- Tokens that are there can be taken as one. -/
theorem Token.joined_of_ne_nil {parts : List Token} (some : parts ≠ []) (alone : Prop) [Decidable alone] :
    ∃ token, (if alone then parts.head? else Token.glue? parts) = .some token := by
  obtain ⟨first, rest, rfl⟩ := List.exists_cons_of_ne_nil some
  split
  · exact ⟨first, rfl⟩
  · exact ⟨_, by rw [Token.glue?, List.getLast?_cons]; rfl⟩

namespace Builder

/-- The builder works on the tokens, and its counters have not parted. -/
structure Steady (tokens : List Token) (b : Builder) : Prop where
  source : b.tokens.toList = tokens
  places : b.significant.toList = significantPlaces tokens
  between : Between tokens b.cursor b.pos

namespace Steady

variable {b : Builder}

theorem ofTokens (tokens : List Token) : (Builder.ofTokens tokens).Steady tokens where
  source := by simp [Builder.ofTokens]
  places := by
    rw [significantPlaces, ← zipIdx_indices]
    rfl
  between := .start tokens

/-- The counters move and nothing else does. -/
theorem move {cursor pos : Nat} (h : b.Steady tokens) (between : Between tokens cursor pos) :
    ({ b with cursor := cursor, pos := pos } : Builder).Steady tokens where
  source := h.source
  places := h.places
  between := between

theorem index? (h : b.Steady tokens) (n : Nat) : b.index? n = (significantPlaces tokens)[b.cursor + n]? := by
  rw [index?_nat, h.places, List.getElem?_drop]

/-- Taking tokens ends behind the last of them, or there are too few of them and nothing has changed. -/
theorem take_cases (h : b.Steady tokens) (m : Marker) (n : Nat) (trivia : Bool) :
    b.take m (n + 1) trivia = (b, m, .error .pastEnd) ∨ ∃ last m' leaf,
      (significantPlaces tokens)[b.cursor + n]? = some last ∧
        b.take m (n + 1) trivia = (b.behind (n + 1) last, m', .ok leaf) := by
  have start := h.index? 0
  have stop : b.index? ((n + 1 : Nat) - 1) = (significantPlaces tokens)[b.cursor + n]? := by
    rw [Int.natCast_add, Int.natCast_one, Int.add_sub_cancel]
    exact h.index? n
  cases found : (significantPlaces tokens)[b.cursor + n]? with
  | none =>
    left
    rw [found] at stop
    rw [Builder.take, stop]
    split
    · rename_i none
      cases none
    · rfl
  | some last =>
    have inside : last < b.tokens.size := by
      rw [← Array.length_toList, h.source]
      exact lt_length_of_significant found
    have enough := (List.getElem?_eq_some_iff.mp found).1
    have next := List.getElem?_eq_getElem (l := significantPlaces tokens) (i := b.cursor) (by omega)
    have order := significantPlaces_le next found (Nat.le_add_right ..)
    rw [found] at stop
    rw [Nat.add_zero, next] at start
    generalize (significantPlaces tokens)[b.cursor] = first at start order
    have some : (b.tokens.extract first (last + 1)).toList ≠ [] := by
      intro none
      have length := congrArg List.length none
      rw [Array.length_toList, Array.size_extract] at length
      simp at length
      omega
    obtain ⟨token, joined⟩ := Token.joined_of_ne_nil some (n + 1 = 1)
    refine .inr ⟨last, (b.takeTrivia m first).2.push (.leaf ⟨token, trivia⟩), ⟨token, trivia⟩, rfl, ?_⟩
    simp only [Builder.take, Int.natCast_zero ▸ start, stop, Builder.takeTrivia, joined]
    rfl

/-- A comment that ends the line is trivia, and so is the blank in front of it. -/
theorem bindTrailingComment (h : b.Steady tokens) (m : Marker) : (b.bindTrailingComment m).1.Steady tokens := by
  rcases bindTrailingComment_eq b m with same | ⟨run, rest, split, trivia, taken⟩
  · rw [same]
    exact h
  · rw [taken]
    have whole : tokens.drop b.pos = run ++ rest := by
      rw [← split, left, h.source]
    exact h.move (h.between.passAll whole trivia)

end Steady

/-! Operations. -/

/-- What a builder may be asked for before the root is finished, with the markers and elements that are handed to it. -/
inductive Operation
  | peek (n : Int)
  | atEnd
  | offset
  | newlineBefore (n : Int)
  | semicolonBefore (n : Int)
  | separatedBefore (n : Int)
  | adjacent (n : Int)
  | mark
  | advance (m : Marker)
  | advanceGlued (m : Marker) (count : Nat)
  | advanceAsTrivia (m : Marker)
  | token
  | add (m : Marker) (p : Parsed)
  | absorb (m other : Marker)
  | double (m : Marker)
  | precede (p : Parsed)
  | done (m : Marker) (kind : RawKind) (role : Option String)
  | withRole (p : Parsed) (role : String)
  | bindTrailingComment (m : Marker)
  | snapshot
  | restore (s : Snapshot)

inductive Reply
  | nothing
  | token (t : Option Token)
  | flag (holds : Bool)
  | offset (n : Nat)
  | marker (m : Marker)
  | taken (m : Marker) (l : Leaf)
  | parsed (p : Parsed)
  | snapshot (s : Snapshot)

def Operation.run (b : Builder) : Operation → Builder × Except BuilderError Reply
  | peek n => (b, .ok (.token (b.peek n)))
  | atEnd => (b, .ok (.flag b.atEnd))
  | offset => (b, .ok (.offset b.offset))
  | newlineBefore n => (b, .ok (.flag (b.newlineBefore n)))
  | semicolonBefore n => (b, .ok (.flag (b.semicolonBefore n)))
  | separatedBefore n => (b, .ok (.flag (b.separatedBefore n)))
  | adjacent n => (b, .ok (.flag (b.adjacent n)))
  | mark => (b, .ok (.marker .empty))
  | advance m => taking (b.take m 1 false) .taken
  | advanceGlued m count => taking (b.take m count false) .taken
  | advanceAsTrivia m => taking (b.take m 1 true) .taken
  | token => taking (b.take .empty 1 false) fun m l => .parsed ⟨m.leading, .leaf l⟩
  | add m p => (b, .ok (.marker (m.add p)))
  | absorb m other => (b, .ok (.marker (m.absorb other)))
  | double m => (b, .ok (.marker m.double))
  | precede p => (b, .ok (.marker (.ofParsed p)))
  | done m kind role => (b, (m.done kind role).map .parsed)
  | withRole p role => (b, .ok (.parsed (p.withRole role)))
  | bindTrailingComment m => ((b.bindTrailingComment m).1, .ok (.marker (b.bindTrailingComment m).2))
  | snapshot => (b, .ok (.snapshot b.snapshot))
  | restore s => (b.restore s, .ok .nothing)
where
  taking (answer : Builder × Marker × Except BuilderError Leaf) (reply : Marker → Leaf → Reply) :
      Builder × Except BuilderError Reply :=
    (answer.1, answer.2.2.map (reply answer.2.1))

/-- At least one token is glued, and only what was a state of this builder is restored. -/
def Operation.Allowed (snapshots : List Snapshot) : Operation → Prop
  | advanceGlued _ count => 1 ≤ count
  | restore s => s ∈ snapshots
  | _ => True

/-- A builder in use, with the snapshots that were taken of it. -/
structure Session where
  builder : Builder
  snapshots : List Snapshot

namespace Session

def start (tokens : List Token) : Session := ⟨.ofTokens tokens, []⟩

/-- One operation. Whether it throws or not, the session goes on. -/
def step (s : Session) (op : Operation) : Session where
  builder := (op.run s.builder).1
  snapshots := match op with
    | .snapshot => s.builder.snapshot :: s.snapshots
    | _ => s.snapshots

def run (s : Session) (ops : List Operation) : Session := ops.foldl step s

def Allows : Session → List Operation → Prop
  | _, [] => True
  | s, op :: ops => op.Allowed s.snapshots ∧ (s.step op).Allows ops

/-- The builder is steady, and would be if any of the snapshots were restored. -/
structure Steady (tokens : List Token) (s : Session) : Prop where
  builder : s.builder.Steady tokens
  snapshots : ∀ old ∈ s.snapshots, Between tokens old.cursor old.pos

end Session

variable {α : Type} {b : Builder}

/-- A builder behind something that was asked of it, which threw only if nothing has changed. -/
def Safe (tokens : List Token) (b : Builder) (answer : Builder × Except BuilderError α) : Prop :=
  answer.1.Steady tokens ∧ ∀ e, answer.2 = .error e → answer.1 = b

theorem Safe.stays (h : b.Steady tokens) (reply : Except BuilderError α) : Safe tokens b (b, reply) :=
  ⟨h, fun _ _ => rfl⟩

theorem Safe.fine {b' : Builder} (h : b'.Steady tokens) (reply : α) : Safe tokens b (b', .ok reply) := by
  refine ⟨h, ?_⟩
  intro e thrown
  cases thrown

theorem Steady.taking (h : b.Steady tokens) (m : Marker) {count : Nat} (some : 1 ≤ count) (trivia : Bool)
    (reply : Marker → Leaf → Reply) : Safe tokens b (Operation.run.taking (b.take m count trivia) reply) := by
  obtain ⟨n, rfl⟩ : ∃ n, count = n + 1 := ⟨count - 1, by omega⟩
  rcases h.take_cases m n trivia with short | ⟨last, m', leaf, found, taken⟩
  · rw [short]
    exact .stays h _
  · rw [taken]
    exact .fine (h.move (.behindToken found)) _

theorem Steady.restore (h : b.Steady tokens) {s : Snapshot} (between : Between tokens s.cursor s.pos) :
    (b.restore s).Steady tokens := h.move between

/-- What an operation can do. -/
theorem Operation.safe (h : b.Steady tokens) {snapshots : List Snapshot}
    (states : ∀ old ∈ snapshots, Between tokens old.cursor old.pos) (op : Operation)
    (allowed : op.Allowed snapshots) : Safe tokens b (op.run b) := by
  cases op with
  | advance m => exact h.taking m (Nat.le_refl 1) false _
  | advanceGlued m count => exact h.taking m allowed false _
  | advanceAsTrivia m => exact h.taking m (Nat.le_refl 1) true _
  | token => exact h.taking .empty (Nat.le_refl 1) false _
  | bindTrailingComment m => exact .fine (h.bindTrailingComment m) _
  | restore s => exact .fine (h.restore (states s allowed)) _
  | done m kind role => exact .stays h _
  | peek | atEnd | offset | newlineBefore | semicolonBefore | separatedBefore | adjacent | mark | add | absorb
  | double | precede | withRole | snapshot => exact .stays h _

namespace Session

variable {s : Session}

theorem Steady.step (h : s.Steady tokens) (op : Operation) (allowed : op.Allowed s.snapshots) :
    (s.step op).Steady tokens where
  builder := (Operation.safe h.builder h.snapshots op allowed).1
  snapshots := by
    cases op with
    | snapshot =>
      intro old member
      rcases List.mem_cons.mp member with rfl | member
      · exact h.builder.between
      · exact h.snapshots old member
    | _ => exact h.snapshots

theorem Steady.run (h : s.Steady tokens) (ops : List Operation) (allowed : s.Allows ops) :
    (s.run ops).Steady tokens := by
  induction ops generalizing s with
  | nil => exact h
  | cons op ops ih => exact ih (h.step op allowed.1) allowed.2

theorem start_steady (tokens : List Token) : (start tokens).Steady tokens where
  builder := .ofTokens tokens
  snapshots _ member := nomatch member

/-- However a builder is used, its counters do not part. No more significant tokens are counted than there are, and the
first token that no node holds stands behind the one that was counted last, with nothing but trivia from there to the
next one. What throws changes nothing. -/
theorem counters_never_part (tokens : List Token) (ops : List Operation) (allowed : (start tokens).Allows ops) :
    let s := (start tokens).run ops
    s.builder.Steady tokens ∧
      (∀ i t, s.builder.pos ≤ i → i < placeOf tokens s.builder.cursor → tokens[i]? = some t →
        t.kind.isTrivia = true) ∧
      ∀ (op : Operation) (e : BuilderError), op.Allowed s.snapshots → (op.run s.builder).2 = .error e →
        (op.run s.builder).1.cursor = s.builder.cursor ∧ (op.run s.builder).1.pos = s.builder.pos := by
  intro s
  have steady : s.Steady tokens := (start_steady tokens).run ops allowed
  refine ⟨steady.builder, ?_, ?_⟩
  · intro i t reach below there
    exact steady.builder.between.blank reach below there
  · intro op e allowed thrown
    have same := (Operation.safe steady.builder steady.snapshots op allowed).2 e thrown
    rw [same]
    exact ⟨rfl, rfl⟩

/-- A comment is bound, two tokens are glued, what is read is given back and read once more up to the end. -/
theorem counters_never_part_glued :
    Between [⟨.identifier, 0, 1, "a"⟩, ⟨.whitespace, 1, 2, " "⟩, ⟨.lineComment, 2, 5, "//b"⟩,
      ⟨.whitespace, 5, 6, "\n"⟩, ⟨.operator, 6, 7, ">"⟩, ⟨.operator, 7, 8, "="⟩] 1 3 :=
  (counters_never_part [⟨.identifier, 0, 1, "a"⟩, ⟨.whitespace, 1, 2, " "⟩, ⟨.lineComment, 2, 5, "//b"⟩,
      ⟨.whitespace, 5, 6, "\n"⟩, ⟨.operator, 6, 7, ">"⟩, ⟨.operator, 7, 8, "="⟩]
    [.snapshot, .advance .empty, .advanceGlued .empty 2, .advance .empty, .restore ⟨0, 0⟩, .advance .empty,
      .bindTrailingComment .empty]
    ⟨trivial, trivial, Nat.le_succ 1, trivial, List.mem_cons_self .., trivial, trivial, trivial⟩).1.between

end Session

end Builder

end KotlinSyntax
