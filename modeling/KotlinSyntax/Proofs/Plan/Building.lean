import KotlinSyntax.Proofs.Grammar.Combinator
import KotlinSyntax.Proofs.Plan.Kind
import KotlinSyntax.Proofs.Plan.Logic

/-! Building along a plan. The marker of a node awaits the part of the plan that is still to come; what the
combinators of the grammar do to such a marker is said here once. -/
namespace KotlinSyntax

def Cell.within (c d : Cell) : Bool :=
  c.texts.all (d.texts.contains ·) && c.kinds.all (d.kinds.contains ·) && (!c.name || d.name) &&
    (!c.value || d.value) && c.nodes.all (d.nodes.contains ·)

theorem Cell.takes_of_within {c d : Cell} {e : RawElement} (wider : c.within d = true) (takes : c.takes e = true) :
    d.takes e = true := by
  simp only [within, Bool.and_eq_true, List.all_eq_true] at wider
  obtain ⟨⟨⟨⟨texts, kinds⟩, name⟩, value⟩, nodes⟩ := wider
  cases e with
  | node k role children => exact nodes k (by simpa [Cell.takes] using takes)
  | leaf l =>
    simp only [Cell.takes, Bool.or_eq_true, Bool.and_eq_true] at takes ⊢
    rcases takes with ((spelled | kind) | ⟨is, named⟩) | ⟨is, valued⟩
    · exact .inl (.inl (.inl (texts _ (by simpa using spelled))))
    · exact .inl (.inl (.inr (kinds _ (by simpa using kind))))
    · exact .inl (.inr ⟨by simpa [is] using name, named⟩)
    · exact .inr ⟨by simpa [is] using value, valued⟩

theorem Leaf.Blank.planned {l : Leaf} (h : l.Blank) : Planned (.leaf l) := .leaf l fun _ => .inl h.2

namespace Grammar

open Builder RawElement

/-- The element fits the cell, and every node in it has the parts of its kind. -/
structure Fills (c : Cell) (p : Parsed) : Prop where
  takes : c.takes p.element = true
  planned : Planned p.element
  part : p.element.isTrivia = false
  leading : ∀ l ∈ p.leading, l.Blank

structure Gathered (m : Marker) : Prop where
  planned : ∀ e ∈ m.children.toList, Planned e
  leading : ∀ l ∈ m.leading, l.Blank

/-- What is in the marker and then follows the second plan, follows the first one as a whole. -/
structure Awaits (whole p : Plan) (m : Marker) : Prop extends Gathered m where
  follows : ∀ es, Matches p es → Matches whole (m.parts ++ es)

abbrev Produces (scope : Scope) (g : Grammar Parsed) (b : Builder) (c : Cell) : Prop :=
  Yields scope g b fun p _ => Fills c p

abbrev Leads (scope : Scope) (g : Grammar Marker) (b : Builder) (whole p : Plan) : Prop :=
  Yields scope g b fun m _ => Awaits whole p m

variable {scope : Scope} {b : Builder} {m n : Marker} {whole p q a : Plan} {c d : Cell} {x : Parsed} {t : Token}
  {text : String} {kind : RawKind}

theorem Fills.widen (h : Fills c x) (wider : c.within d = true) : Fills d x :=
  ⟨Cell.takes_of_within wider h.takes, h.planned, h.part, h.leading⟩

theorem Fills.orComma (h : Fills c x) : Fills (Plan.Cell.orComma c) x := by
  refine ⟨?_, h.planned, h.part, h.leading⟩
  have takes := h.takes
  cases element : x.element with
  | node k role children => simpa [element, Cell.takes, Plan.Cell.orComma] using takes
  | leaf l =>
    rw [element, Cell.takes] at takes
    simp only [Cell.takes, Plan.Cell.orComma, List.contains_cons, Bool.or_assoc] at takes ⊢
    rw [takes, Bool.or_true]

theorem Fills.withRole (h : Fills c x) (role : String) : Fills c (x.withRole role) := by
  obtain ⟨takes, planned, part, leading⟩ := h
  obtain ⟨before, element⟩ := x
  cases element with
  | leaf l => exact ⟨takes, planned, part, leading⟩
  | node kind old children =>
    cases planned with
    | node _ _ _ parts below => exact ⟨takes, .node kind (some role) children parts below, rfl, leading⟩

namespace Gathered

theorem empty : Gathered .empty := ⟨by simp [Marker.empty], by simp [Marker.empty]⟩

theorem addTrivia (h : Gathered m) {trivia : List Leaf} (blank : ∀ l ∈ trivia, l.Blank) :
    Gathered (m.addTrivia trivia) :=
  ⟨Marker.forall_addTrivia h.planned fun l inside => (blank l inside).planned,
    Marker.leading_addTrivia m blank h.leading⟩

theorem push (h : Gathered m) {e : RawElement} (planned : Planned e) : Gathered (m.push e) :=
  ⟨Marker.forall_push h.planned planned, h.leading⟩

theorem add (h : Gathered m) (fills : Fills c x) : Gathered (m.add x) :=
  (h.addTrivia fills.leading).push fills.planned

theorem ofParsed (fills : Fills c x) : Gathered (.ofParsed x) :=
  ⟨Marker.forall_ofParsed.mpr fills.planned, fills.leading⟩

theorem absorb (h : Gathered m) (k : Gathered n) : Gathered (m.absorb n) :=
  ⟨Marker.forall_absorb h.planned (fun l inside => (k.leading l inside).planned) k.planned,
    (h.addTrivia k.leading).leading⟩

end Gathered

namespace Awaits

theorem new (kind : RawKind) : Awaits (Plan.ofKind kind) (Plan.ofKind kind) .empty :=
  ⟨.empty, fun _ follows => follows⟩

/-- One of two runs comes. -/
theorem left (h : Awaits whole (.either a q :: p) m) : Awaits whole (a ++ p) m :=
  ⟨h.toGathered, fun es follows => h.follows es (.left follows)⟩

theorem right (h : Awaits whole (.either a q :: p) m) : Awaits whole (q ++ p) m :=
  ⟨h.toGathered, fun es follows => h.follows es (.right follows)⟩

/-- A run comes once more, or no more. -/
theorem more (h : Awaits whole (.many a :: p) m) : Awaits whole (a ++ .many a :: p) m :=
  ⟨h.toGathered, fun es follows => h.follows es (.more follows)⟩

theorem stop (h : Awaits whole (.many a :: p) m) : Awaits whole p m :=
  ⟨h.toGathered, fun es follows => h.follows es (.stop follows)⟩

theorem push (h : Awaits whole (.cell c :: p) m) {e : RawElement} {trivia : List Leaf}
    (blank : ∀ l ∈ trivia, l.Blank) (takes : c.takes e = true) (planned : Planned e) (part : e.isTrivia = false) :
    Awaits whole p ((m.addTrivia trivia).push e) := by
  refine ⟨(h.addTrivia blank).push planned, fun es follows => ?_⟩
  rw [Marker.parts_push _ part, Marker.parts_addTrivia m blank, List.append_assoc]
  exact h.follows (e :: es) (.cell takes follows)

theorem add (h : Awaits whole (.cell c :: p) m) (fills : Fills c x) : Awaits whole p (m.add x) :=
  h.push fills.leading fills.takes fills.planned fills.part

theorem add? {x : Option Parsed} (h : Awaits whole (Plan.opt [.cell c] :: p) m) (fills : ∀ y ∈ x, Fills c y) :
    Awaits whole p (m.add? x) := by
  cases x with
  | none => exact h.right
  | some x => exact h.left.add (fills x rfl)

/-- A node whose first part is already there. -/
theorem begin (h : Awaits whole (.cell c :: p) .empty) (fills : Fills c x) : Awaits whole p (.ofParsed x) := h.add fills

/-- A plan that has come to its end may go on. -/
theorem goOn (h : Awaits whole [] m) (q : Plan) : Awaits (whole ++ q) q m := by
  refine ⟨h.toGathered, fun es follows => ?_⟩
  have all := h.follows [] .nil
  rw [List.append_nil] at all
  exact all.append follows

theorem addTrivia (h : Awaits whole p m) {trivia : List Leaf} (blank : ∀ l ∈ trivia, l.Blank) :
    Awaits whole p (m.addTrivia trivia) :=
  ⟨h.toGathered.addTrivia blank, by rw [Marker.parts_addTrivia m blank]; exact h.follows⟩

/-- One marker takes over what another one gathered for the rest of its plan. -/
theorem absorb (h : Awaits whole p m) (k : Awaits p [] n) : Awaits whole [] (m.absorb n) := by
  refine ⟨h.toGathered.absorb k.toGathered, fun es follows => ?_⟩
  have gathered := Marker.parts_addTrivia m k.leading
  simp only [Marker.parts] at gathered
  have parts : (m.absorb n).parts = m.parts ++ n.parts := by
    simp only [Marker.parts, Marker.absorb, Array.toList_append, significant_append, gathered]
  rw [parts, List.append_assoc]
  exact h.follows _ (k.follows es follows)

end Awaits

/-! Finishing nodes. -/

theorem done_yields {role : Option String} (gathered : Gathered m) (takes : c.nodes.contains kind = true)
    (parts : kind = .unsupported ∨ Matches (Plan.ofKind kind) m.parts) :
    Yields scope (done m kind role) b fun x b' => Fills c x ∧ b' = b := by
  unfold Grammar.done Marker.done
  by_cases empty : m.children.isEmpty = true
  · simp only [empty, if_true]
    exact .fail
  · simp only [empty]
    exact .pure ⟨⟨takes, .node kind role _ parts gathered.planned, rfl, gathered.leading⟩, rfl⟩

/-- A node whose plan has come to its end, with the builder where it was. -/
theorem Awaits.doneHere {role : Option String} (h : Awaits (Plan.ofKind kind) [] m)
    (takes : c.nodes.contains kind = true) :
    Yields scope (Grammar.done m kind role) b fun x b' => Fills c x ∧ b' = b := by
  refine done_yields h.toGathered takes (.inr ?_)
  have all := h.follows [] .nil
  rwa [List.append_nil] at all

theorem Awaits.done {role : Option String} (h : Awaits (Plan.ofKind kind) [] m)
    (takes : c.nodes.contains kind = true) : Produces scope (Grammar.done m kind role) b c :=
  (h.doneHere takes).mono fun _ _ after => after.1

/-- A node that no plan is for. -/
theorem Gathered.refused {role : Option String} (h : Gathered m) (takes : c.nodes.contains .unsupported = true) :
    Produces scope (Grammar.done m .unsupported role) b c :=
  (done_yields h takes (.inl rfl)).mono fun _ _ after => after.1

/-- An element is there. -/
theorem some_yields {rule : Grammar Parsed} (h : Produces scope rule b c) :
    Yields scope (some <$> rule) b fun x _ => ∀ y ∈ x, Fills c y := by
  refine .map (h.mono ?_)
  rintro y _ fills _ ⟨⟩
  exact fills

theorem Awaits.doneUnlessEmpty (h : Awaits (Plan.ofKind kind) [] m) (takes : c.nodes.contains kind = true) :
    Yields scope (doneUnlessEmpty m kind) b fun x _ => ∀ y ∈ x, Fills c y :=
  .ite (fun _ => .pure nofun) fun _ => some_yields (h.done takes)

/-- An element, or none where the tokens are rejected. -/
theorem speculate_yields {rule : Grammar Parsed} (h : Produces scope rule b c) :
    Yields scope (speculate rule) b fun x _ => ∀ y ∈ x, Fills c y := by
  refine (Yields.speculate h).mono ?_
  rintro (_ | x) b' after
  · exact nofun
  · rintro _ ⟨⟩
    exact after

/-! Taking tokens. -/

theorem unreserved_of_peek (h : b.Ready) {i : Int} (seen : b.peek i = some t) : t.isUnreserved = true := by
  refine h.unreserved t ?_
  unfold Builder.peek at seen
  obtain ⟨place, _, found⟩ := Option.bind_eq_some_iff.mp seen
  exact Array.mem_toList_iff.mpr (Array.mem_of_getElem? found)

def Faces (b : Builder) (i : Int) (c : Cell) : Prop :=
  ∃ t, b.peek i = some t ∧ (b.Ready → c.takes (.leaf ⟨t, false⟩) = true)

namespace Faces

variable {i : Int}

theorem word (seen : b.sees text i = true) (known : c.texts.contains text = true) : Faces b i c := by
  obtain ⟨t, peeked, spelled⟩ := peek_of_sees seen
  refine ⟨t, peeked, fun _ => ?_⟩
  rw [Cell.takes, Token.text_of_spells spelled, known]
  rfl

theorem wordOf {texts : List String} (seen : b.seesAny texts = true)
    (known : texts.all (c.texts.contains ·) = true) : Faces b 0 c := by
  obtain ⟨text, member, sees⟩ := List.any_eq_true.mp seen
  exact word sees (List.all_eq_true.mp known text member)

theorem wordOfPeek (seen : b.peek = some t) (known : c.texts.contains t.text = true) : Faces b 0 c :=
  ⟨t, seen, fun _ => by rw [Cell.takes, known]; rfl⟩

theorem name (seen : b.seesName i = true) (named : c.name = true) : Faces b i c := by
  obtain ⟨t, peeked, kind⟩ := peek_of_seesKind seen
  refine ⟨t, peeked, fun ready => ?_⟩
  have is := Token.isName_of_isUnreserved (unreserved_of_peek ready peeked) kind
  simp [Cell.takes, named, is]

theorem ofKind {k : TokenKind} (seen : b.seesKind k i = true) (known : c.kinds.contains k = true) : Faces b i c := by
  obtain ⟨t, peeked, rfl⟩ := peek_of_seesKind seen
  refine ⟨t, peeked, fun _ => ?_⟩
  simp only [Cell.takes, known, Bool.or_true, Bool.true_or]

/-- A name or a literal. -/
theorem atom (seen : b.peek i = some t) (atom : t.kind.isAtom = true) (valued : c.value = true) : Faces b i c := by
  refine ⟨t, seen, fun ready => ?_⟩
  have is := Token.isValue_of_isUnreserved (unreserved_of_peek ready seen) atom
  simp [Cell.takes, valued, is]

/-- A keyword that stands for a value. -/
theorem valueWord (seen : b.peek i = some t) (keyword : t.kind = .keyword)
    (known : Token.valueWords.contains t.text = true) (valued : c.value = true) : Faces b i c := by
  refine ⟨t, seen, fun _ => ?_⟩
  have is : t.isValue = true := by rw [Token.isValue, keyword, known]; rfl
  simp [Cell.takes, valued, is]

end Faces

/-- The next token becomes the last part. -/
theorem advance_yields (m : Marker) (seen : b.peek = some t) : Yields scope (advance m) b fun m' b' =>
    (∃ gap : List Token, (∀ u ∈ gap, u.kind.isTrivia = true) ∧
      m' = (m.addTrivia (gap.map Leaf.ofToken)).push (.leaf ⟨t, false⟩)) ∧ ∀ i, b'.peek i = b.peek (i + 1) := by
  refine .whenReady fun ready => ?_
  obtain ⟨gap, next⟩ := ready.placed.next seen
  refine .ofGets (advance_gets next m scope) (fun ready => ⟨⟨next.placed, ready.unreserved⟩, rfl, rfl⟩) ?_
  exact ⟨⟨gap, next.blank, rfl⟩, behind_peek b _⟩

theorem Gathered.advance (h : Gathered m) (seen : b.peek = some t) :
    Yields scope (Grammar.advance m) b fun m' b' => Gathered m' ∧ ∀ i, b'.peek i = b.peek (i + 1) := by
  refine (advance_yields m seen).mono ?_
  rintro _ b' ⟨⟨gap, blank, rfl⟩, shifted⟩
  exact ⟨(h.addTrivia (ofTokens_trivia blank)).push (.ofPart rfl), shifted⟩

theorem Gathered.advanceTwice (h : Gathered m) {u : Token} (first : b.peek = some t) (second : b.peek 1 = some u) :
    Yields scope (Grammar.advanceTwice m) b fun m' _ => Gathered m' := by
  refine .bind (h.advance first) ?_
  rintro m' b' ⟨gathered, shifted⟩
  exact (gathered.advance ((shifted 0).trans second)).mono fun _ _ after => after.1

namespace Awaits

theorem shift (h : Awaits whole (.cell c :: p) m) (faces : Faces b 0 c) :
    Yields scope (Grammar.advance m) b fun m' b' => Awaits whole p m' ∧ ∀ i, b'.peek i = b.peek (i + 1) := by
  obtain ⟨t, seen, takes⟩ := faces
  refine .whenReady fun ready => (advance_yields m seen).mono ?_
  rintro _ b' ⟨⟨gap, blank, rfl⟩, shifted⟩
  exact ⟨h.push (ofTokens_trivia blank) (takes ready) (.ofPart rfl) rfl, shifted⟩

theorem advance (h : Awaits whole (.cell c :: p) m) (faces : Faces b 0 c) :
    Leads scope (Grammar.advance m) b whole p :=
  (h.shift faces).mono fun _ _ after => after.1

theorem advanceTwice (h : Awaits whole (.cell c :: .cell d :: p) m) (first : Faces b 0 c) (second : Faces b 1 d) :
    Leads scope (Grammar.advanceTwice m) b whole p := by
  obtain ⟨u, seen, takes⟩ := second
  refine .whenReady fun ready => .bind (h.shift first) ?_
  rintro m' b' ⟨on, shifted⟩
  exact on.advance ⟨u, (shifted 0).trans seen, fun _ => takes ready⟩

/-- A comma that counts as trivia is no part. -/
theorem advanceAsTrivia (h : Awaits whole p m) (seen : b.peek = some t) (comma : t.text = ",") :
    Leads scope (Grammar.advanceAsTrivia m) b whole p := by
  refine .whenReady fun ready => ?_
  obtain ⟨gap, next⟩ := ready.placed.next seen
  have gets : Gets scope (Grammar.advanceAsTrivia m) b ((m.addTrivia (gap.map Leaf.ofToken)).push (.leaf ⟨t, true⟩))
      (b.behind 1 (b.pos + gap.length)) := by
    unfold Gets Grammar.advanceAsTrivia take
    rw [bind_result]
    simp only [Grammar.look, next.take]
    rfl
  refine .ofGets gets (fun ready => ⟨⟨next.placed, ready.unreserved⟩, rfl, rfl⟩) ?_
  have gathered := h.addTrivia (ofTokens_trivia next.blank)
  refine ⟨gathered.toGathered.push (.leaf _ fun _ => .inr comma), ?_⟩
  rw [Marker.parts_push_trivia _ rfl]
  exact gathered.follows

/-- An operator becomes one part, also where it stands on two tokens. -/
theorem advanceGlued {ops : List String} (h : Awaits whole (.cell c :: p) m) (stands : 0 < b.operatorsCount ops)
    (known : ops.all (c.texts.contains ·) = true) :
    Leads scope (Grammar.advanceGlued m (b.operatorsCount ops)) b whole p := by
  obtain ⟨op, member, count⟩ := operatorsCount_mem stands
  have takes := List.all_eq_true.mp known op member
  rw [count] at stands ⊢
  rcases operatorCount_cases stands with ⟨one, seen⟩ | ⟨first, second, two, joined, seen, seen', touch⟩
  · rw [one]
    exact h.advance (.word seen takes)
  · rw [two]
    refine .whenReady fun ready => ?_
    obtain ⟨t, u, gap, next, next', spelled, spelled'⟩ := next_two ready.placed seen seen' touch
    have text : String.join [t.text, u.text] = op := by
      rw [Token.text_of_spells spelled, Token.text_of_spells spelled', joined]
      simp [String.join]
    have gets : Gets scope (Grammar.advanceGlued m 2) b ((m.addTrivia (gap.map Leaf.ofToken)).push
        (.leaf ⟨⟨.operator, t.start, u.stop, op⟩, false⟩)) (b.behind 2 (b.pos + gap.length + 1)) := by
      unfold Gets Grammar.advanceGlued take
      rw [bind_result]
      simp only [Grammar.look, next.take_two next', text]
      rfl
    refine .ofGets gets (fun ready => ⟨⟨next'.placed, ready.unreserved⟩, rfl, rfl⟩) ?_
    refine h.push (ofTokens_trivia next.blank) ?_ (.ofPart rfl) rfl
    simp only [Cell.takes, takes, Bool.true_or]

theorem bindTrailingComment (h : Awaits whole p m) : Leads scope (Grammar.bindTrailingComment m) b whole p := by
  refine .whenReady fun ready => .look ?_
  rcases bindTrailingComment_eq b m with same | ⟨run, rest, split, blank, taken⟩
  · rw [same]
    exact .goTo .refl (.pure h)
  · rw [taken]
    refine .goTo (fun ready => ⟨⟨ready.placed.skip split blank, ready.unreserved⟩, rfl, rfl⟩) (.pure ?_)
    exact h.addTrivia (ofTokens_trivia blank)

/-! Tokens that must come. -/

theorem expect (h : Awaits whole (Plan.word text :: p) m) : Leads scope (Grammar.expect m text) b whole p :=
  .look (.ite (fun seen => h.advance (.word seen (by simp [Plan.wordsCell]))) fun _ => .reject)

theorem expectName (h : Awaits whole (Plan.name :: p) m) : Leads scope (Grammar.expectName m) b whole p :=
  .look (.ite (fun seen => h.advance (.name seen rfl)) fun _ => .reject)

theorem expectAny {texts : List String} {what : String} (h : Awaits whole (.cell c :: p) m)
    (known : texts.all (c.texts.contains ·) = true) : Leads scope (Grammar.expectAny m texts what) b whole p :=
  .look (.ite (fun seen => h.advance (.wordOf seen known)) fun _ => .reject)

/-! Parts that may be absent. -/

theorem advanceIf {test : Builder → Bool} (h : Awaits whole (Plan.opt [.cell c] :: p) m)
    (faces : test b = true → Faces b 0 c) : Leads scope (Grammar.advanceIf test m) b whole p :=
  .look (.ite (fun seen => h.left.advance (faces seen)) fun _ => .pure h.right)

theorem advanceTwiceIf {test : Builder → Bool} (h : Awaits whole (Plan.opt [.cell c, .cell d] :: p) m)
    (first : test b = true → Faces b 0 c) (second : test b = true → Faces b 1 d) :
    Leads scope (Grammar.advanceTwiceIf test m) b whole p :=
  .look (.ite (fun seen => h.left.advanceTwice (first seen) (second seen)) fun _ => .pure h.right)

theorem addIf {test : Builder → Bool} {rule : Grammar Parsed} (h : Awaits whole (Plan.opt [.cell c] :: p) m)
    (each : test b = true → Produces scope rule b c) : Leads scope (Grammar.addIf test rule m) b whole p :=
  .look (.ite (fun seen => .bind (each seen) fun _ _ fills => .pure (h.left.add fills)) fun _ => .pure h.right)

/-! Lists. -/

/-- A run of elements. -/
theorem iterateWhile {test : Builder → Bool} {step : Marker → Grammar Marker} (h : Awaits whole (.many a :: p) m)
    (each : ∀ m b, Awaits whole (a ++ .many a :: p) m → test b = true →
      Leads scope (step m) b whole (.many a :: p)) :
    Yields scope (Grammar.iterateWhile test step m) b fun m' b' => Awaits whole p m' ∧ test b' = false := by
  refine (Yields.iterateWhile (I := fun m _ => Awaits whole (.many a :: p) m) h ?_).mono ?_
  · exact fun m b on tested => each m b on.more tested
  · exact fun m b after => ⟨after.1.stop, after.2⟩

theorem commaList {close : String} {item : Grammar Parsed} (h : Awaits whole (Plan.items c :: p) m)
    (each : ∀ b, Produces scope item b c) : Leads scope (Grammar.commaList m close item) b whole p := by
  refine .iterate (I := fun m _ => Awaits whole (Plan.items c :: p) m ∨
    Awaits whole (.many [.cell (Plan.Cell.orComma c)] :: p) m) (.inl h) fun m b on => .look ?_
  refine .ite (fun _ => .pure (on.elim (·.right) (·.stop))) fun _ => .bind (each b) fun x b' fills => ?_
  have added : Awaits whole (.many [.cell (Plan.Cell.orComma c)] :: p) (m.add x) :=
    on.elim (·.left.add fills) (·.more.add fills.orComma)
  refine .look (.ite (fun comma => ?_) fun _ => .pure added.stop)
  exact .bind (added.more.advance (.word comma (by simp [Plan.Cell.orComma]))) fun _ _ on => .pure (.inr on)

end Awaits

/-- A list between two words. -/
theorem bracketed_yields {item : RawKind} {opening closing : String} {rule : Grammar Parsed}
    (plan : Plan.ofKind kind = Plan.list opening closing item) (takes : c.nodes.contains kind = true)
    (each : ∀ b, Produces scope rule b (Plan.nodesCell [item])) :
    Produces scope (bracketed kind opening closing rule) b c := by
  have start : Awaits (Plan.ofKind kind) (Plan.list opening closing item) .empty := plan ▸ .new kind
  exact .bind start.expect fun _ _ on =>
    .bind (on.commaList each) fun _ _ on =>
    .bind on.expect fun _ _ on => on.done takes

/-- The next token as an element of its own. -/
theorem token_yields (faces : Faces b 0 c) : Produces scope token b c := by
  obtain ⟨t, seen, takes⟩ := faces
  refine .whenReady fun ready => ?_
  obtain ⟨gap, next⟩ := ready.placed.next seen
  refine .look ?_
  rw [next.take]
  refine .goTo (fun ready => ⟨⟨next.placed, ready.unreserved⟩, rfl, rfl⟩) (.pure ⟨takes ready, .ofPart rfl, rfl, ?_⟩)
  have gathered := Gathered.empty.addTrivia (ofTokens_trivia next.blank)
  exact gathered.leading

def Rule.cell : Rule → Cell
  | .expression | .unary => Plan.operandCell
  | .typeReference _ => Plan.nodesCell [.typeReference]
  | .annotationSet => Plan.nodesCell [.annotationSet]
  | .statement => Plan.statementCell
  | .classBody _ => Plan.nodesCell [.classBody]

/-- The rules through which the grammar recurs build along the plans. Annotations are called at their sign only. -/
def Keeps (recur : Recur) : Prop :=
  ∀ scope (r : Rule) b, (r = .annotationSet → b.sees "@" = true) → Produces scope (recur r) b r.cell

namespace Keeps

variable {recur : Recur}

theorem expression (keeps : Keeps recur) : Produces scope (recur .expression) b Plan.operandCell :=
  keeps scope .expression b nofun

theorem unary (keeps : Keeps recur) : Produces scope (recur .unary) b Plan.operandCell := keeps scope .unary b nofun

theorem type (keeps : Keeps recur) {receiver : Bool} :
    Produces scope (recur (.typeReference receiver)) b (Plan.nodesCell [.typeReference]) :=
  keeps scope (.typeReference receiver) b nofun

theorem annotationSet (keeps : Keeps recur) (seen : b.sees "@" = true) :
    Produces scope (recur .annotationSet) b (Plan.nodesCell [.annotationSet]) :=
  keeps scope .annotationSet b fun _ => seen

theorem statement (keeps : Keeps recur) : Produces scope (recur .statement) b Plan.statementCell :=
  keeps scope .statement b nofun

theorem classBody (keeps : Keeps recur) {isEnum : Bool} :
    Produces scope (recur (.classBody isEnum)) b (Plan.nodesCell [.classBody]) :=
  keeps scope (.classBody isEnum) b nofun

end Keeps

end Grammar

end KotlinSyntax
