import KotlinSyntax.Proofs.Plan.Demand
import KotlinSyntax.Proofs.Plan.Kind

/-! Reading along a plan. A rule that reads parts which follow its plan takes each of them for what it is, so that
it never finds one missing, superfluous or of the wrong kind. -/
namespace KotlinSyntax

/-- Whether a part is missing, superfluous or of the wrong kind. The word of a short template is the one part that may
stand where a value should, so an error about a value says nothing of the parts. -/
def ConversionError.isMisfit : ConversionError → Bool
  | mismatch .. | wrongForm .. => true
  | unexpected expected _ => expected != "an expression"
  | unsupported .. | node _ => false

theorem ConversionError.Foreseen.isMisfit {e : ConversionError} (h : e.Foreseen) : e.isMisfit = false := by
  cases h <;> rfl

namespace Conversion

variable {α β : Type}

/-- The conversion gives something that satisfies the condition, or it fails for a reason that is foreseen. -/
def Passes (c : Convert α) (Q : α → Prop) : Prop :=
  ∀ s, match c s with
    | .ok a _ => Q a
    | .error e _ => e.Foreseen

def Accepts (r : Reading α) (o : Owner) (items : List Item) (Q : α → List Item → Prop) : Prop :=
  Passes (r o items) fun answer => Q answer.1 answer.2

namespace Passes

variable {c : Convert α} {Q R : α → Prop}

theorem mono (h : Passes c R) (weaker : ∀ a, R a → Q a) : Passes c Q := by
  intro s
  have holds := h s
  revert holds
  cases c s with
  | ok a s' => exact weaker a
  | error e s' => exact id

theorem bind {f : α → Convert β} {Q : β → Prop} (first : Passes c R) (next : ∀ a, R a → Passes (f a) Q) :
    Passes (c >>= f) Q := by
  intro s
  have holds := first s
  simp only [Bind.bind, EStateM.bind]
  revert holds
  cases c s with
  | ok a s' => exact fun holds => next a holds s'
  | error e s' => exact id

theorem pure {a : α} (h : Q a) : Passes (Pure.pure a) Q := fun _ => h

theorem ite {t : Prop} [Decidable t] {d : Convert α} (yes : t → Passes c Q) (no : ¬t → Passes d Q) :
    Passes (if t then c else d) Q := by
  split
  · rename_i h
    exact yes h
  · rename_i h
    exact no h

theorem throw {e : ConversionError} (foreseen : e.Foreseen) : Passes (throw e) Q := fun _ => foreseen

end Passes

namespace Accepts

variable {o : Owner} {items : List Item} {Q R : α → List Item → Prop}

theorem mono {r : Reading α} (h : Accepts r o items R) (weaker : ∀ a items', R a items' → Q a items') :
    Accepts r o items Q :=
  Passes.mono h fun a holds => weaker a.1 a.2 holds

theorem bind {r : Reading α} {f : α → Reading β} {Q : β → List Item → Prop} (first : Accepts r o items R)
    (next : ∀ a items', R a items' → Accepts (f a) o items' Q) : Accepts (r >>= f) o items Q :=
  Passes.bind first fun a holds => next a.1 a.2 holds

theorem pure {a : α} (h : Q a items) : Accepts (Pure.pure a) o items Q := Passes.pure h

/-- What a reading that succeeds is known to give. -/
theorem and {r : Reading α} (h : Accepts r o items Q) (k : Reads r o items R) :
    Accepts r o items fun a items' => Q a items' ∧ R a items' := by
  intro s
  have one := h s
  have two := k s
  revert one two
  cases r o items s with
  | ok a s' => exact And.intro
  | error e s' => exact fun foreseen _ => foreseen

theorem map {r : Reading α} {f : α → β} {Q : β → List Item → Prop}
    (h : Accepts r o items fun a items' => Q (f a) items') : Accepts (f <$> r) o items Q :=
  bind h fun _ _ holds => pure holds

theorem rest {f : List Item → Reading β} {Q : β → List Item → Prop} (h : Accepts (f items) o items Q) :
    Accepts (rest >>= f) o items Q :=
  bind (R := fun is items' => is = items ∧ items' = items) (fun _ => ⟨rfl, rfl⟩) (by
    rintro _ _ ⟨rfl, rfl⟩
    exact h)

theorem read {f : Owner → Reading β} {Q : β → List Item → Prop} (h : Accepts (f o) o items Q) :
    Accepts (MonadReader.read >>= f) o items Q :=
  bind (R := fun p items' => p = o ∧ items' = items) (fun _ => ⟨rfl, rfl⟩) (by
    rintro _ _ ⟨rfl, rfl⟩
    exact h)

theorem set {is : List Item} {f : PUnit → Reading β} {Q : β → List Item → Prop} (h : Accepts (f ⟨⟩) o is Q) :
    Accepts (MonadStateOf.set is >>= f) o items Q :=
  bind (R := fun _ items' => items' = is) (fun _ => rfl) (by
    rintro _ _ rfl
    exact h)

/-- A conversion on its own leaves the parts alone. -/
theorem lift {c : Convert α} {P : α → Prop} (h : Passes c P) :
    Accepts (liftM c) o items fun a items' => P a ∧ items' = items :=
  Passes.bind h fun _ holds => .pure ⟨holds, rfl⟩

theorem ite {c : Prop} [Decidable c] {r k : Reading α} (yes : c → Accepts r o items Q)
    (no : ¬c → Accepts k o items Q) : Accepts (if c then r else k) o items Q := by
  split
  · rename_i h
    exact yes h
  · rename_i h
    exact no h

/-- What is due is read. -/
theorem due {r : Reading α} {Q : Option α → List Item → Prop} {test : Bool} (is : test = true)
    (h : Accepts r o items fun a items' => Q (some a) items') : Accepts (onlyIf test r) o items Q := by
  subst is
  exact map h

theorem notDue {r : Reading α} {Q : Option α → List Item → Prop} {test : Bool} (is : test = false)
    (h : Q none items) : Accepts (onlyIf test r) o items Q := by
  subst is
  exact pure h

end Accepts

/-! Making nodes. -/

variable {o : Owner} {items : List Item} {k : Kind} {scalars : List (Field × Scalar)}
  {children : List (Field × Node)} {Q : Node → List Item → Prop}

theorem make_passes (owed : k.Owed scalars children) :
    Passes (make k scalars children) fun n => ∃ id, n = .mk id (.kind k) scalars children := by
  refine .bind (R := fun _ => True) (fun _ => trivial) ?_
  intro s _
  refine .bind (R := fun _ => True) (fun _ => trivial) ?_
  intro _ _
  cases broken : (Node.mk s.nextId (.kind k) scalars children).broken? with
  | some d =>
    simp only [Node.make, Node.checked, broken]
    exact .throw (owed.foreseen broken)
  | none =>
    simp only [Node.make, Node.checked, broken]
    exact .pure ⟨s.nextId, rfl⟩

theorem emit_passes {origin : Option Origin} {n : Node} : Passes (emit origin n) (· = n) := fun _ => rfl

theorem made_accepts {origin : Option Origin} (owed : k.Owed scalars children)
    (h : ∀ id, Q (.mk id (.kind k) scalars children) items) :
    Accepts (do let n ← make k scalars children; emit origin n) o items Q := by
  refine .bind (.lift (make_passes owed)) ?_
  rintro n _ ⟨⟨id, rfl⟩, rfl⟩
  refine (Accepts.lift emit_passes).mono ?_
  rintro _ _ ⟨rfl, rfl⟩
  exact h id

theorem build_accepts (owed : k.Owed scalars children) (h : ∀ n, Q n items) :
    Accepts (build k scalars children) o items Q := by
  refine .bind (.lift (make_passes owed)) ?_
  rintro n _ ⟨_, rfl⟩
  refine .read ((Accepts.lift emit_passes).mono ?_)
  rintro _ _ ⟨rfl, rfl⟩
  exact h _

/-! Parts and plans. -/

def Goal.reads (kind : RawKind) : Goal → Bool
  | part => (partRule kind).isSome
  | declaration => (declarationRule kind).isSome
  | statement => (expressionRule kind).isSome || kind == .typeAlias || kind == .unsupported
  | expression => (expressionRule kind).isSome || kind == .unsupported
  | type => (typeRule kind).isSome || kind == .unsupported
  | classParent => [RawKind.superTypeCall, .delegatedSuperType, .superType].contains kind
  | stringEntry => [RawKind.shortTemplate, .longTemplate].contains kind

def Goal.readsToken : Goal → Bool
  | statement | expression | stringEntry => true
  | part | declaration | type | classParent => false

def Goal.suits (g : Goal) : RawElement → Bool
  | .leaf _ => g.readsToken
  | .node kind _ _ => g.reads kind

def Goal.suitsCell (g : Goal) (c : Cell) : Bool :=
  (g.readsToken || (c.texts.isEmpty && c.kinds.isEmpty && !c.name && !c.value)) && c.nodes.all (g.reads ·)

theorem Goal.suits_of_takes {g : Goal} {c : Cell} {e : RawElement} (suits : g.suitsCell c = true)
    (takes : c.takes e = true) : g.suits e = true := by
  simp only [suitsCell, Bool.and_eq_true, Bool.or_eq_true] at suits
  cases e with
  | leaf l =>
    rcases suits.1 with token | none
    · exact token
    · simp only [List.isEmpty_iff, Bool.not_eq_true'] at none
      obtain ⟨⟨⟨texts, kinds⟩, name⟩, value⟩ := none
      simp [Cell.takes, texts, kinds, name, value] at takes
  | node kind role children => exact List.all_eq_true.mp suits.2 kind (by simpa [Cell.takes] using takes)

theorem token_accepts {text : String} {i : Item} (seen : seesToken text 0 (i :: items) = true) :
    Accepts (token text) o (i :: items) fun _ items' => items' = items :=
  .rest (.ite (fun _ => .set (.pure rfl)) fun no => absurd seen no)

/-- The parts that are left follow the plan, and each can be read. -/
structure On (p : Plan) (items : List Item) : Prop where
  follows : Matches p (items.map (·.origin.element))
  passes : ∀ i ∈ items, ∀ g : Goal, g.suits i.origin.element = true → Passes (i.convert g) fun _ => True

def Past (p : Plan) (items items' : List Item) : Prop := On p items' ∧ items'.length < items.length

def Takes (rule : Reading α) (o : Owner) (c : Cell) : Prop :=
  ∀ p items, On (.cell c :: p) items → Accepts rule o items fun _ items' => Past p items items'

variable {p q a b : Plan} {c : Cell} {text : String} {kind : RawKind}

/-- Goes on behind what was taken. -/
theorem Accepts.past {r : Reading α} {f : α → Reading β} {Q : β → List Item → Prop}
    (first : Accepts r o items fun _ items' => Past p items items')
    (next : ∀ a items', On p items' → Accepts (f a) o items' Q) : Accepts (r >>= f) o items Q :=
  bind first fun a items' past => next a items' past.1

namespace On

theorem head (h : On (.cell c :: p) items) : ∃ i items', items = i :: items' ∧ c.takes i.origin.element = true ∧
    (∀ g : Goal, g.suitsCell c = true → Passes (i.convert g) fun _ => True) ∧ On p items' := by
  obtain ⟨follows, passes⟩ := h
  cases items with
  | nil => cases follows
  | cons i items' =>
    rw [List.map_cons] at follows
    cases follows with
    | cell takes rest =>
      refine ⟨i, items', rfl, takes, fun g suits => ?_, rest, fun j member => ?_⟩
      · exact passes i (List.mem_cons_self ..) g (Goal.suits_of_takes suits takes)
      · exact passes j (List.mem_cons_of_mem _ member)

theorem choose (h : On (.either a b :: p) items) : On (a ++ p) items ∨ On (b ++ p) items := by
  obtain ⟨follows, passes⟩ := h
  cases follows with
  | left chosen => exact .inl ⟨chosen, passes⟩
  | right chosen => exact .inr ⟨chosen, passes⟩

theorem again (h : On (.many a :: p) items) : On (a ++ .many a :: p) items ∨ On p items := by
  obtain ⟨follows, passes⟩ := h
  cases follows with
  | more again => exact .inl ⟨again, passes⟩
  | stop rest => exact .inr ⟨rest, passes⟩

theorem eq_nil (h : On [] items) : items = [] := by
  have follows := h.follows
  generalize all : items.map (·.origin.element) = es at follows
  cases follows
  exact List.map_eq_nil_iff.mp all

/-! What a reader sees of the first part. -/

theorem not_meets (h : On p items) {s : Sight} (other : Plan.mayBegin s p = false) :
    ∀ i ∈ items.head?, s.meets i.origin.element = false := by
  intro i first
  cases items with
  | nil => cases first
  | cons j items' =>
    cases first
    rw [Bool.eq_false_iff]
    intro meets
    have begins := h.follows.mayBegin meets
    rw [other] at begins
    cases begins

theorem unseenToken (h : On p items) (other : Plan.mayBegin (.text text) p = false) :
    seesToken text 0 items = false := by
  have none := h.not_meets other
  cases items with
  | nil => rfl
  | cons i items' =>
    have here := none i rfl
    cases element : i.origin.element with
    | leaf l => simpa [seesToken, tokenText?, element, Sight.meets] using here
    | node kind role children => simp [seesToken, tokenText?, element]

theorem unseenNode (h : On p items) (other : Plan.mayBegin (.node kind) p = false) : seesNode kind items = false := by
  have none := h.not_meets other
  cases items with
  | nil => rfl
  | cons i items' =>
    have here := none i rfl
    cases element : i.origin.element with
    | leaf l => simp [seesNode, nodeKind?, element]
    | node kind role children => simpa [seesNode, nodeKind?, element, Sight.meets] using here

theorem unseenKind {kind : TokenKind} (h : On p items) (other : Plan.mayBegin (.kind kind) p = false) :
    seesKind kind items = false := by
  have none := h.not_meets other
  cases items with
  | nil => rfl
  | cons i items' =>
    have here := none i rfl
    cases element : i.origin.element with
    | leaf l => simpa [seesKind, element, Sight.meets] using here
    | node kind role children => simp [seesKind, element]

/-- No part at all is a token of the text. -/
theorem unseenAt (h : On p items) (other : Plan.mayHold (.text text) p = false) (n : Nat) :
    seesToken text n items = false := by
  cases found : items[n]? with
  | none => simp [seesToken, found]
  | some i =>
    cases element : i.origin.element with
    | node kind role children => simp [seesToken, found, tokenText?, element]
    | leaf l =>
      rw [Bool.eq_false_iff]
      intro seen
      have meets : (Sight.text text).meets i.origin.element = true := by
        simpa [seesToken, found, tokenText?, element, Sight.meets] using seen
      have member := List.mem_map_of_mem (f := (·.origin.element)) (List.mem_of_getElem? found)
      rw [h.follows.mayHold member meets] at other
      cases other

theorem seenToken (h : On (Plan.word text :: p) items) : seesToken text 0 items = true := by
  obtain ⟨i, items', rfl, takes, _⟩ := h.head
  cases element : i.origin.element with
  | leaf l => simpa [seesToken, tokenText?, element, Cell.takes, Plan.wordsCell] using takes
  | node kind role children => simp [element, Cell.takes, Plan.wordsCell] at takes

/-- A part that is a node of the kind fits the cell of the kind alone. -/
theorem ofSeenNode (h : On (.cell c :: p) items) (seen : seesNode kind items = true) :
    On (Plan.node kind :: p) items := by
  obtain ⟨i, items', rfl, _, _, behind⟩ := h.head
  refine ⟨.cell ?_ behind.follows, h.passes⟩
  cases element : i.origin.element with
  | leaf l => simp [seesNode, nodeKind?, element] at seen
  | node kind' role children => simpa [seesNode, nodeKind?, element, Cell.takes, Plan.nodesCell] using seen

/-- A part that is no node of the kind fits the cell without it. -/
theorem ofUnseenNode (h : On (.cell { c with nodes := kind :: c.nodes } :: p) items)
    (unseen : seesNode kind items = false) : On (.cell c :: p) items := by
  obtain ⟨i, items', rfl, takes, _, behind⟩ := h.head
  refine ⟨.cell ?_ behind.follows, h.passes⟩
  cases element : i.origin.element with
  | leaf l => simpa [element, Cell.takes] using takes
  | node kind' role children =>
    have other : kind' ≠ kind := by simpa [seesNode, nodeKind?, element] using unseen
    simpa [element, Cell.takes, other] using takes

theorem seenNodes {kinds : List RawKind} (h : On (.cell (Plan.nodesCell kinds) :: p) items) :
    ∃ kind ∈ kinds, seesNode kind items = true := by
  obtain ⟨i, items', rfl, takes, _⟩ := h.head
  cases element : i.origin.element with
  | leaf l => simp [element, Cell.takes, Plan.nodesCell] at takes
  | node kind role children =>
    refine ⟨kind, by simpa [element, Cell.takes, Plan.nodesCell] using takes, ?_⟩
    simp [seesNode, nodeKind?, element]

theorem seenWords {texts : List String} (h : On (Plan.words texts :: p) items) :
    ∃ text ∈ texts, seesToken text 0 items = true := by
  obtain ⟨i, items', rfl, takes, _⟩ := h.head
  cases element : i.origin.element with
  | leaf l =>
    refine ⟨l.token.text, by simpa [element, Cell.takes, Plan.wordsCell] using takes, ?_⟩
    simp [seesToken, tokenText?, element]
  | node kind role children => simp [element, Cell.takes, Plan.wordsCell] at takes

/-! What a reader sees of the second part. -/

theorem seenSecond (h : On (.cell c :: Plan.word text :: p) items) : seesToken text 1 items = true := by
  obtain ⟨i, items', rfl, _, _, behind⟩ := h.head
  exact behind.seenToken

theorem unseenSecond (h : On (.cell c :: p) items) (other : Plan.mayBegin (.text text) p = false) :
    seesToken text 1 items = false := by
  obtain ⟨i, items', rfl, _, _, behind⟩ := h.head
  exact behind.unseenToken other

theorem seenKind {kind : TokenKind} (h : On (.cell { kinds := [kind] } :: p) items) : seesKind kind items = true := by
  obtain ⟨i, items', rfl, takes, _⟩ := h.head
  cases element : i.origin.element with
  | leaf l => simpa [seesKind, element, Cell.takes] using takes
  | node kind role children => simp [element, Cell.takes] at takes

theorem seenName (h : On (Plan.name :: p) items) : seesKind .identifier items = true := by
  obtain ⟨i, items', rfl, takes, _⟩ := h.head
  cases element : i.origin.element with
  | leaf l =>
    have is : l.token.isName = true := by simpa [element, Cell.takes, Plan.nameCell] using takes
    simp only [Token.isName, Bool.and_eq_true] at is
    simpa [seesKind, element] using is.1
  | node kind role children => simp [element, Cell.takes, Plan.nameCell] at takes

theorem seenNode (h : On (Plan.node kind :: p) items) : seesNode kind items = true := by
  obtain ⟨i, items', rfl, takes, _⟩ := h.head
  cases element : i.origin.element with
  | leaf l => simp [element, Cell.takes, Plan.nodesCell] at takes
  | node kind' role children => simpa [seesNode, nodeKind?, element, Cell.takes, Plan.nodesCell] using takes

/-! Single parts. -/

theorem token (h : On (Plan.word text :: p) items) :
    Accepts (token text) o items fun _ items' => Past p items items' := by
  have seen := h.seenToken
  obtain ⟨i, items', rfl, _, _, behind⟩ := h.head
  refine (token_accepts seen).mono ?_
  rintro _ _ rfl
  exact ⟨behind, Nat.lt_succ_self _⟩

theorem anyToken (h : On (.cell c :: p) items) (plain : c.nodes = []) : Accepts anyToken o items fun i items' =>
    Past p items items' ∧ c.takes i.origin.element = true ∧ (tokenText? i.origin.element).isSome = true := by
  obtain ⟨i, items', rfl, takes, _, behind⟩ := h.head
  have leaf : (tokenText? i.origin.element).isSome = true := by
    cases element : i.origin.element with
    | leaf l => rfl
    | node kind role children => simp [element, Cell.takes, plain] at takes
  refine .rest (.ite (fun _ => ?_) (fun no => absurd leaf no))
  exact .set (.pure ⟨⟨behind, Nat.lt_succ_self _⟩, takes, leaf⟩)

theorem keyword (h : On (Plan.word text :: p) items) :
    Accepts (keyword text) o items fun _ items' => Past p items items' :=
  .bind h.token fun _ _ past => made_accepts (.free rfl) fun _ => past

/-- A keyword of one of the spellings, with its text. -/
theorem keywordOf {texts spellings : List String} (h : On (Plan.words texts :: p) items)
    (known : texts.all (spellings.contains ·) = true) : Accepts (keywordOf spellings) o items fun n items' =>
      Past p items items' ∧ n.text ∈ texts := by
  refine .bind (h.anyToken rfl) ?_
  rintro i items' ⟨past, takes, leaf⟩
  obtain ⟨text, is⟩ := Option.isSome_iff_exists.mp leaf
  have member : text ∈ texts := by
    cases element : i.origin.element with
    | leaf l =>
      rw [element] at is
      cases is
      simpa [element, Cell.takes, Plan.wordsCell] using takes
    | node kind role children => simp [element, tokenText?] at is
  simp only [is, Option.getD_some]
  rw [if_pos (List.all_eq_true.mp known text member)]
  exact made_accepts (.free rfl) fun _ => ⟨past, member⟩

theorem name (h : On (Plan.name :: p) items) : Accepts name o items fun _ items' => Past p items items' := by
  refine .rest (.ite (fun _ => ?_) (fun no => absurd h.seenName no))
  refine .bind (h.anyToken rfl) ?_
  rintro i items' ⟨past, takes, leaf⟩
  obtain ⟨text, is⟩ := Option.isSome_iff_exists.mp leaf
  refine made_accepts (fun id => ?_) fun _ => past
  have free : text ≠ "" := by
    rintro rfl
    cases element : i.origin.element with
    | leaf l =>
      rw [element] at is
      have empty : l.token.text = "" := by simpa [tokenText?] using is
      simp [element, Cell.takes, Plan.nameCell, Token.isName, empty, Token.reserved] at takes
    | node kind role children => simp [element, tokenText?] at is
  simpa [Kind.demands, Kind.overlooked, Node.text, Node.textOf, Node.scalars, is] using free

theorem nextAs {goal : Goal} (h : On (.cell c :: p) items) (suits : goal.suitsCell c = true) :
    Accepts (nextAs goal) o items fun _ items' => Past p items items' := by
  obtain ⟨i, items', rfl, _, passes, behind⟩ := h.head
  refine .bind (R := fun j rest => j = i ∧ rest = items') (.rest (.set (.pure ⟨rfl, rfl⟩))) ?_
  rintro _ _ ⟨rfl, rfl⟩
  refine (Accepts.lift (passes goal suits)).mono ?_
  rintro _ _ ⟨_, rfl⟩
  exact ⟨behind, Nat.lt_succ_self _⟩

theorem node (h : On (Plan.node kind :: p) items) : Accepts (node kind) o items fun i items' =>
    Past p items items' ∧ ∀ g : Goal, g.reads kind = true → Passes (i.convert g) fun _ => True := by
  have seen := h.seenNode
  obtain ⟨i, items', rfl, _, passes, behind⟩ := h.head
  refine .rest (.ite (fun _ => ?_) (fun no => absurd seen no))
  refine .set (.pure ⟨⟨behind, Nat.lt_succ_self _⟩, fun g reads => passes g ?_⟩)
  simp [Goal.suitsCell, Plan.nodesCell, reads]

theorem part (h : On (Plan.node kind :: p) items) (reads : Goal.part.reads kind = true) :
    Accepts (part kind) o items fun _ items' => Past p items items' := by
  refine .bind h.node ?_
  rintro i items' ⟨past, passes⟩
  refine (Accepts.lift (passes .part reads)).mono ?_
  rintro _ _ ⟨_, rfl⟩
  exact past

theorem close (h : On [] items) : Accepts close o items fun _ items' => On [] items' := by
  cases h.eq_nil
  exact .rest (.pure h)

/-- Nothing is left at the end of a plan. -/
theorem finish (h : On [] items) (owed : k.Owed scalars children) :
    Accepts (finish k scalars children) o items fun _ _ => True :=
  .bind h.close fun _ _ _ => build_accepts owed fun _ => trivial

end On

namespace Takes

theorem nextAs {goal : Goal} (suits : goal.suitsCell c = true) : Takes (nextAs goal) o c :=
  fun _ _ on => on.nextAs suits

theorem part (reads : Goal.part.reads kind = true) : Takes (part kind) o (Plan.nodesCell [kind]) :=
  fun _ _ on => on.part reads

theorem name : Takes name o Plan.nameCell := fun _ _ on => on.name

theorem keywordOf {texts spellings : List String} (known : texts.all (spellings.contains ·) = true) :
    Takes (keywordOf spellings) o (Plan.wordsCell texts) :=
  fun _ _ on => (on.keywordOf known).mono fun _ _ after => after.1

end Takes

namespace On

/-- A word and a part behind it. -/
theorem tokenThen {rule : Reading α} (h : On (Plan.word text :: .cell c :: p) items) (each : Takes rule o c) :
    Accepts (do let _ ← Conversion.token text; rule) o items fun _ items' => Past p items items' := by
  refine .bind h.token ?_
  rintro _ items' ⟨on, shorter⟩
  refine (each _ _ on).mono ?_
  rintro _ _ ⟨on, shorter'⟩
  exact ⟨on, by omega⟩

/-! Parts that may be absent. -/

theorem left (h : On (a ++ p) items) : On (.either a b :: p) items := ⟨.left h.follows, h.passes⟩

theorem right (h : On (b ++ p) items) : On (.either a b :: p) items := ⟨.right h.follows, h.passes⟩

/-- One of two runs of parts, told apart by a test. -/
theorem optionally {r : Reading α} {test : List Item → Bool} (h : On (.either a b :: p) items)
    (there : On (a ++ p) items → test items = true ∧ Accepts r o items fun _ items' => On q items')
    (absent : On (b ++ p) items → test items = false) :
    Accepts (Conversion.rest >>= fun items => onlyIf (test items) r) o items fun x items' =>
      x.isSome = true ∧ On q items' ∨ x.isSome = false ∧ On (b ++ p) items' := by
  refine .rest ?_
  rcases h.choose with on | on
  · exact .due (there on).1 ((there on).2.mono fun _ _ on => .inl ⟨rfl, on⟩)
  · exact .notDue (absent on) (.inr ⟨rfl, on⟩)

/-- A run of parts that begins with a word, or another one. -/
theorem optionalToken (h : On (.either (Plan.word text :: a) b :: p) items)
    (other : Plan.mayBegin (.text text) (b ++ p) = false) : Accepts (optionalToken text) o items fun i items' =>
      i.isSome = true ∧ On (a ++ p) items' ∨ i.isSome = false ∧ On (b ++ p) items' :=
  h.optionally (fun on => ⟨on.seenToken, on.token.mono fun _ _ past => past.1⟩) (·.unseenToken other)

theorem skipsToken (h : On (Plan.word text :: p) items) :
    Accepts (Conversion.skipToken text) o items fun _ items' => Past p items items' :=
  .map (.rest (.due h.seenToken h.token))

theorem skipsNothing (h : On p items) (other : Plan.mayBegin (.text text) p = false) :
    Accepts (Conversion.skipToken text) o items fun _ items' => items' = items :=
  .map (.rest (.notDue (h.unseenToken other) rfl))

theorem skipToken (h : On (.either (Plan.word text :: a) b :: p) items)
    (other : Plan.mayBegin (.text text) (b ++ p) = false) : Accepts (skipToken text) o items fun seen items' =>
      seen = true ∧ On (a ++ p) items' ∨ seen = false ∧ On (b ++ p) items' := .map (h.optionalToken other)

theorem optionalKeyword (h : On (.either (Plan.word text :: a) b :: p) items)
    (other : Plan.mayBegin (.text text) (b ++ p) = false) : Accepts (optionalKeyword text) o items fun n items' =>
      n.isSome = true ∧ On (a ++ p) items' ∨ n.isSome = false ∧ On (b ++ p) items' :=
  h.optionally (fun on => ⟨on.seenToken, on.keyword.mono fun _ _ past => past.1⟩) (·.unseenToken other)

/-! What is known to be there or not. -/

theorem presentKeyword (h : On (Plan.word text :: p) items) :
    Accepts (Conversion.optionalKeyword text) o items fun n items' => n.isSome = true ∧ On p items' :=
  .rest (.due h.seenToken (h.keyword.mono fun _ _ past => ⟨rfl, past.1⟩))

theorem absentKeyword (h : On p items) (other : Plan.mayBegin (.text text) p = false) :
    Accepts (Conversion.optionalKeyword text) o items fun n items' => n.isSome = false ∧ On p items' :=
  .rest (.notDue (h.unseenToken other) ⟨rfl, h⟩)

theorem presentPart (h : On (Plan.node kind :: p) items) (reads : Goal.part.reads kind = true) :
    Accepts (Conversion.optionalPart kind) o items fun n items' => n.isSome = true ∧ On p items' :=
  .rest (.due h.seenNode ((h.part reads).mono fun _ _ past => ⟨rfl, past.1⟩))

theorem absentPart (h : On p items) (other : Plan.mayBegin (.node kind) p = false) :
    Accepts (Conversion.optionalPart kind) o items fun n items' => n.isSome = false ∧ On p items' :=
  .rest (.notDue (h.unseenNode other) ⟨rfl, h⟩)

/-- A word on its own, if it is there. -/
theorem optionalWord (h : On (Plan.opt [Plan.word text] :: p) items) (other : Plan.mayBegin (.text text) p = false) :
    Accepts (Conversion.optionalKeyword text) o items fun _ items' => On p items' :=
  (h.optionalKeyword other).mono fun _ _ on => on.elim (·.2) (·.2)

theorem skipWord (h : On (Plan.opt [Plan.word text] :: p) items) (other : Plan.mayBegin (.text text) p = false) :
    Accepts (Conversion.skipToken text) o items fun _ items' => On p items' :=
  (h.skipToken other).mono fun _ _ on => on.elim (·.2) (·.2)

theorem optionalPart (h : On (Plan.opt [Plan.node kind] :: p) items) (other : Plan.mayBegin (.node kind) p = false)
    (reads : Goal.part.reads kind = true) : Accepts (optionalPart kind) o items fun _ items' => On p items' := by
  refine (h.optionally (q := p) (fun on => ⟨on.seenNode, ?_⟩) (·.unseenNode other)).mono ?_
  · exact (on.part reads).mono fun _ _ past => past.1
  · exact fun _ _ on => on.elim (·.2) (·.2)

theorem modifiers (h : On (Plan.modifiers :: p) items) (other : Plan.mayBegin (.node .modifierList) p = false) :
    Accepts modifiers o items fun _ items' => On p items' := h.optionalPart other rfl

theorem optionalName (h : On (Plan.opt [Plan.name] :: p) items) (other : Plan.mayBegin (.kind .identifier) p = false) :
    Accepts optionalName o items fun _ items' => On p items' := by
  refine (h.optionally (q := p) (fun on => ⟨on.seenName, ?_⟩) (·.unseenKind other)).mono ?_
  · exact on.name.mono fun _ _ past => past.1
  · exact fun _ _ on => on.elim (·.2) (·.2)

/-- A part that is due where a test tells so. What is behind it may depend on that. -/
theorem dueWhere {rule : Reading α} {test : Bool}
    (h : test = true ∧ On (.cell c :: p) items ∨ test = false ∧ On q items) (each : Takes rule o c) :
    Accepts (onlyIf test rule) o items fun x items' =>
      x.isSome = test ∧ (test = true ∧ On p items' ∨ test = false ∧ On q items') := by
  rcases h with ⟨is, on⟩ | ⟨is, on⟩
  · exact .due is ((each _ _ on).mono fun _ _ past => ⟨is.symm, .inl ⟨is, past.1⟩⟩)
  · exact .notDue is ⟨is.symm, .inr ⟨is, on⟩⟩

theorem due {rule : Reading α} {test : Bool}
    (h : test = true ∧ On (.cell c :: p) items ∨ test = false ∧ On p items) (each : Takes rule o c) :
    Accepts (onlyIf test rule) o items fun x items' => x.isSome = test ∧ On p items' :=
  (dueWhere h each).mono fun _ _ after => ⟨after.1, after.2.elim (·.2) (·.2)⟩

theorem tokenIf {test : Bool} (h : test = true ∧ On (Plan.word text :: p) items ∨ test = false ∧ On p items) :
    Accepts (tokenIf test text) o items fun _ items' => On p items' :=
  .bind (due h fun _ _ on => on.token) fun _ _ after => .pure after.2

theorem optionalType (h : On (Plan.type :: p) items) (other : Plan.mayBegin (.text ":") p = false) :
    Accepts optionalType o items fun _ items' => On p items' :=
  .bind (h.skipToken other) fun _ _ on => (due on (.part rfl)).mono fun _ _ after => after.2

theorem label (h : On (Plan.label :: p) items) (other : Plan.mayBegin (.text "@") p = false) :
    Accepts label o items fun _ items' => On p items' :=
  .bind (h.skipToken other) fun _ _ on => (due on .name).mono fun _ _ after => after.2

/-! A part and a word behind it, told by the word. -/

theorem named {rule : Reading α} (h : On (Plan.opt [.cell c, Plan.word text] :: p) items)
    (other : Plan.mayHold (.text text) p = false) (each : Takes rule o c) :
    Accepts (onlyIf (seesToken text 1 items) rule) o items fun _ items' =>
      seesToken text 1 items = true ∧ On (Plan.word text :: p) items' ∨
        seesToken text 1 items = false ∧ On p items' := by
  rcases h.choose with there | absent
  · exact .due there.seenSecond ((each _ _ there).mono fun _ _ past => .inl ⟨there.seenSecond, past.1⟩)
  · exact .notDue (absent.unseenAt other 1) (.inr ⟨absent.unseenAt other 1, absent⟩)

/-! Runs. -/

/-- A loop keeps its invariant and takes a part each time. -/
theorem whileSees {rule : Reading α} {allowed : List Item → Bool} {I : List Item → Prop} {items : List Item}
    (start : I items) (each : ∀ items, I items → allowed items = true →
      Accepts rule o items fun _ items' => I items' ∧ items'.length < items.length) :
    Accepts (whileSees allowed rule) o items fun _ items' => I items' ∧ allowed items' = false := by
  have rounds (n : Nat) : ∀ items, I items → items.length < n → Accepts (whileSees.rounds allowed rule n) o items
      fun _ items' => I items' ∧ allowed items' = false := by
    induction n with
    | zero => exact fun items _ less => absurd less (Nat.not_lt_zero _)
    | succ n ih =>
      intro items holds less
      refine .rest (.ite (fun goes => ?_) fun stops => .pure ⟨holds, by simpa using stops⟩)
      refine .bind (each items holds goes) ?_
      rintro _ items' ⟨holds, shorter⟩
      exact .bind (ih items' holds (by omega)) fun _ _ holds => .pure holds
  exact .rest (rounds _ items start (Nat.lt_succ_self _))

/-- A run over and over, told from what is behind it by a test. -/
theorem repeated {rule : Reading α} {allowed : List Item → Bool} (h : On (.many a :: p) items)
    (stops : ∀ items, On p items → allowed items = false)
    (each : ∀ items, On (a ++ .many a :: p) items → allowed items = true ∧
      Accepts rule o items fun _ items' => Past (.many a :: p) items items') :
    Accepts (Conversion.whileSees allowed rule) o items fun _ items' => On p items' := by
  refine (whileSees h fun items on goes => ?_).mono ?_
  · rcases on.again with again | stop
    · exact (each items again).2
    · rw [stops items stop] at goes
      cases goes
  · rintro _ items' ⟨on, ends⟩
    rcases on.again with again | stop
    · rw [(each items' again).1] at ends
      cases ends
    · exact stop

/-- A run of nodes of one kind. -/
theorem nodes (h : On (.many [Plan.node kind] :: p) items) (other : Plan.mayBegin (.node kind) p = false)
    (reads : Goal.part.reads kind = true) :
    Accepts (Conversion.whileSees (seesNode kind) (Conversion.part kind)) o items fun _ items' => On p items' :=
  h.repeated (fun _ on => on.unseenNode other) fun _ on => ⟨on.seenNode, on.part reads⟩

/-- Parts behind a word each. -/
theorem leds {rule : Reading α} (h : On (.many [Plan.word text, .cell c] :: p) items)
    (other : Plan.mayBegin (.text text) p = false) (each : Takes rule o c) :
    Accepts (Conversion.whileSees (seesToken text 0) (do let _ ← Conversion.token text; rule)) o items
      fun _ items' => On p items' :=
  h.repeated (fun _ on => on.unseenToken other) fun _ on => ⟨on.seenToken, on.tokenThen each⟩

theorem annotationSets (h : On (.many [Plan.node .annotationSet] :: p) items)
    (other : Plan.mayBegin (.node .annotationSet) p = false) :
    Accepts annotationSets o items fun _ items' => On p items' := h.nodes other rfl

/-- A run of parts up to the end. -/
theorem untilEnd {rule : Reading α} (h : On [.many [.cell c]] items) (each : Takes rule o c) :
    Accepts (Conversion.whileSees (!·.isEmpty) rule) o items fun _ items' => On [] items' := by
  refine h.repeated (fun items on => ?_) fun items on => ⟨?_, each _ _ on⟩
  · rw [on.eq_nil]
    rfl
  · obtain ⟨i, items', rfl, _⟩ := on.head
    rfl

/-- A run of parts up to a word. -/
theorem untilToken {rule : Reading α} (h : On (.many [.cell c] :: Plan.word text :: p) items)
    (other : c.mayMeet (.text text) = false) (each : Takes rule o c) :
    Accepts (Conversion.whileSees (!seesToken text 0 ·) rule) o items fun _ items' =>
      On (Plan.word text :: p) items' := by
  refine h.repeated (fun items on => ?_) fun items on => ⟨?_, each _ _ on⟩
  · rw [on.seenToken]
    rfl
  · rw [on.unseenToken]
    · rfl
    · simp [Plan.mayBegin, Plan.Term.mayBegin, Plan.Term.nullable, other]

/-! Lists with commas. -/

/-- A part that is no comma where a comma may be. -/
theorem exclude (h : On (.cell (Plan.Cell.orComma c) :: p) items) (other : seesToken "," 0 items = false) :
    On (.cell c :: p) items := by
  obtain ⟨i, items', rfl, takes, _, behind⟩ := h.head
  refine ⟨.cell ?_ behind.follows, h.passes⟩
  cases element : i.origin.element with
  | node kind role children => simpa [element, Cell.takes, Plan.Cell.orComma] using takes
  | leaf l =>
    have spelled : l.token.text ≠ "," := by simpa [seesToken, tokenText?, element] using other
    simpa [element, Cell.takes, Plan.Cell.orComma, spelled] using takes

/-- A list goes on where a part stands that is not the word behind it. -/
theorem listOpen {closing : Option String} (h : On (.cell c :: p) items)
    (other : ∀ text ∈ closing, c.mayMeet (.text text) = false) : Conversion.listEnds closing items = false := by
  have unseen : ∀ text ∈ closing, seesToken text 0 items = false := fun text member =>
    h.unseenToken (by simp [Plan.mayBegin, Plan.Term.mayBegin, Plan.Term.nullable, other text member])
  obtain ⟨i, items', rfl, _⟩ := h.head
  cases closing with
  | none => rfl
  | some text => simpa [Conversion.listEnds] using unseen text rfl

/-- Behind its first part a list goes on with a part or a comma, or it ends. -/
theorem listGoesOn {closing : Option String} (h : On (.many [.cell (Plan.Cell.orComma c)] :: p) items)
    (ends : ∀ items, On p items → Conversion.listEnds closing items = true)
    (other : ∀ text ∈ closing, (Plan.Cell.orComma c).mayMeet (.text text) = false) :
    On p items ∧ Conversion.listEnds closing items = true ∨
      On (.cell (Plan.Cell.orComma c) :: .many [.cell (Plan.Cell.orComma c)] :: p) items ∧
        Conversion.listEnds closing items = false := by
  rcases h.again with again | stop
  · exact .inr ⟨again, On.listOpen again other⟩
  · exact .inl ⟨stop, ends items stop⟩

/-- Parts and commas behind the first part up to the end of the list. -/
theorem separatedRounds {rule : Reading Node} {closing : Option String}
    (ends : ∀ items, On p items → Conversion.listEnds closing items = true)
    (other : ∀ text ∈ closing, (Plan.Cell.orComma c).mayMeet (.text text) = false) (each : Takes rule o c) (n : Nat)
    (h : On (.many [.cell (Plan.Cell.orComma c)] :: p) items) (enough : items.length < n) :
    Accepts (Conversion.separated.rounds closing rule n) o items fun _ items' => On p items' := by
  induction n generalizing items with
  | zero => exact absurd enough (Nat.not_lt_zero _)
  | succ n ih =>
    refine .rest ?_
    rcases h.listGoesOn ends other with ⟨stop, closed⟩ | ⟨again, opened⟩
    · rw [if_pos closed]
      exact .pure stop
    rw [if_neg (by rw [opened]; exact Bool.false_ne_true)]
    refine .ite (fun comma => ?_) fun noComma => ?_
    · obtain ⟨i, items', rfl, _, _, behind⟩ := again.head
      refine .bind (token_accepts comma) ?_
      rintro i _ rfl
      refine .rest (.ite (fun closed => ?_) fun _ => ?_)
      · refine .bind (made_accepts (.free rfl) fun _ => ?_) fun _ _ on => .pure on
        rcases behind.listGoesOn ends other with ⟨stop, _⟩ | ⟨_, opened⟩
        · exact stop
        · rw [opened] at closed
          cases closed
      · exact ih behind (by simpa using enough)
    · refine .bind (each _ _ (again.exclude (by simpa using noComma))) ?_
      rintro a items' ⟨on, shorter⟩
      exact .bind (ih on (by omega)) fun _ _ on => .pure on

/-- Parts and commas up to the end of the list. A part comes first, so a comma never stands alone. -/
theorem separated {rule : Reading Node} {closing : Option String} (h : On (Plan.items c :: p) items)
    (ends : ∀ items, On p items → Conversion.listEnds closing items = true)
    (other : ∀ text ∈ closing, (Plan.Cell.orComma c).mayMeet (.text text) = false)
    (noComma : c.mayMeet (.text ",") = false) (each : Takes rule o c) :
    Accepts (Conversion.separated closing rule) o items fun list items' =>
      (list.2.isSome = true → list.1 ≠ []) ∧ On p items' := by
  refine .rest (.rest ?_)
  rcases h.choose with first | absent
  · have opened : Conversion.listEnds closing items = false := by
      refine On.listOpen first fun text member => ?_
      have none := other text member
      simp only [Cell.mayMeet, Plan.Cell.orComma, List.contains_cons, Bool.or_eq_false_iff] at none ⊢
      exact ⟨⟨⟨none.1.1.1.2, none.1.1.2⟩, none.1.2⟩, none.2⟩
    have noComma : seesToken "," 0 items = false :=
      On.unseenToken first (by simp [Plan.mayBegin, Plan.Term.mayBegin, Plan.Term.nullable, noComma])
    rw [if_neg (by rw [opened]; exact Bool.false_ne_true), if_neg (by rw [noComma]; exact Bool.false_ne_true)]
    refine .bind (each _ _ first) ?_
    rintro a items' ⟨on, shorter⟩
    exact .bind (separatedRounds ends other each _ on shorter) fun _ _ on => .pure ⟨fun _ => List.cons_ne_nil _ _, on⟩
  · rw [if_pos (ends items absent)]
    exact .pure ⟨fun none => absurd none Bool.false_ne_true, absent⟩

theorem separatedUpTo {rule : Reading Node} {closing : String}
    (h : On (Plan.items c :: Plan.word closing :: p) items)
    (other : (Plan.Cell.orComma c).mayMeet (.text closing) = false) (noComma : c.mayMeet (.text ",") = false)
    (each : Takes rule o c) : Accepts (Conversion.separated (some closing) rule) o items fun list items' =>
      (list.2.isSome = true → list.1 ≠ []) ∧ On (Plan.word closing :: p) items' := by
  refine h.separated (fun items on => ?_) (by rintro _ ⟨⟩; exact other) noComma each
  simp [Conversion.listEnds, on.seenToken]

theorem separatedToEnd {rule : Reading Node} (h : On [Plan.items c] items) (noComma : c.mayMeet (.text ",") = false)
    (each : Takes rule o c) : Accepts (Conversion.separated none rule) o items fun _ items' => On [] items' := by
  refine (h.separated (fun items on => ?_) (by rintro _ ⟨⟩) noComma each).mono fun _ _ after => after.2
  rw [on.eq_nil]
  rfl

/-- A list between two words. -/
theorem bracketed {rule : Reading Node} {opening closing : String}
    (h : On (Plan.word opening :: Plan.items c :: Plan.word closing :: p) items)
    (other : (Plan.Cell.orComma c).mayMeet (.text closing) = false) (noComma : c.mayMeet (.text ",") = false)
    (each : Takes rule o c) : Accepts (bracketed opening closing rule) o items fun _ items' => On p items' :=
  .past h.token fun _ _ on =>
  .bind (on.separatedUpTo other noComma each) fun _ _ after =>
  .past after.2.token fun _ _ on => .pure on

end On

end Conversion

end KotlinSyntax
