import KotlinSyntax.Conversion.Reading
import KotlinSyntax.Proofs.Nesting
import KotlinSyntax.Proofs.Words

/-! Reading the parts of a raw node. What was read so far accounts for the words of the parts that were
taken, so a node whose layout implies the same words spells what it stands for. -/
namespace KotlinSyntax

namespace Conversion

variable {α β : Type}

def Makes (c : Convert α) (Q : α → Prop) : Prop :=
  ∀ s, match c s with
    | .ok a _ => Q a
    | .error _ _ => True

def Reads (r : Reading α) (o : Owner) (items : List Item) (Q : α → List Item → Prop) : Prop :=
  Makes (r o items) fun answer => Q answer.1 answer.2

namespace Makes

variable {c : Convert α} {Q R : α → Prop}

theorem mono (h : Makes c R) (weaker : ∀ a, R a → Q a) : Makes c Q := by
  intro s
  have holds := h s
  revert holds
  cases c s with
  | ok a s' => exact weaker a
  | error e s' => exact id

theorem bind {f : α → Convert β} {Q : β → Prop} (first : Makes c R) (next : ∀ a, R a → Makes (f a) Q) :
    Makes (c >>= f) Q := by
  intro s
  have holds := first s
  simp only [Bind.bind, EStateM.bind]
  revert holds
  cases c s with
  | ok a s' => exact fun holds => next a holds s'
  | error e s' => exact id

theorem and (h : Makes c Q) (k : Makes c R) : Makes c fun a => Q a ∧ R a := by
  intro s
  have one := h s
  have two := k s
  revert one two
  cases c s with
  | ok a s' => exact fun one two => ⟨one, two⟩
  | error e s' => exact fun _ _ => trivial

theorem pure {a : α} (h : Q a) : Makes (Pure.pure a) Q := fun _ => h

theorem throw {e : ConversionError} : Makes (throw e) Q := fun _ => trivial

end Makes

namespace Reads

variable {o : Owner} {items : List Item} {Q R : α → List Item → Prop}

theorem mono {r : Reading α} (h : Reads r o items R) (weaker : ∀ a items', R a items' → Q a items') :
    Reads r o items Q :=
  Makes.mono h fun a holds => weaker a.1 a.2 holds

theorem bind {r : Reading α} {f : α → Reading β} {Q : β → List Item → Prop} (first : Reads r o items R)
    (next : ∀ a items', R a items' → Reads (f a) o items' Q) : Reads (r >>= f) o items Q :=
  Makes.bind first fun a holds => next a.1 a.2 holds

theorem pure {a : α} (h : Q a items) : Reads (Pure.pure a) o items Q := Makes.pure h

theorem map {r : Reading α} {f : α → β} {Q : β → List Item → Prop}
    (h : Reads r o items fun a items' => Q (f a) items') : Reads (f <$> r) o items Q :=
  bind h fun _ _ holds => pure holds

theorem rest {f : List Item → Reading β} {Q : β → List Item → Prop} (h : Reads (f items) o items Q) :
    Reads (rest >>= f) o items Q :=
  bind (R := fun is items' => is = items ∧ items' = items) (fun _ => ⟨rfl, rfl⟩) (by
    rintro _ _ ⟨rfl, rfl⟩
    exact h)

theorem read {f : Owner → Reading β} {Q : β → List Item → Prop} (h : Reads (f o) o items Q) :
    Reads (MonadReader.read >>= f) o items Q :=
  bind (R := fun p items' => p = o ∧ items' = items) (fun _ => ⟨rfl, rfl⟩) (by
    rintro _ _ ⟨rfl, rfl⟩
    exact h)

theorem set {is : List Item} {f : PUnit → Reading β} {Q : β → List Item → Prop} (h : Reads (f ⟨⟩) o is Q) :
    Reads (MonadStateOf.set is >>= f) o items Q :=
  bind (R := fun _ items' => items' = is) (fun _ => rfl) (by
    rintro _ _ rfl
    exact h)

/-- A conversion on its own leaves the parts alone. -/
theorem lift {c : Convert α} {P : α → Prop} (h : Makes c P) :
    Reads (liftM c) o items fun a items' => P a ∧ items' = items :=
  Makes.bind h fun _ holds => .pure ⟨holds, rfl⟩

theorem throw {e : ConversionError} : Reads (throw e) o items Q := fun _ => trivial

/-- Two steps that are described together. -/
theorem assoc {γ : Type} {r : Reading α} {g : α → Reading β} {f : β → Reading γ} {Q : γ → List Item → Prop}
    (h : Reads ((r >>= g) >>= f) o items Q) : Reads (r >>= fun a => g a >>= f) o items Q := by
  rwa [bind_assoc] at h

theorem mismatch {expected : String} : Reads (mismatch expected) o items Q :=
  read (rest throw)

theorem ite {c : Prop} [Decidable c] {r k : Reading α} (yes : c → Reads r o items Q) (no : ¬c → Reads k o items Q) :
    Reads (if c then r else k) o items Q := by
  split
  · rename_i h
    exact yes h
  · rename_i h
    exact no h

end Reads

/-! Children label by label. -/

section Labels

variable (f g : Field) (n : Node) (m : Option Node) (ns : List Node)

@[simp] theorem under_one : under f (Node.wordsAll (one g n)) = if g = f then [n.words] else [] := by
  simp only [one, Node.wordsAll, under, List.filter_cons, List.filter_nil, beq_iff_eq]
  split <;> rfl

@[simp] theorem under_opt : under f (Node.wordsAll (opt g m)) = if g = f then m.toList.map Node.words else [] := by
  cases m with
  | none => simp [opt, Node.wordsAll]
  | some n => exact under_one f g n

@[simp] theorem under_many : under f (Node.wordsAll (many g ns)) = if g = f then ns.map Node.words else [] := by
  induction ns with
  | nil => simp [many, Node.wordsAll]
  | cons n ns ih =>
    have split : many g (n :: ns) = one g n ++ many g ns := rfl
    rw [split, wordsAll_append, under_append, ih, under_one]
    split <;> rfl

@[simp] theorem any_one : (one g n).any (·.1 == f) = decide (g = f) := by simp [one, beq_eq_decide]

@[simp] theorem any_opt : (opt g m).any (·.1 == f) = (m.isSome && decide (g = f)) := by
  cases m <;> simp [opt, beq_eq_decide]

@[simp] theorem any_many : (many g ns).any (·.1 == f) = (!ns.isEmpty && decide (g = f)) := by
  induction ns with
  | nil => rfl
  | cons n ns ih =>
    have split : many g (n :: ns) = one g n ++ many g ns := rfl
    rw [split, List.any_append, ih, any_one]
    cases decide (g = f) <;> simp

end Labels

def AllKnown (children : List (Field × Node)) : Prop := ∀ c ∈ children, c.2.Known

section Labels

variable (f : Field) (n : Node) (m : Option Node) (ns : List Node)

@[simp] theorem allKnown_nil : AllKnown [] ↔ True := by simp [AllKnown]

@[simp] theorem allKnown_append (xs ys : List (Field × Node)) :
    AllKnown (xs ++ ys) ↔ AllKnown xs ∧ AllKnown ys := by
  simp only [AllKnown, List.mem_append, or_imp, forall_and]

@[simp] theorem allKnown_one : AllKnown (one f n) ↔ n.Known := by simp [AllKnown, one]

@[simp] theorem allKnown_opt : AllKnown (opt f m) ↔ ∀ n ∈ m, n.Known := by
  cases m <;> simp [AllKnown, opt]

@[simp] theorem allKnown_many : AllKnown (many f ns) ↔ ∀ n ∈ ns, n.Known := by simp [AllKnown, many]

end Labels

/-! Accounting for the parts that were taken. -/

/-- The node spells what the element does. -/
structure StandsFor (n : Node) (e : RawElement) : Prop where
  words : n.words = e.words
  known : n.Known
  clean : Clean e

/-- A part that is read as what it spells. Skipped tokens could pass for a template, so they must not stand
among the entries of a string. -/
structure Faithful (i : Item) : Prop where
  part : i.origin.element.isTrivia = false
  makes : ∀ goal, goal ≠ .stringEntry → Makes (i.convert goal) fun n => StandsFor n i.origin.element
  entry : i.origin.element.isOf .errorElement = false →
    Makes (i.convert .stringEntry) fun n => StandsFor n i.origin.element

def itemWords (items : List Item) : List String := items.flatMap fun i => i.origin.element.words

/-- The words belong to the parts in front of those that are left. -/
structure Taking (all : List Item) (ws : List String) (items : List Item) : Prop where
  faithful : ∀ i ∈ all, Faithful i
  split : ∃ front, all = front ++ items ∧ itemWords front = ws ∧ ∀ i ∈ front, Clean i.origin.element

structure Spells (all : List Item) (n : Node) : Prop where
  words : n.words = itemWords all
  known : n.Known
  clean : ∀ i ∈ all, Clean i.origin.element

variable {all items items' : List Item} {ws : List String} {o : Owner} {i : Item} {k : Kind}
  {scalars : List (Field × Scalar)} {children : List (Field × Node)} {kind : RawKind} {text : String}

def Took (all : List Item) (ws : List String) (items items' : List Item) : Prop :=
  Taking all ws items' ∧ items'.length < items.length

namespace Taking

theorem start (faithful : ∀ i ∈ all, Faithful i) : Taking all [] all :=
  ⟨faithful, [], rfl, rfl, by simp⟩

theorem head (h : Taking all ws (i :: items)) : Faithful i := by
  obtain ⟨front, split, _⟩ := h.split
  exact h.faithful i (by simp [split])

theorem cons (h : Taking all ws (i :: items)) (clean : Clean i.origin.element) :
    Took all (ws ++ i.origin.element.words) (i :: items) items := by
  obtain ⟨front, split, words, fine⟩ := h.split
  refine ⟨⟨h.faithful, front ++ [i], by rw [split]; simp, ?_, ?_⟩, by simp⟩
  · rw [← words]
    simp [itemWords]
  · intro j member
    rcases List.mem_append.mp member with member | member
    · exact fine j member
    · rw [List.mem_singleton.mp member]
      exact clean

/-- All parts are taken. -/
theorem spells {n : Node} (h : Taking all ws []) (words : n.words = ws) (known : n.Known) : Spells all n := by
  obtain ⟨front, split, accounted, fine⟩ := h.split
  rw [List.append_nil] at split
  subst split
  exact ⟨words.trans accounted.symm, known, fine⟩

end Taking

theorem leaf_words {e : RawElement} (h : tokenText? e = some text) (part : e.isTrivia = false) :
    e.words = [text] ∧ Clean e := by
  cases e with
  | node => cases h
  | leaf l =>
    cases h
    have plain : l.trivia = false := part
    exact ⟨by simp [RawElement.words, RawElement.leaves, plain], .leaf l⟩

/-! Making nodes. -/

theorem make_makes : Makes (make k scalars children) fun n => ∃ id, n = .mk id (.kind k) scalars children := by
  refine .bind (R := fun _ => True) (fun _ => trivial) ?_
  intro s _
  refine .bind (R := fun _ => True) (fun _ => trivial) ?_
  intro _ _
  cases broken : (Node.mk s.nextId (.kind k) scalars children).broken? with
  | some d =>
    simp only [Node.make, Node.checked, broken]
    exact .throw
  | none =>
    simp only [Node.make, Node.checked, broken]
    exact .pure ⟨s.nextId, rfl⟩

theorem emit_makes {origin : Option Origin} {n : Node} : Makes (emit origin n) (· = n) := fun _ => rfl

def IsMade (k : Kind) (scalars : List (Field × Scalar)) (children : List (Field × Node)) (n : Node) : Prop :=
  ∃ id, n = .mk id (.kind k) scalars children

theorem made_reads {origin : Option Origin} :
    Reads (do let n ← make k scalars children; emit origin n) o items fun n items' =>
      IsMade k scalars children n ∧ items' = items := by
  refine .bind (.lift make_makes) ?_
  rintro n _ ⟨made, rfl⟩
  refine (Reads.lift emit_makes).mono ?_
  rintro _ _ ⟨rfl, rfl⟩
  exact ⟨made, rfl⟩

attribute [local simp] Node.layout Piece.words tokenWords

/-- What the layout of the kind spells for the children. -/
def Implies (k : Kind) (scalars : List (Field × Scalar)) (children : List (Field × Node)) (ws : List String) : Prop :=
  ∀ id, ((Node.mk id (.kind k) scalars children).layout none k).flatMap
    (Piece.words k (Node.wordsAll children)) = ws

theorem IsMade.words {n : Node} (made : IsMade k scalars children n) (h : Implies k scalars children ws) :
    n.words = ws := by
  obtain ⟨id, rfl⟩ := made
  rw [Node.words_mk]
  exact h id

theorem IsMade.known {n : Node} (made : IsMade k scalars children n) (h : AllKnown children) : n.Known := by
  obtain ⟨id, rfl⟩ := made
  exact Node.known_mk h

theorem build_reads : Reads (build k scalars children) o items fun n items' =>
    IsMade k scalars children n ∧ items' = items := by
  refine .bind (.lift make_makes) ?_
  rintro n _ ⟨made, rfl⟩
  refine .read ((Reads.lift emit_makes).mono ?_)
  rintro _ _ ⟨rfl, rfl⟩
  exact ⟨made, rfl⟩

theorem implied_reads : Reads (implied k children) o items fun n items' =>
    IsMade k [] children n ∧ items' = items := made_reads

theorem close_reads : Reads close o items fun _ items' => items = [] ∧ items' = [] := by
  refine .rest (.ite (fun _ => .mismatch) ?_)
  intro empty
  have none : items = [] := by simpa using empty
  exact .pure ⟨none, none⟩

/-- The node for the owner, if its layout spells the words of all parts. -/
theorem Taking.build (h : Taking all ws []) (spelled : Implies k scalars children ws) (known : AllKnown children) :
    Reads (build k scalars children) o [] fun n _ => Spells all n := by
  refine build_reads.mono ?_
  rintro n _ ⟨made, _⟩
  exact h.spells (made.words spelled) (made.known known)

theorem Taking.finish (h : Taking all ws items) (spelled : Implies k scalars children ws) (known : AllKnown children) :
    Reads (finish k scalars children) o items fun n _ => Spells all n := by
  refine .bind close_reads ?_
  rintro _ _ ⟨rfl, rfl⟩
  exact h.build spelled known

/-! Single parts. -/

theorem token_of_sees {n : Nat} (h : seesToken text n items = true) :
    ∃ i, items[n]? = some i ∧ tokenText? i.origin.element = some text := by
  unfold seesToken at h
  cases found : items[n]? with
  | none => simp [found] at h
  | some i => exact ⟨i, rfl, by simpa [found] using h⟩

def Adds (all : List Item) (ws : List String) (items : List Item) (n : Node) (items' : List Item) : Prop :=
  Took all (ws ++ n.words) items items' ∧ n.Known

def TakesHead (items : List Item) (n : Node) (items' : List Item) (P : RawElement → Prop) : Prop :=
  ∃ i, items = i :: items' ∧ StandsFor n i.origin.element ∧ P i.origin.element

theorem Taking.adds {n : Node} {P : RawElement → Prop} (h : Taking all ws items) (taken : TakesHead items n items' P) :
    Adds all ws items n items' := by
  obtain ⟨i, rfl, stands, _⟩ := taken
  rw [Adds, stands.words]
  exact ⟨h.cons stands.clean, stands.known⟩

theorem next_reads : Reads next o items fun i items' => items = i :: items' := by
  refine .rest ?_
  cases items with
  | nil => exact .mismatch
  | cons i is => exact .set (.pure rfl)

def Opens (text : String) (items items' : List Item) : Prop :=
  ∃ i : Item, tokenText? i.origin.element = some text ∧ items = i :: items'

namespace Taking

theorem token (h : Taking all ws items) :
    Reads (token text) o items fun i items' => Took all (ws ++ [text]) items items' ∧
      tokenText? i.origin.element = some text ∧ items = i :: items' := by
  refine .rest ?_
  cases items with
  | nil => exact .mismatch
  | cons i is =>
    refine .ite ?_ (fun _ => .mismatch)
    intro seen
    refine .set (.pure ?_)
    obtain ⟨j, first, spelled⟩ := token_of_sees seen
    cases first
    obtain ⟨words, clean⟩ := leaf_words spelled h.head.part
    refine ⟨?_, spelled, rfl⟩
    rw [← words]
    exact h.cons clean

/-- Some token, which comes first. -/
theorem anyToken (h : Taking all ws items) :
    Reads anyToken o items fun i items' => ∃ text, Took all (ws ++ [text]) items items' ∧
      tokenText? i.origin.element = some text ∧ items = i :: items' := by
  refine .rest ?_
  cases items with
  | nil => exact .mismatch
  | cons i is =>
    refine .ite ?_ (fun _ => .mismatch)
    intro leaf
    refine .set (.pure ?_)
    obtain ⟨text, spelled⟩ := Option.isSome_iff_exists.mp leaf
    obtain ⟨words, clean⟩ := leaf_words spelled h.head.part
    refine ⟨text, ?_, spelled, rfl⟩
    rw [← words]
    exact h.cons clean

theorem keywordFor (_ : Taking all ws items) :
    Reads (keywordFor text i) o items fun n items' => (n.words = [text] ∧ n.Known) ∧ items' = items := by
  refine made_reads.mono ?_
  rintro n _ ⟨made, same⟩
  refine ⟨⟨made.words ?_, made.known (by simp)⟩, same⟩
  intro id
  rfl

theorem keyword (h : Taking all ws items) : Reads (keyword text) o items fun n items' =>
    Adds all ws items n items' ∧ Opens text items items' := by
  refine .bind h.token ?_
  rintro i items' ⟨took, opens⟩
  refine took.1.keywordFor.mono ?_
  rintro n _ ⟨⟨words, known⟩, rfl⟩
  rw [Adds, words]
  exact ⟨⟨took, known⟩, i, opens⟩

theorem keywordOf {spellings : List String} (h : Taking all ws items) :
    Reads (keywordOf spellings) o items (Adds all ws items) := by
  refine .bind h.anyToken ?_
  rintro i items' ⟨text, took, spelled, _⟩
  refine .ite ?_ (fun _ => .mismatch)
  intro _
  rw [spelled]
  refine took.1.keywordFor.mono ?_
  rintro n _ ⟨⟨words, known⟩, rfl⟩
  rw [Adds, words]
  exact ⟨took, known⟩

theorem name (h : Taking all ws items) : Reads name o items (Adds all ws items) := by
  refine .rest (.ite ?_ (fun _ => .mismatch))
  intro _
  refine .bind h.anyToken ?_
  rintro i items' ⟨text, took, spelled, _⟩
  refine made_reads.mono ?_
  rintro n _ ⟨made, rfl⟩
  have words : n.words = [text] := by
    refine made.words ?_
    rw [spelled]
    intro id
    rfl
  rw [Adds, words]
  exact ⟨took, made.known (by simp)⟩

theorem nextAs {goal : Goal} (h : Taking all ws items) (plain : goal ≠ .stringEntry) :
    Reads (nextAs goal) o items fun n items' => TakesHead items n items' fun _ => True := by
  refine .bind next_reads ?_
  rintro i items' rfl
  refine (Reads.lift (h.head.makes goal plain)).mono ?_
  rintro n _ ⟨stands, rfl⟩
  exact ⟨i, rfl, stands, trivial⟩

theorem node (_ : Taking all ws items) : Reads (node kind) o items fun i items' =>
    items = i :: items' ∧ i.origin.element.isOf kind = true := by
  refine .rest ?_
  cases items with
  | nil => exact .mismatch
  | cons i is =>
    refine .ite ?_ (fun _ => .mismatch)
    intro seen
    refine .set (.pure ⟨rfl, ?_⟩)
    cases element : i.origin.element with
    | leaf l => simp [seesNode, nodeKind?, element] at seen
    | node other role children => simpa [seesNode, nodeKind?, element, RawElement.isOf] using seen

theorem part (h : Taking all ws items) : Reads (part kind) o items fun n items' =>
    TakesHead items n items' fun e => e.isOf kind = true := by
  refine .bind h.node ?_
  rintro i items' ⟨rfl, is⟩
  refine (Reads.lift (h.head.makes .part nofun)).mono ?_
  rintro n _ ⟨stands, rfl⟩
  exact ⟨i, rfl, stands, is⟩

theorem addsPart (h : Taking all ws items) : Reads (Conversion.part kind) o items (Adds all ws items) :=
  h.part.mono fun _ _ taken => h.adds taken

theorem addsNext {goal : Goal} (h : Taking all ws items) (plain : goal ≠ .stringEntry) :
    Reads (Conversion.nextAs goal) o items (Adds all ws items) :=
  (h.nextAs plain).mono fun _ _ taken => h.adds taken

end Taking

/-- The last part is converted when it is known to be the last. -/
theorem Taking.closingPart {f : Node → Reading Node} (h : Taking all ws items)
    (next : ∀ n, Taking all (ws ++ n.words) [] → n.Known → Reads (f n) o [] fun m _ => Spells all m) :
    Reads (do
      let i ← Conversion.node kind
      close
      let n ← i.convert .part
      f n) o items fun m _ => Spells all m := by
  refine .bind h.node ?_
  rintro i items₁ ⟨rfl, _⟩
  refine .bind close_reads ?_
  rintro _ _ ⟨rfl, rfl⟩
  refine .bind (.lift (h.head.makes .part nofun)) ?_
  rintro n _ ⟨stands, rfl⟩
  have taken := (h.cons stands.clean).1
  rw [← stands.words] at taken
  exact next n taken stands.known

/-! Parts that may be absent. -/

def AddsOpt (all : List Item) (ws : List String) (n : Option Node) (items' : List Item) : Prop :=
  Taking all (ws ++ optWords n) items' ∧ ∀ m ∈ n, m.Known

def wordIf (due : Bool) (text : String) : List String := if due then [text] else []

@[simp] theorem wordIf_true : wordIf true text = [text] := rfl

@[simp] theorem wordIf_false : wordIf false text = [] := rfl

namespace Taking

theorem onlyIf {due : Bool} {rule : Reading Node} (h : Taking all ws items)
    (each : due = true → Reads rule o items fun n items' => Taking all (ws ++ n.words) items' ∧ n.Known) :
    Reads (onlyIf due rule) o items fun n items' => AddsOpt all ws n items' ∧ n.isSome = due := by
  refine .ite ?_ ?_
  · intro is
    refine .map ((each is).mono ?_)
    rintro n items' ⟨taken, known⟩
    exact ⟨⟨taken, by simpa using known⟩, is.symm⟩
  · intro isNot
    refine .pure ⟨⟨by simpa using h, by simp⟩, ?_⟩
    simpa using isNot

theorem tokenIf {due : Bool} (h : Taking all ws items) :
    Reads (tokenIf due text) o items fun _ items' => Taking all (ws ++ wordIf due text) items' := by
  refine .bind (R := fun _ items' => Taking all (ws ++ wordIf due text) items') ?_ fun _ _ taken => .pure taken
  refine .ite ?_ ?_
  · intro is
    subst is
    exact .map (h.token.mono fun _ _ took => took.1.1)
  · intro isNot
    refine .pure ?_
    simpa [wordIf, isNot] using h

theorem skipToken (h : Taking all ws items) :
    Reads (skipToken text) o items fun due items' => Taking all (ws ++ wordIf due text) items' ∧
      due = seesToken text 0 items ∧ items' = if due then items.tail else items := by
  refine .bind (R := fun i items' => Taking all (ws ++ wordIf i.isSome text) items' ∧
    i.isSome = seesToken text 0 items ∧ items' = if i.isSome then items.tail else items) ?_ fun _ _ taken => .pure taken
  refine .rest (.ite ?_ ?_)
  · intro seen
    refine .map (h.token.mono ?_)
    rintro i items' ⟨took, _, split⟩
    exact ⟨took.1, by simp [seen], by simp [split]⟩
  · intro unseen
    refine .pure ⟨by simpa using h, ?_, rfl⟩
    simpa using unseen

theorem optionalPart (h : Taking all ws items) :
    Reads (optionalPart kind) o items fun n items' => AddsOpt all ws n items' ∧ n.isSome = seesNode kind items :=
  .rest (h.onlyIf fun _ => h.addsPart.mono fun _ _ adds => ⟨adds.1.1, adds.2⟩)

theorem optionalKeyword (h : Taking all ws items) :
    Reads (optionalKeyword text) o items fun n items' => AddsOpt all ws n items' ∧
      if n.isSome then Opens text items items' else items' = items := by
  refine .rest (.ite ?_ ?_)
  · intro _
    refine .map (h.keyword.mono ?_)
    rintro n items' ⟨⟨took, known⟩, opens⟩
    exact ⟨⟨took.1, by simpa using known⟩, opens⟩
  · intro _
    exact .pure ⟨⟨by simpa using h, by simp⟩, rfl⟩

theorem optionalName (h : Taking all ws items) : Reads optionalName o items (AddsOpt all ws) :=
  .rest ((h.onlyIf fun _ => h.name.mono fun _ _ adds => ⟨adds.1.1, adds.2⟩).mono fun _ _ adds => adds.1)

/-- A part behind a token that announces it. -/
theorem announced {rule : Reading Node} (h : Taking all ws items)
    (each : ∀ items', Taking all (ws ++ [text]) items' →
      Reads rule o items' fun n items'' => Taking all (ws ++ [text] ++ n.words) items'' ∧ n.Known) :
    Reads (do Conversion.onlyIf (← Conversion.skipToken text) rule) o items fun n items' =>
      Taking all (ws ++ ledWords text n) items' ∧ ∀ m ∈ n, m.Known := by
  refine .bind h.skipToken ?_
  rintro due items₁ ⟨taken, _⟩
  refine (taken.onlyIf ?_).mono ?_
  · intro is
    subst is
    exact each items₁ taken
  · rintro n items₂ ⟨⟨taken, known⟩, same⟩
    refine ⟨?_, known⟩
    cases n with
    | none =>
      cases same
      simpa using taken
    | some n =>
      cases same
      simpa using taken

theorem label (h : Taking all ws items) : Reads label o items fun n items' =>
    Taking all (ws ++ ledWords "@" n) items' ∧ ∀ m ∈ n, m.Known :=
  h.announced fun _ h => h.name.mono fun _ _ adds => ⟨adds.1.1, adds.2⟩

theorem optionalType (h : Taking all ws items) : Reads optionalType o items fun n items' =>
    Taking all (ws ++ ledWords ":" n) items' ∧ ∀ m ∈ n, m.Known :=
  h.announced fun _ h => h.addsPart.mono fun _ _ adds => ⟨adds.1.1, adds.2⟩

theorem modifiers (h : Taking all ws items) : Reads modifiers o items (AddsOpt all ws) :=
  h.optionalPart.mono fun _ _ adds => adds.1

theorem container (h : Taking all ws items) : Reads container o items (Adds all ws items) := by
  refine .bind (h.addsNext nofun) ?_
  rintro e items₁ ⟨took, known⟩
  refine implied_reads.mono ?_
  rintro n _ ⟨made, rfl⟩
  have words : n.words = e.words := made.words (by intro id; simp)
  rw [Adds, words]
  exact ⟨took, made.known (by simpa using known)⟩

end Taking

/-! Runs of parts. -/

def AddsMany (all : List Item) (ws : List String) (ns : List Node) (items' : List Item) : Prop :=
  Taking all (ws ++ manyWords ns) items' ∧ ∀ n ∈ ns, n.Known

/-- Each round takes a part, so the rounds end where the parts no longer allow another. -/
theorem rounds_reads {allowed : List Item → Bool} {rule : Reading α} (inv : List α → List Item → Prop)
    (each : ∀ as items, inv as items → allowed items = true →
      Reads rule o items fun a items' => inv (as ++ [a]) items' ∧ items'.length < items.length)
    (n : Nat) (as : List α) (items : List Item) (start : inv as items) (enough : items.length < n) :
    Reads (whileSees.rounds allowed rule n) o items fun bs items' => inv (as ++ bs) items' ∧ allowed items' = false := by
  induction n generalizing as items with
  | zero => omega
  | succ n ih =>
    refine .rest (.ite ?_ ?_)
    · intro goesOn
      refine .bind (each as items start goesOn) ?_
      rintro a items₁ ⟨holds, less⟩
      refine .bind (ih (as ++ [a]) items₁ holds (by omega)) ?_
      rintro bs items₂ ⟨holds, stops⟩
      exact .pure ⟨by simpa using holds, stops⟩
    · intro stops
      exact .pure ⟨by simpa using start, by simpa using stops⟩

theorem whileSees_reads {allowed : List Item → Bool} {rule : Reading α} (inv : List α → List Item → Prop)
    (each : ∀ as items, inv as items → allowed items = true →
      Reads rule o items fun a items' => inv (as ++ [a]) items' ∧ items'.length < items.length)
    (start : inv [] items) :
    Reads (whileSees allowed rule) o items fun as items' => inv as items' ∧ allowed items' = false :=
  .rest (rounds_reads inv each _ [] items start (Nat.lt_succ_self _))

theorem known_append {n : Node} {ns : List Node} (h : ∀ m ∈ ns, m.Known) (known : n.Known) :
    ∀ m ∈ ns ++ [n], m.Known := by
  intro m member
  rcases List.mem_append.mp member with member | member
  · exact h m member
  · rw [List.mem_singleton.mp member]
    exact known

theorem Taking.whileSees {allowed : List Item → Bool} {rule : Reading Node} (h : Taking all ws items)
    (each : ∀ ws items, Taking all ws items → Reads rule o items (Adds all ws items)) :
    Reads (whileSees allowed rule) o items fun ns items' => AddsMany all ws ns items' ∧ allowed items' = false := by
  refine whileSees_reads (AddsMany all ws) ?_ ⟨by simpa using h, by simp⟩
  rintro ns items₁ ⟨taken, known⟩ _
  refine (each _ items₁ taken).mono ?_
  rintro n items₂ ⟨⟨taken, less⟩, known'⟩
  exact ⟨⟨by simpa [manyWords] using taken, known_append known known'⟩, less⟩

/-- Parts behind a token each. -/
theorem Taking.whileLed {allowed : List Item → Bool} {rule : Reading Node} (h : Taking all ws items)
    (each : ∀ ws items, Taking all ws items → Reads rule o items (Adds all ws items)) :
    Reads (Conversion.whileSees allowed (do let _ ← Conversion.token text; rule)) o items fun ns items' =>
      Taking all (ws ++ ns.flatMap fun n => text :: n.words) items' ∧ ∀ n ∈ ns, n.Known := by
  refine (whileSees_reads (fun (ns : List Node) items' =>
    Taking all (ws ++ ns.flatMap fun n => text :: n.words) items' ∧ ∀ n ∈ ns, n.Known) ?_
    ⟨by simpa using h, by simp⟩).mono fun _ _ after => after.1
  rintro ns items₁ ⟨taken, known⟩ _
  refine .bind taken.token ?_
  rintro _ items₂ ⟨⟨taken, less⟩, _⟩
  refine (each _ items₂ taken).mono ?_
  rintro n items₃ ⟨⟨taken, less'⟩, known'⟩
  exact ⟨⟨by simpa using taken, known_append known known'⟩, by omega⟩

/-- Words in front of all but the first are words between two. -/
theorem joinWords_led (separator : String) (some : separator.isEmpty = false) (n : Node) (ns : List Node) :
    joinWords separator (n.words :: ns.map Node.words) = n.words ++ ns.flatMap fun n => separator :: n.words := by
  induction ns generalizing n with
  | nil => simp [joinWords]
  | cons m ns ih => simp [joinWords, some, ih m]

/-! Lists with commas. -/

def elements (items : List Item) : List RawElement := items.map (·.origin.element)

def commaBefore (ns : List Node) : List String := if ns.isEmpty then [] else [","]

theorem joinWords_cons (n : Node) (ns : List Node) :
    joinWords "," ((n :: ns).map Node.words) = n.words ++ commaBefore ns ++ joinWords "," (ns.map Node.words) := by
  cases ns with
  | nil => simp [joinWords, commaBefore]
  | cons m ns => simp [joinWords, commaBefore]

/-- What a list gives that was read behind an element: nodes, and a comma at its end if there is one. -/
structure Lists (all : List Item) (ws : List String) (items : List Item) (closing : Option String)
    (result : List Node × Option Node) (items' : List Item) : Prop where
  taken : Taking all (ws ++ joinWords "," (result.1.map Node.words) ++ optWords result.2) items'
  known : ∀ n ∈ result.1, n.Known
  comma : ∀ n ∈ result.2, n.Known
  ended : listEnds closing items' = true
  dangling : result.2.isSome = true → ∃ front i, items = front ++ i :: items' ∧ i.origin.element.spells "," = true

namespace Lists

variable {closing : Option String} {items' : List Item} {i : Item} {n : Node} {ns : List Node} {comma : Option Node}
  {result : List Node × Option Node}

theorem nothing (h : Taking all ws items) (ended : listEnds closing items = true) :
    Lists all ws items closing ([], none) items :=
  ⟨by simpa [joinWords] using h, by simp, by simp, ended, nofun⟩

/-- A comma with nothing behind it. -/
theorem dangles (h : Taking all (ws ++ [","]) items) (spelled : i.origin.element.spells "," = true)
    (words : n.words = [","]) (known : n.Known) (ended : listEnds closing items = true) :
    Lists all ws (i :: items) closing ([], some n) items :=
  ⟨by simpa [joinWords, words] using h, by simp, by simpa using known, ended, fun _ => ⟨[], i, rfl, spelled⟩⟩

/-- The list was read behind one more part. -/
theorem behind (h : Lists all ws items closing result items') (i : Item) :
    Lists all ws (i :: items) closing result items' := by
  refine ⟨h.taken, h.known, h.comma, h.ended, fun last => ?_⟩
  obtain ⟨front, j, split, spelled⟩ := h.dangling last
  exact ⟨i :: front, j, by rw [split, List.cons_append], spelled⟩

/-- One more node stands in front, and a comma if others follow. -/
theorem cons (h : Lists all (ws ++ n.words ++ commaBefore ns) items closing (ns, comma) items') (known : n.Known) :
    Lists all ws items closing (n :: ns, comma) items' := by
  refine ⟨?_, ?_, h.comma, h.ended, h.dangling⟩
  · simpa only [joinWords_cons, List.append_assoc] using h.taken
  · intro m member
    rcases List.mem_cons.mp member with rfl | member
    · exact known
    · exact h.known m member

end Lists

theorem seesToken_cons (text : String) (i : Item) (items : List Item) :
    seesToken text 0 (i :: items) = i.origin.element.spells text := by
  cases element : i.origin.element with
  | leaf l => simp [seesToken, tokenText?, element, RawElement.spells]
  | node kind role children => simp [seesToken, tokenText?, element, RawElement.spells]

section Separated

variable {closing : Option String} {rule : Reading Node} {item : RawElement → Bool}

/-- The rounds behind an element `x`, over parts of which the last ones end the list. The words begin with a
comma if `x` is an item and another one follows. -/
theorem separated_rounds (noComma : ∀ e, e.spells "," = true → item e = false)
    (each : ∀ ws items, Taking all ws items → seesToken "," 0 items = false →
      Reads rule o items fun n items' => TakesHead items n items' fun e => item e = true)
    (n : Nat) (x : RawElement) (inner tail : List Item) (ws : List String)
    (chain : (x :: elements inner).IsChain (Follows item)) (ends : listEnds closing tail = true)
    (h : Taking all ws (inner ++ tail)) (enough : inner.length < n) :
    Reads (separated.rounds closing rule n) o (inner ++ tail) fun result items' =>
      Lists all (ws ++ if item x then commaBefore result.1 else []) (inner ++ tail) closing result items' ∧
        (item x = false → listEnds closing (inner ++ tail) = false → result.1 ≠ []) := by
  induction n generalizing x inner ws with
  | zero => omega
  | succ n ih =>
    refine .rest (.ite ?_ ?_)
    · intro ended
      refine .pure ⟨by simpa [commaBefore] using Lists.nothing h ended, fun _ goesOn => ?_⟩
      rw [ended] at goesOn
      cases goesOn
    · intro goesOn
      cases inner with
      | nil => exact absurd ends goesOn
      | cons i inner =>
        have follows : Follows item x i.origin.element := List.IsChain.rel chain
        have onward : (i.origin.element :: elements inner).IsChain (Follows item) := List.IsChain.tail chain
        have shorter : inner.length < n := by simpa using enough
        refine .ite ?_ ?_
        · intro comma
          have is : i.origin.element.spells "," = true := by
            rw [List.cons_append, seesToken_cons] at comma
            exact comma
          have behind : item x = true := follows.1 is
          have noItem : item i.origin.element = false := noComma _ is
          refine .bind h.token ?_
          rintro j items₁ ⟨took, spelled, split⟩
          have same : i = j ∧ inner ++ tail = items₁ := by simpa using split
          obtain ⟨rfl, rfl⟩ := same
          refine .rest (.ite ?_ ?_)
          · intro ended
            refine .bind took.1.keywordFor ?_
            rintro m _ ⟨⟨words, known⟩, rfl⟩
            refine .pure ⟨by simpa [commaBefore] using Lists.dangles took.1 is words known ended, fun no => ?_⟩
            rw [behind] at no
            cases no
          · intro more
            refine (ih i.origin.element inner _ onward took.1 shorter).mono ?_
            rintro ⟨ns, last⟩ items₂ ⟨lists, some⟩
            have filled : ns ≠ [] := some noItem (by simpa using more)
            have before : commaBefore ns = [","] := by simp [commaBefore, filled]
            refine ⟨?_, fun _ _ => filled⟩
            simpa [noItem, behind, before] using lists.behind i
        · intro noComma'
          refine .bind (each ws _ h (by simpa using noComma')) ?_
          rintro m items₁ ⟨j, split, stands, is⟩
          have same : i = j ∧ inner ++ tail = items₁ := by simpa using split
          obtain ⟨rfl, rfl⟩ := same
          have notBehind : item x = false := by
            cases behind : item x with
            | false => rfl
            | true =>
              have other := follows.2 behind
              rw [is] at other
              cases other
          refine .bind (ih i.origin.element inner _ onward (h.cons stands.clean).1 shorter) ?_
          rintro ⟨ns, last⟩ items₂ ⟨lists, _⟩
          refine .pure ⟨?_, fun _ _ => by simp⟩
          rw [← stands.words] at lists
          simp only [is, if_true] at lists
          simpa [notBehind] using (lists.cons stands.known).behind i

/-- A list behind an element that is no item. -/
theorem Taking.separated {x : RawElement} {inner tail : List Item} (noComma : ∀ e, e.spells "," = true → item e = false)
    (each : ∀ ws items, Taking all ws items → seesToken "," 0 items = false →
      Reads rule o items fun n items' => TakesHead items n items' fun e => item e = true)
    (h : Taking all ws items) (split : items = inner ++ tail) (before : item x = false)
    (chain : (x :: elements inner).IsChain (Follows item)) (ends : listEnds closing tail = true) :
    Reads (separated closing rule) o items (Lists all ws items closing) := by
  subst split
  refine .rest ((separated_rounds noComma each _ x inner tail ws chain ends h ?_).mono ?_)
  · rw [List.length_append]
    omega
  · rintro result items' ⟨lists, _⟩
    simpa [before] using lists

theorem isOf_noComma (e : RawElement) (h : e.spells "," = true) : e.isOf kind = false := by
  cases e with
  | leaf => rfl
  | node => cases h

theorem elements_split {front : List Item} (split : all = front ++ items) :
    elements all = elements front ++ elements items := by
  rw [split, elements, List.map_append]
  rfl

/-- Commas stand between the items of what is left as well. -/
theorem Taking.chain (h : Taking all ws items) (spaced : Spaced item (elements all)) :
    (elements items).IsChain (Follows item) := by
  obtain ⟨front, split, _⟩ := h.split
  rw [Spaced, elements_split split, ← List.cons_append] at spaced
  exact spaced.right_of_append

/-- A part that cannot be the last has a neighbour. -/
theorem Taking.followed {R : RawElement → RawElement → Prop} {test : RawElement → Bool} (h : Taking all ws (i :: items))
    (chain : (elements all).IsChain R) (last : ∀ e ∈ (elements all).getLast?, test e = false)
    (is : test i.origin.element = true) : ∃ j rest, items = j :: rest ∧ R i.origin.element j.origin.element := by
  obtain ⟨front, split, _⟩ := h.split
  rw [elements_split split] at chain last
  cases items with
  | nil =>
    have other := last i.origin.element (by simp [elements])
    rw [is] at other
    cases other
  | cons j rest => exact ⟨j, rest, rfl, chain.right_of_append.rel⟩

/-- Parts of one kind up to a token or the end, behind a token. -/
theorem Taking.separatedParts {x : RawElement} (h : Taking all ws items) (leaf : tokenText? x = some text)
    (chain : (x :: elements items).IsChain (Follows (RawElement.isOf kind))) :
    Reads (Conversion.separated closing (Conversion.part kind)) o items (Lists all ws items closing) := by
  have before : x.isOf kind = false := by
    cases x with
    | leaf => rfl
    | node => cases leaf
  refine h.separated isOf_noComma (fun _ _ h _ => h.part) (List.append_nil items).symm before chain ?_
  simp [listEnds]

/-- The same behind a token that is a part. -/
theorem Opens.separatedParts {ws' : List String} (opens : Opens text items items') (whole : Taking all ws items)
    (spaced : Spaced (RawElement.isOf kind) (elements all)) (h : Taking all ws' items') :
    Reads (Conversion.separated closing (Conversion.part kind)) o items' (Lists all ws' items' closing) := by
  obtain ⟨i, leaf, rfl⟩ := opens
  exact h.separatedParts leaf (whole.chain spaced)

/-- Parts of one kind between two tokens. -/
theorem Taking.bracketed {opening closing : String} (h : Taking all ws items)
    (spaced : Spaced (RawElement.isOf kind) (elements all)) :
    Reads (Conversion.bracketed opening closing (Conversion.part kind)) o items fun result items' =>
      Taking all (ws ++ [opening] ++ joinWords "," (result.1.map Node.words) ++ optWords result.2 ++ [closing]) items' ∧
        (∀ n ∈ result.1, n.Known) ∧ ∀ n ∈ result.2, n.Known := by
  refine .bind h.token ?_
  rintro i items₁ ⟨took, opens⟩
  refine .bind (Opens.separatedParts ⟨i, opens⟩ h spaced took.1) ?_
  intro result items₂ lists
  refine .bind lists.taken.token ?_
  rintro j items₃ ⟨took, _⟩
  exact .pure ⟨took.1, lists.known, lists.comma⟩

end Separated

theorem Taking.annotationSets (h : Taking all ws items) : Reads annotationSets o items (AddsMany all ws) :=
  (h.whileSees fun _ _ h => h.addsPart).mono fun _ _ adds => adds.1

end Conversion

end KotlinSyntax
