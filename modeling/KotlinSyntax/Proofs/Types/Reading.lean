import KotlinSyntax.Proofs.Conversion
import KotlinSyntax.Proofs.Parse.Sight
import KotlinSyntax.Proofs.Types.Modest

/-! Conversions that succeed. Where the parts of a raw node are known beside trivia and places, it is settled what a
rule sees of them and what it takes. -/
namespace KotlinSyntax

namespace Node

mutual

/-- The node without its number and those of the nodes in it: what it holds. -/
def unnumbered : Node → Node
  | mk _ tag scalars children => mk 0 tag scalars (unnumberedAll children)

def unnumberedAll : List (Field × Node) → List (Field × Node)
  | [] => []
  | (f, n) :: rest => (f, unnumbered n) :: unnumberedAll rest

end

theorem unnumberedAll_eq (children : List (Field × Node)) :
    unnumberedAll children = children.map fun c => (c.1, c.2.unnumbered) := by
  induction children with
  | nil => rfl
  | cons c rest ih => rw [unnumberedAll, List.map_cons, ih]

end Node

namespace Conversion

section

variable (f : Field) (n : Node) (m : Option Node) (ns : List Node) (xs ys : List (Field × Node))

@[simp] theorem unnumberedAll_append :
    Node.unnumberedAll (xs ++ ys) = Node.unnumberedAll xs ++ Node.unnumberedAll ys := by
  simp only [Node.unnumberedAll_eq, List.map_append]

@[simp] theorem unnumberedAll_one : Node.unnumberedAll (one f n) = one f n.unnumbered := rfl

@[simp] theorem unnumberedAll_opt : Node.unnumberedAll (opt f m) = opt f (m.map Node.unnumbered) := by
  cases m <;> rfl

@[simp] theorem unnumberedAll_many : Node.unnumberedAll (many f ns) = many f (ns.map Node.unnumbered) := by
  simp only [Node.unnumberedAll_eq, many, List.map_map]
  rfl

end

variable {α β : Type}

def Succeeds (c : Convert α) (Q : α → Prop) : Prop := ∀ s, ∃ a s', c s = .ok a s' ∧ Q a

def Obtains (r : Reading α) (o : Owner) (items : List Item) (Q : α → List Item → Prop) : Prop :=
  Succeeds (r o items) fun answer => Q answer.1 answer.2

namespace Succeeds

variable {c : Convert α} {Q R : α → Prop}

theorem mono (h : Succeeds c R) (weaker : ∀ a, R a → Q a) : Succeeds c Q := by
  intro s
  obtain ⟨a, s', ran, holds⟩ := h s
  exact ⟨a, s', ran, weaker a holds⟩

theorem bind {f : α → Convert β} {Q : β → Prop} (first : Succeeds c R) (next : ∀ a, R a → Succeeds (f a) Q) :
    Succeeds (c >>= f) Q := by
  intro s
  obtain ⟨a, s', ran, holds⟩ := first s
  obtain ⟨b, s'', ran', holds'⟩ := next a holds s'
  exact ⟨b, s'', by simp only [Bind.bind, EStateM.bind, ran, ran'], holds'⟩

theorem pure {a : α} (h : Q a) : Succeeds (Pure.pure a) Q := fun s => ⟨a, s, rfl, h⟩

end Succeeds

namespace Obtains

variable {o : Owner} {items : List Item} {Q R : α → List Item → Prop}

theorem mono {r : Reading α} (h : Obtains r o items R) (weaker : ∀ a items', R a items' → Q a items') :
    Obtains r o items Q :=
  Succeeds.mono h fun a holds => weaker a.1 a.2 holds

theorem bind {r : Reading α} {f : α → Reading β} {Q : β → List Item → Prop} (first : Obtains r o items R)
    (next : ∀ a items', R a items' → Obtains (f a) o items' Q) : Obtains (r >>= f) o items Q :=
  Succeeds.bind first fun a holds => next a.1 a.2 holds

theorem pure {a : α} (h : Q a items) : Obtains (Pure.pure a) o items Q := Succeeds.pure h

theorem map {r : Reading α} {f : α → β} {Q : β → List Item → Prop}
    (h : Obtains r o items fun a items' => Q (f a) items') : Obtains (f <$> r) o items Q :=
  bind h fun _ _ holds => pure holds

theorem rest {f : List Item → Reading β} {Q : β → List Item → Prop} (h : Obtains (f items) o items Q) :
    Obtains (rest >>= f) o items Q :=
  bind (R := fun is items' => is = items ∧ items' = items) (Succeeds.pure ⟨rfl, rfl⟩) (by
    rintro _ _ ⟨rfl, rfl⟩
    exact h)

theorem read {f : Owner → Reading β} {Q : β → List Item → Prop} (h : Obtains (f o) o items Q) :
    Obtains (MonadReader.read >>= f) o items Q :=
  bind (R := fun p items' => p = o ∧ items' = items) (Succeeds.pure ⟨rfl, rfl⟩) (by
    rintro _ _ ⟨rfl, rfl⟩
    exact h)

theorem set {is : List Item} {f : PUnit → Reading β} {Q : β → List Item → Prop} (h : Obtains (f ⟨⟩) o is Q) :
    Obtains (MonadStateOf.set is >>= f) o items Q :=
  bind (R := fun _ items' => items' = is) (Succeeds.pure rfl) (by
    rintro _ _ rfl
    exact h)

/-- A conversion on its own leaves the parts alone. -/
theorem lift {c : Convert α} {P : α → Prop} (h : Succeeds c P) :
    Obtains (liftM c) o items fun a items' => P a ∧ items' = items :=
  Succeeds.bind h fun _ holds => .pure ⟨holds, rfl⟩

theorem yes {c : Prop} [Decidable c] {r k : Reading α} (holds : c) (h : Obtains r o items Q) :
    Obtains (if c then r else k) o items Q := by
  rwa [if_pos holds]

theorem no {c : Prop} [Decidable c] {r k : Reading α} (fails : ¬c) (h : Obtains k o items Q) :
    Obtains (if c then r else k) o items Q := by
  rwa [if_neg fails]

/-- What is due is read. -/
theorem due {r : Reading α} {Q : Option α → List Item → Prop} {test : Bool} (is : test = true)
    (h : Obtains r o items fun a items' => Q (some a) items') : Obtains (onlyIf test r) o items Q := by
  subst is
  exact map h

theorem notDue {r : Reading α} {Q : Option α → List Item → Prop} {test : Bool} (is : test = false)
    (h : Q none items) : Obtains (onlyIf test r) o items Q := by
  subst is
  exact pure h

end Obtains

/-! Making nodes. -/

variable {o : Owner} {items : List Item} {k : Kind} {scalars : List (Field × Scalar)}
  {children : List (Field × Node)} {Q : Node → List Item → Prop}

/-- A node that meets the demands of its kind can be made. -/
theorem make_succeeds (sound : ∀ id, (Node.mk id (.kind k) scalars children).broken? = none) :
    Succeeds (make k scalars children) fun n => ∃ id, n = .mk id (.kind k) scalars children := by
  refine .bind (R := fun _ => True) (fun s => ⟨s, s, rfl, trivial⟩) ?_
  intro s _
  refine .bind (R := fun _ => True) (fun _ => ⟨⟨⟩, _, rfl, trivial⟩) ?_
  intro _ _
  simp only [Node.make, Node.checked, sound]
  exact .pure ⟨s.nextId, rfl⟩

theorem emit_succeeds {origin : Option Origin} {n : Node} : Succeeds (emit origin n) (· = n) := fun _ => ⟨n, _, rfl, rfl⟩

theorem made_obtains {origin : Option Origin} (sound : ∀ id, (Node.mk id (.kind k) scalars children).broken? = none)
    (h : ∀ id, Q (.mk id (.kind k) scalars children) items) :
    Obtains (do let n ← make k scalars children; emit origin n) o items Q := by
  refine .bind (.lift (make_succeeds sound)) ?_
  rintro n _ ⟨⟨id, rfl⟩, rfl⟩
  refine (Obtains.lift emit_succeeds).mono ?_
  rintro _ _ ⟨rfl, rfl⟩
  exact h id

/-- The node for the owner, of which nothing is left. -/
theorem finish_obtains (sound : ∀ id, (Node.mk id (.kind k) scalars children).broken? = none)
    (h : ∀ id, Q (.mk id (.kind k) scalars children) []) : Obtains (finish k scalars children) o [] Q := by
  refine .bind (R := fun _ items' => items' = []) (.rest (.no (by simp) (.pure rfl))) ?_
  rintro _ _ rfl
  refine .bind (.lift (make_succeeds sound)) ?_
  rintro n _ ⟨⟨id, rfl⟩, rfl⟩
  refine .read ((Obtains.lift emit_succeeds).mono ?_)
  rintro _ _ ⟨rfl, rfl⟩
  exact h id

/-- A name is not empty. -/
theorem name_sound {text : String} (is : Lexer.isIdentifier text = true) (id : Nat) :
    (Node.mk id (.kind .nameExpression) [(.text, .text text)] []).broken? = none := by
  have some : text.isEmpty = false := by
    rw [Bool.eq_false_iff]
    intro empty
    rw [String.isEmpty_iff.mp empty] at is
    revert is
    decide
  simp [Node.broken?, Node.kind?, Node.tag, Kind.demands, text_mk, some]

/-! Parts that are known beside trivia and places. -/

/-- The part is the element beside trivia and places, and it is read as such. -/
structure Presents (i : Item) (e : RawElement) : Prop where
  bare : i.origin.element.bare = e
  known : ∀ l ∈ i.origin.element.leaves, l.token.kind.isTrivia = true → l.trivia = true
  converts : i.convert = convert i.origin.number i.origin.element

abbrev Along (items : List Item) (es : List RawElement) : Prop := List.Forall₂ Presents items es

def IsReadAs (g : Goal) (e : RawElement) (Q : Node → Prop) : Prop := ∀ i, Presents i e → Succeeds (i.convert g) Q

abbrev Becomes (g : Goal) (n : Node) : Prop := IsReadAs g n.raw fun m => m.unnumbered = n.unnumbered

variable {i : Item} {e : RawElement} {es : List RawElement} {w text : String} {kind kind' : RawKind} {n : Node}
  {t : Token}

namespace Presents

theorem token (h : Presents i (.leaf ⟨t, false⟩)) :
    ∃ l, i.origin.element = .leaf l ∧ l.token.text = t.text ∧ l.token.kind = t.kind := by
  have bare := h.bare
  cases element : i.origin.element with
  | node kind role children => rw [element] at bare; cases bare
  | leaf l =>
    rw [element] at bare
    obtain rfl : l.token.bare = t := congrArg Leaf.token (RawElement.leaf.inj bare)
    exact ⟨l, rfl, rfl, rfl⟩

theorem leaf (h : Presents i (wordLeaf w)) :
    ∃ l, i.origin.element = .leaf l ∧ l.token.text = w ∧ l.token.kind = (wordToken w).kind := h.token

theorem node (h : Presents i e) (is : nodeKind? e = some kind) : nodeKind? i.origin.element = some kind := by
  have bare := h.bare
  cases element : i.origin.element with
  | node kind role children => rw [element] at bare; subst bare; exact is
  | leaf l => rw [element] at bare; subst bare; cases is

theorem noToken (h : Presents i e) (is : nodeKind? e = some kind) : tokenText? i.origin.element = none := by
  have node := h.node is
  cases element : i.origin.element with
  | node kind role children => rfl
  | leaf l => rw [element] at node; cases node

end Presents

namespace Along

theorem head (h : Along items (e :: es)) : ∃ i items', items = i :: items' ∧ Presents i e ∧ Along items' es := by
  cases h with
  | cons first behind => exact ⟨_, _, rfl, first, behind⟩

theorem eq_nil (h : Along items []) : items = [] := by
  cases h
  rfl

/-! What is seen of the first part. -/

theorem sees (h : Along items (wordLeaf w :: es)) : seesToken text 0 items = (w == text) := by
  obtain ⟨i, items', rfl, first, _⟩ := h.head
  obtain ⟨l, is, rfl, _⟩ := first.leaf
  simp [seesToken, is, tokenText?]

theorem seesSecond {e : RawElement} (h : Along items (e :: wordLeaf w :: es)) : seesToken w 1 items = true := by
  obtain ⟨i, items', rfl, _, behind⟩ := h.head
  exact behind.sees.trans (beq_self_eq_true w)

theorem seesNone (h : Along items (e :: es)) (is : nodeKind? e = some kind) : seesToken text 0 items = false := by
  obtain ⟨i, items', rfl, first, _⟩ := h.head
  simp [seesToken, first.noToken is]

theorem seesName (h : Along items (wordLeaf w :: es)) (is : Lexer.isIdentifier w = true) :
    seesKind .identifier items = true := by
  obtain ⟨i, items', rfl, first, _⟩ := h.head
  obtain ⟨l, leaf, _, name⟩ := first.leaf
  simp [seesKind, leaf, name, wordToken, is]

theorem node (h : Along items (e :: es)) (is : nodeKind? e = some kind) : seesNode kind' items = (kind == kind') := by
  obtain ⟨i, items', rfl, first, _⟩ := h.head
  simp [seesNode, first.node is]

theorem noNode (h : Along items (wordLeaf w :: es)) : seesNode kind items = false := by
  obtain ⟨i, items', rfl, first, _⟩ := h.head
  obtain ⟨l, leaf, _⟩ := first.leaf
  simp [seesNode, leaf, nodeKind?]

/-! What is taken. -/

theorem token (h : Along items (wordLeaf w :: es)) :
    Obtains (token w) o items fun i items' => Presents i (wordLeaf w) ∧ Along items' es := by
  have seen : seesToken w 0 items = true := h.sees.trans (beq_self_eq_true w)
  obtain ⟨i, items', rfl, first, behind⟩ := h.head
  exact .rest (.yes seen (.set (.pure ⟨first, behind⟩)))

theorem tokenDue {test : Bool} (h : Along items (wordLeaf w :: es)) (due : test = true) :
    Obtains (tokenIf test w) o items fun _ items' => Along items' es := by
  refine .bind (R := fun _ items' => Along items' es) (.due due (h.token.mono ?_)) fun _ _ behind => .pure behind
  rintro i items' ⟨_, behind⟩
  exact behind

theorem tokenNotDue {test : Bool} (h : Along items es) (not : test = false) :
    Obtains (tokenIf test w) o items fun _ items' => Along items' es :=
  .bind (R := fun _ items' => Along items' es) (.notDue not h) fun _ _ same => .pure same

theorem skip (h : Along items (wordLeaf w :: es)) :
    Obtains (skipToken w) o items fun found items' => found = true ∧ Along items' es := by
  have seen : seesToken w 0 items = true := h.sees.trans (beq_self_eq_true w)
  refine .bind (R := fun i items' => i.isSome = true ∧ Along items' es) (.rest (.due seen (h.token.mono ?_))) ?_
  · rintro i items' ⟨_, behind⟩
    exact ⟨rfl, behind⟩
  · rintro i items' ⟨some, behind⟩
    exact .pure ⟨some, behind⟩

theorem noSkip (h : Along items es) (unseen : seesToken w 0 items = false) :
    Obtains (skipToken w) o items fun found items' => found = false ∧ Along items' es := by
  refine .bind (R := fun i items' => i = none ∧ items' = items) (.rest (.notDue unseen ⟨rfl, rfl⟩)) ?_
  rintro _ _ ⟨rfl, rfl⟩
  exact .pure ⟨rfl, h⟩

theorem keyword (h : Along items (wordLeaf w :: es)) : Obtains (keyword w) o items fun n items' =>
    n.unnumbered = .mk 0 (.kind .keyword) [(.text, .text w)] [] ∧ Along items' es := by
  refine .bind h.token ?_
  rintro i items' ⟨_, behind⟩
  exact made_obtains (fun _ => rfl) fun _ => ⟨rfl, behind⟩

theorem keywordOf {spellings : List String} (h : Along items (.leaf ⟨t, false⟩ :: es)) (known : t.text ∈ spellings) :
    Obtains (keywordOf spellings) o items fun n items' =>
      (∃ id, n = .mk id (.kind .keyword) [(.text, .text t.text)] []) ∧ Along items' es := by
  obtain ⟨i, items', rfl, first, behind⟩ := h.head
  obtain ⟨l, leaf, text, _⟩ := first.token
  refine .bind (R := fun j items'' => j = i ∧ items'' = items') ?_ ?_
  · exact .rest (.yes (by simp [leaf, tokenText?]) (.set (.pure ⟨rfl, rfl⟩)))
  · rintro _ _ ⟨rfl, rfl⟩
    refine .yes (by simp [leaf, tokenText?, text, known]) ?_
    simp only [leaf, tokenText?, Option.getD_some, text]
    exact made_obtains (fun _ => rfl) fun id => ⟨⟨id, rfl⟩, behind⟩

theorem optionalKeyword (h : Along items (wordLeaf w :: es)) : Obtains (optionalKeyword w) o items fun n items' =>
    n.map Node.unnumbered = some (.mk 0 (.kind .keyword) [(.text, .text w)] []) ∧ Along items' es := by
  have seen : seesToken w 0 items = true := h.sees.trans (beq_self_eq_true w)
  refine .rest (.due seen (h.keyword.mono ?_))
  rintro n items' ⟨same, behind⟩
  exact ⟨congrArg some same, behind⟩

theorem noKeyword (h : Along items es) (unseen : seesToken w 0 items = false) :
    Obtains (Conversion.optionalKeyword w) o items fun n items' => n = none ∧ Along items' es :=
  .rest (.notDue unseen ⟨rfl, h⟩)

theorem nameExpression (h : Along items (wordLeaf w :: es)) (is : Lexer.isIdentifier w = true) :
    Obtains name o items fun n items' =>
      (∃ id, n = .mk id (.kind .nameExpression) [(.text, .text w)] []) ∧ Along items' es := by
  have seen := h.seesName is
  obtain ⟨i, items', rfl, first, behind⟩ := h.head
  obtain ⟨l, leaf, rfl, _⟩ := first.leaf
  refine .rest (.yes seen ?_)
  refine .bind (R := fun j items'' => j = i ∧ items'' = items') ?_ ?_
  · exact .rest (.yes (by simp [leaf, tokenText?]) (.set (.pure ⟨rfl, rfl⟩)))
  · rintro _ _ ⟨rfl, rfl⟩
    rw [leaf]
    exact made_obtains (name_sound is) fun id => ⟨⟨id, rfl⟩, behind⟩

theorem name (h : Along items (wordLeaf w :: es)) (is : Lexer.isIdentifier w = true) :
    Obtains name o items fun n items' =>
      n.unnumbered = .mk 0 (.kind .nameExpression) [(.text, .text w)] [] ∧ Along items' es := by
  refine (h.nameExpression is).mono ?_
  rintro _ items' ⟨⟨id, rfl⟩, behind⟩
  exact ⟨rfl, behind⟩

theorem part (h : Along items (n.raw :: es)) (is : nodeKind? n.raw = some kind) (reads : Becomes .part n) :
    Obtains (part kind) o items fun m items' => m.unnumbered = n.unnumbered ∧ Along items' es := by
  have seen : seesNode kind items = true := (h.node is).trans (beq_self_eq_true kind)
  obtain ⟨i, items', rfl, first, behind⟩ := h.head
  refine .bind (R := fun j items'' => j = i ∧ items'' = items') ?_ ?_
  · exact .rest (.yes seen (.set (.pure ⟨rfl, rfl⟩)))
  · rintro j _ ⟨rfl, rfl⟩
    refine (Obtains.lift (reads j first)).mono ?_
    rintro m _ ⟨same, rfl⟩
    exact ⟨same, behind⟩

theorem noPart (h : Along items es) (unseen : seesNode kind items = false) :
    Obtains (optionalPart kind) o items fun n items' => n = none ∧ Along items' es :=
  .rest (.notDue unseen ⟨rfl, h⟩)

/-- A part that may be missing. -/
theorem optionalPart {m : Option Node} (h : Along items (m.toList.map Node.raw ++ es))
    (each : ∀ n ∈ m, nodeKind? n.raw = some kind ∧ Becomes .part n)
    (other : ∀ items', Along items' es → seesNode kind items' = false) :
    Obtains (optionalPart kind) o items fun n items' =>
      n.map Node.unnumbered = m.map Node.unnumbered ∧ Along items' es := by
  cases m with
  | none => exact .rest (.notDue (other items h) ⟨rfl, h⟩)
  | some n =>
    obtain ⟨is, reads⟩ := each n rfl
    have seen : seesNode kind items = true := (node h is).trans (beq_self_eq_true kind)
    refine .rest (.due seen ((part h is reads).mono ?_))
    rintro n' items' ⟨same, behind⟩
    exact ⟨congrArg some same, behind⟩

theorem nextAs {g : Goal} {Q : Node → Prop} (h : Along items (e :: es)) (reads : IsReadAs g e Q) :
    Obtains (nextAs g) o items fun m items' => Q m ∧ Along items' es := by
  obtain ⟨i, items', rfl, first, behind⟩ := h.head
  refine .bind (R := fun j items'' => j = i ∧ items'' = items') (.rest (.set (.pure ⟨rfl, rfl⟩))) ?_
  rintro j _ ⟨rfl, rfl⟩
  refine (Obtains.lift (reads j first)).mono ?_
  rintro m _ ⟨same, rfl⟩
  exact ⟨same, behind⟩

end Along

end Conversion

end KotlinSyntax
