import KotlinSyntax.Proofs.Conversion.Reading
import KotlinSyntax.Proofs.Traversal

/-! What a reading records. Each step records the trees of the nodes that it gives, every node after what it holds,
so the nodes that wait for their parent are all that was recorded since the reading began. -/
namespace KotlinSyntax.Conversion

open Node

variable {α β : Type}

def listing (ns : List Node) : List Node := ns.flatMap Node.postorder

@[simp] theorem listing_nil : listing [] = [] := rfl

@[simp] theorem listing_append (ns ms : List Node) : listing (ns ++ ms) = listing ns ++ listing ms :=
  List.flatMap_append

theorem listing_made (id : Nat) (tag : Tag) (scalars : List (Field × Scalar)) (children : List (Field × Node)) :
    listing [.mk id tag scalars children] = listing (children.map (·.2)) ++ [.mk id tag scalars children] := by
  simp only [listing, List.flatMap_cons, List.flatMap_nil, List.append_nil, postorder, postorderAll_eq,
    List.flatMap_map]

/-- Between the two states the trees were made, and each of their nodes was recorded once and in this order. -/
structure Records (s s' : State) (ns : List Node) : Prop where
  told : ∃ told : List Event, s'.events = told.reverse ++ s.events ∧ told.map (·.node) = listing ns
  ids : (listing ns).map (·.id) = List.range' s.nextId (listing ns).length
  next : s'.nextId = s.nextId + (listing ns).length
  arranged : ∀ n ∈ ns, n.Arranged

namespace Records

variable {s s₁ s₂ : State} {ns ms : List Node}

theorem refl (s : State) : Records s s [] := ⟨⟨[], rfl, rfl⟩, rfl, rfl, by simp⟩

theorem trans (h : Records s s₁ ns) (k : Records s₁ s₂ ms) : Records s s₂ (ns ++ ms) := by
  obtain ⟨told, events, nodes⟩ := h.told
  obtain ⟨told', events', nodes'⟩ := k.told
  refine ⟨⟨told ++ told', ?_, ?_⟩, ?_, ?_, ?_⟩
  · rw [events', events, List.reverse_append, List.append_assoc]
  · rw [List.map_append, nodes, nodes', listing_append]
  · rw [listing_append, List.map_append, h.ids, k.ids, h.next, List.length_append, List.range'_append_1]
  · rw [k.next, h.next, listing_append, List.length_append, Nat.add_assoc]
  · intro n member
    rcases List.mem_append.mp member with first | second
    · exact h.arranged n first
    · exact k.arranged n second

/-- A new node takes the place of the nodes that it holds. -/
theorem made {k : Kind} {scalars : List (Field × Scalar)} {children : List (Field × Node)} {origin : Option Origin}
    (h : Records s s₁ (ns ++ children.map (·.2))) (order : arrange k children = children)
    (event : s₂.events = ⟨.mk s₁.nextId (.kind k) scalars children, origin⟩ :: s₁.events)
    (next : s₂.nextId = s₁.nextId + 1) : Records s s₂ (ns ++ [.mk s₁.nextId (.kind k) scalars children]) := by
  have whole : listing (ns ++ [.mk s₁.nextId (.kind k) scalars children]) =
      listing (ns ++ children.map (·.2)) ++ [.mk s₁.nextId (.kind k) scalars children] := by
    rw [listing_append, listing_append, listing_made, List.append_assoc]
  obtain ⟨told, events, nodes⟩ := h.told
  refine ⟨⟨told ++ [⟨.mk s₁.nextId (.kind k) scalars children, origin⟩], ?_, ?_⟩, ?_, ?_, ?_⟩
  · rw [event, events, List.reverse_append]
    rfl
  · rw [whole, List.map_append, nodes]
    rfl
  · rw [whole, List.map_append, h.ids, List.length_append, ← List.range'_append_1]
    simp [h.next, Node.id]
  · rw [next, whole, List.length_append, ← Nat.add_assoc, ← h.next]
    rfl
  · intro n member
    rcases List.mem_append.mp member with first | last
    · exact h.arranged n (List.mem_append_left _ first)
    · rw [List.mem_singleton.mp last]
      refine arranged_mk order fun c inside => h.arranged c.2 ?_
      exact List.mem_append_right _ (List.mem_map_of_mem inside)

end Records

/-- One conversion after the other leaves the parts alone. -/
theorem liftM_bind_liftM (c : Convert α) (f : α → Convert β) :
    (do let a ← c; f a : Reading β) = liftM (c >>= f) := by
  funext o items s
  change EStateM.bind (EStateM.bind c fun a => EStateM.pure (a, items))
    (fun answer => EStateM.bind (f answer.1) fun b => EStateM.pure (b, answer.2)) s =
    EStateM.bind (EStateM.bind c f) (fun b => EStateM.pure (b, items)) s
  simp only [EStateM.bind]
  cases c s <;> rfl

/-- A node that is made gets the next number and is recorded at once. -/
theorem make_emit_run (k : Kind) (scalars : List (Field × Scalar)) (children : List (Field × Node))
    (origin : Option Origin) (s : State) : (make k scalars children >>= emit origin) s =
      match Node.make s.nextId k scalars children with
      | .ok n => .ok n { s with nextId := s.nextId + 1, events := ⟨n, origin⟩ :: s.events }
      | .error e => .error (.node e) { s with nextId := s.nextId + 1 } := by
  have first : make k scalars children s = match Node.make s.nextId k scalars children with
      | .ok n => .ok n { s with nextId := s.nextId + 1 }
      | .error e => .error (.node e) { s with nextId := s.nextId + 1 } := by
    change (match Node.make s.nextId k scalars children with
      | .ok n => (Pure.pure n : Convert Node)
      | .error e => (throw (ConversionError.node e) : Convert Node)) { s with nextId := s.nextId + 1 } = _
    cases Node.make s.nextId k scalars children <;> rfl
  change EStateM.bind (make k scalars children) (emit origin) s = _
  rw [EStateM.bind, first]
  cases Node.make s.nextId k scalars children <;> rfl

def Recording (c : Convert Node) : Prop :=
  ∀ s, match c s with
    | .ok n s' => Records s s' [n]
    | .error _ _ => True

def Item.Recorded (i : Item) : Prop := ∀ goal, Recording (i.convert goal)

/-- From when the nodes wait for their parent, the rule leaves other nodes to wait, and takes parts from the front. -/
def Tells (r : Reading α) (o : Owner) (ns : List Node) (items : List Item)
    (Q : α → List Node → List Item → Prop) : Prop :=
  (∀ i ∈ items, i.Recorded) → ∀ s₀ s, Records s₀ s ns → match r o items s with
    | .ok (a, items') s' => items' <:+ items ∧ ∃ ns', Records s₀ s' ns' ∧ Q a ns' items'
    | .error _ _ => True

namespace Tells

variable {o : Owner} {ns ms : List Node} {items : List Item} {Q R : α → List Node → List Item → Prop}

theorem mono {r : Reading α} (h : Tells r o ns items R) (weaker : ∀ a ns' items', R a ns' items' → Q a ns' items') :
    Tells r o ns items Q := by
  intro recorded s₀ s waiting
  have holds := h recorded s₀ s waiting
  revert holds
  cases r o items s with
  | error e s' => exact id
  | ok answer s' =>
    rintro ⟨suffix, ns', records, holds⟩
    exact ⟨suffix, ns', records, weaker _ _ _ holds⟩

theorem pure {a : α} (h : Q a ns items) : Tells (Pure.pure a) o ns items Q :=
  fun _ _ _ waiting => ⟨List.suffix_rfl, ns, waiting, h⟩

theorem bind {r : Reading α} {f : α → Reading β} {Q : β → List Node → List Item → Prop} (first : Tells r o ns items R)
    (next : ∀ a ns' items', R a ns' items' → Tells (f a) o ns' items' Q) : Tells (r >>= f) o ns items Q := by
  intro recorded s₀ s waiting
  have holds := first recorded s₀ s waiting
  change match EStateM.bind (r o items) (fun answer => f answer.1 o answer.2) s with
    | .ok (a, items') s' => items' <:+ items ∧ ∃ ns', Records s₀ s' ns' ∧ Q a ns' items'
    | .error _ _ => True
  rw [EStateM.bind]
  revert holds
  cases r o items s with
  | error e s' => exact id
  | ok answer s' =>
    rintro ⟨suffix, ns', records, holds⟩
    have further := next _ _ _ holds (fun i member => recorded i (suffix.subset member)) s₀ s' records
    revert further
    simp only
    cases f answer.1 o answer.2 s' with
    | error e s'' => exact id
    | ok answer' s'' =>
      rintro ⟨suffix', after⟩
      exact ⟨suffix'.trans suffix, after⟩

theorem map {r : Reading α} {f : α → β} {Q : β → List Node → List Item → Prop}
    (h : Tells r o ns items fun a ns' items' => Q (f a) ns' items') : Tells (f <$> r) o ns items Q :=
  bind h fun _ _ _ holds => pure holds

theorem rest {f : List Item → Reading β} {Q : β → List Node → List Item → Prop} (h : Tells (f items) o ns items Q) :
    Tells (rest >>= f) o ns items Q :=
  bind (R := fun is ns' items' => is = items ∧ ns' = ns ∧ items' = items)
    (fun _ _ _ waiting => ⟨List.suffix_rfl, ns, waiting, rfl, rfl, rfl⟩) (by
    rintro _ _ _ ⟨rfl, rfl, rfl⟩
    exact h)

theorem read {f : Owner → Reading β} {Q : β → List Node → List Item → Prop} (h : Tells (f o) o ns items Q) :
    Tells (MonadReader.read >>= f) o ns items Q :=
  bind (R := fun p ns' items' => p = o ∧ ns' = ns ∧ items' = items)
    (fun _ _ _ waiting => ⟨List.suffix_rfl, ns, waiting, rfl, rfl, rfl⟩) (by
    rintro _ _ _ ⟨rfl, rfl, rfl⟩
    exact h)

theorem set {is : List Item} {f : PUnit → Reading β} {Q : β → List Node → List Item → Prop} (suffix : is <:+ items)
    (h : Tells (f ⟨⟩) o ns is Q) : Tells (MonadStateOf.set is >>= f) o ns items Q :=
  bind (R := fun _ ns' items' => ns' = ns ∧ items' = is) (fun _ _ _ waiting => ⟨suffix, ns, waiting, rfl, rfl⟩) (by
    rintro _ _ _ ⟨rfl, rfl⟩
    exact h)

theorem throw {e : ConversionError} : Tells (throw e) o ns items Q := fun _ _ _ _ => trivial

theorem mismatch {expected : String} : Tells (mismatch expected) o ns items Q := read (rest throw)

theorem ite {c : Prop} [Decidable c] {r k : Reading α} (yes : c → Tells r o ns items Q)
    (no : ¬c → Tells k o ns items Q) : Tells (if c then r else k) o ns items Q := by
  split
  · rename_i h
    exact yes h
  · rename_i h
    exact no h

/-- A conversion on its own leaves the parts alone. -/
theorem lift {c : Convert α} {P : α → List Node → Prop} (h : ∀ s₀ s, Records s₀ s ns → match c s with
      | .ok a s' => ∃ ns', Records s₀ s' ns' ∧ P a ns'
      | .error _ _ => True) :
    Tells (liftM c) o ns items fun a ns' items' => P a ns' ∧ items' = items := by
  intro _ s₀ s waiting
  have holds := h s₀ s waiting
  have run : (liftM c : Reading α) o items s = EStateM.bind c (fun a => EStateM.pure (a, items)) s := rfl
  rw [run, EStateM.bind]
  revert holds
  cases c s with
  | error e s' => exact id
  | ok a s' =>
    rintro ⟨ns', records, holds⟩
    exact ⟨List.suffix_rfl, ns', records, holds, rfl⟩

/-- A part in front is converted. -/
theorem convert {i : Item} (recorded : i.Recorded) {goal : Goal} :
    Tells (liftM (i.convert goal)) o ns items fun n ns' _ => ns' = ns ++ [n] := by
  refine (lift (P := fun n ns' => ns' = ns ++ [n]) fun s₀ s waiting => ?_).mono fun _ _ _ holds => holds.1
  have holds := recorded goal s
  revert holds
  cases i.convert goal s with
  | error e s' => exact id
  | ok n s' => exact fun holds => ⟨ns ++ [n], waiting.trans holds, rfl⟩

/-- A new node takes the place of the nodes that it holds. -/
theorem made {k : Kind} {scalars : List (Field × Scalar)} {children : List (Field × Node)} {origin : Option Origin}
    (pending : ms = ns ++ children.map (·.2)) (order : arrange k children = children) :
    Tells (do let n ← make k scalars children; emit origin n) o ms items fun n ns' _ => ns' = ns ++ [n] := by
  subst pending
  rw [liftM_bind_liftM]
  refine (lift (P := fun n ns' => ns' = ns ++ [n]) fun s₀ s waiting => ?_).mono fun _ _ _ holds => holds.1
  rw [make_emit_run]
  cases built : Node.make s.nextId k scalars children with
  | error e => trivial
  | ok n =>
    obtain ⟨rfl, -⟩ := make_ok built
    exact ⟨_, waiting.made order rfl rfl, rfl⟩

theorem build (ns : List Node) {k : Kind} {scalars : List (Field × Scalar)} {children : List (Field × Node)}
    (pending : ms = ns ++ children.map (·.2)) (order : arrange k children = children) :
    Tells (build k scalars children) o ms items fun n ns' _ => ns' = ns ++ [n] := by
  have same : Conversion.build k scalars children o =
      (do let n ← make k scalars children; emit o.origin n : Reading Node) o := rfl
  unfold Tells
  rw [same]
  exact made pending order

theorem implied (ns : List Node) {k : Kind} {children : List (Field × Node)}
    (pending : ms = ns ++ children.map (·.2)) (order : arrange k children = children) :
    Tells (implied k children) o ms items fun n ns' _ => ns' = ns ++ [n] := made pending order

/-- What is left are the last parts. -/
theorem leaving {r : Reading α} (h : Tells r o ns items Q) :
    Tells r o ns items fun a ns' items' => Q a ns' items' ∧ items' <:+ items := by
  intro recorded s₀ s waiting
  have holds := h recorded s₀ s waiting
  revert holds
  cases r o items s with
  | error e s' => exact id
  | ok answer s' =>
    rintro ⟨suffix, ns', records, holds⟩
    exact ⟨suffix, ns', records, holds, suffix⟩

theorem whenRecorded {r : Reading α} (h : (∀ i ∈ items, i.Recorded) → Tells r o ns items Q) : Tells r o ns items Q :=
  fun recorded => h recorded recorded

end Tells

def Gives (shown : α → List Node) (r : Reading α) : Prop :=
  ∀ o ns items, Tells r o ns items fun a ns' _ => ns' = ns ++ shown a

/-- The step gives something, and the rule goes on. -/
theorem Tells.step {r : Reading α} {f : α → Reading β} {shown : α → List Node} {o : Owner} {ns : List Node}
    {items : List Item} {Q : β → List Node → List Item → Prop} (h : Gives shown r)
    (next : ∀ a items', Tells (f a) o (ns ++ shown a) items' Q) : Tells (r >>= f) o ns items Q := by
  refine .bind (h o ns items) ?_
  rintro a _ items' rfl
  exact next a items'

/-! Single parts. -/

section Steps

variable {text : String} {kind : RawKind} {due : Bool} {rule : Reading Node}

theorem token_tells {o : Owner} {ns : List Node} {items : List Item} :
    Tells (token text) o ns items fun i ns' items' => ns' = ns ∧ items = i :: items' := by
  refine .rest ?_
  cases items with
  | nil => exact .mismatch
  | cons i is =>
    refine .ite (fun _ => ?_) fun _ => .mismatch
    exact .set (List.suffix_cons i is) (.pure ⟨rfl, rfl⟩)

theorem token_gives : Gives (fun _ => []) (token text) :=
  fun _ ns _ => token_tells.mono fun _ _ _ holds => holds.1.trans (List.append_nil ns).symm

theorem anyToken_gives : Gives (fun _ => []) anyToken := by
  intro o ns items
  refine .rest ?_
  cases items with
  | nil => exact .mismatch
  | cons i is =>
    refine .ite (fun _ => ?_) fun _ => .mismatch
    exact .set (List.suffix_cons i is) (.pure (List.append_nil ns).symm)

theorem close_gives : Gives (fun _ => []) close := by
  intro o ns items
  exact .rest (.ite (fun _ => .mismatch) fun _ => .pure (List.append_nil ns).symm)

theorem onlyIf_gives {shown : α → List Node} {r : Reading α} (h : Gives shown r) :
    Gives (fun a => (a.map shown).getD []) (onlyIf due r) := by
  intro o ns items
  refine .ite (fun _ => .map (h o ns items)) fun _ => .pure ?_
  simp

theorem optional_gives (h : Gives ([·]) rule) : Gives Option.toList (onlyIf due rule) := by
  intro o ns items
  refine (onlyIf_gives h o ns items).mono ?_
  rintro (_ | n) _ _ rfl <;> rfl

theorem tokenIf_gives : Gives (fun _ => []) (tokenIf due text) := by
  intro o ns items
  refine .bind (onlyIf_gives token_gives o ns items) ?_
  rintro i _ _ rfl
  exact .pure (by cases i <;> rfl)

theorem skipToken_gives : Gives (fun _ => []) (skipToken text) := by
  intro o ns items
  refine .bind (.rest (onlyIf_gives token_gives o ns items)) ?_
  rintro i _ _ rfl
  exact .pure (by cases i <;> rfl)

/-- A part in front, with what is known of it. -/
theorem node_tells {o : Owner} {ns : List Node} {items : List Item} :
    Tells (node kind) o ns items fun i ns' _ => ns' = ns ∧ i.Recorded := by
  refine .whenRecorded fun recorded => .rest ?_
  cases items with
  | nil => exact .mismatch
  | cons i is =>
    refine .ite (fun _ => ?_) fun _ => .mismatch
    exact .set (List.suffix_cons i is) (.pure ⟨rfl, recorded i (List.mem_cons_self ..)⟩)

theorem next_tells {o : Owner} {ns : List Node} {items : List Item} :
    Tells next o ns items fun i ns' _ => ns' = ns ∧ i.Recorded := by
  refine .whenRecorded fun recorded => .rest ?_
  cases items with
  | nil => exact .mismatch
  | cons i is => exact .set (List.suffix_cons i is) (.pure ⟨rfl, recorded i (List.mem_cons_self ..)⟩)

theorem part_gives : Gives ([·]) (part kind) := by
  intro o ns items
  refine .bind node_tells ?_
  rintro i _ items' ⟨rfl, recorded⟩
  exact .convert recorded

theorem nextAs_gives {goal : Goal} : Gives ([·]) (nextAs goal) := by
  intro o ns items
  refine .bind next_tells ?_
  rintro i _ items' ⟨rfl, recorded⟩
  exact .convert recorded

theorem optionalPart_gives : Gives Option.toList (optionalPart kind) :=
  fun o ns items => .rest (optional_gives part_gives o ns items)

theorem modifiers_gives : Gives Option.toList modifiers := optionalPart_gives

theorem keywordFor_gives {i : Item} : Gives ([·]) (keywordFor text i) :=
  fun _ ns _ => .made (List.append_nil ns).symm rfl

theorem keyword_gives : Gives ([·]) (keyword text) := by
  intro o ns items
  refine .step token_gives fun i items => ?_
  rw [List.append_nil]
  exact keywordFor_gives o ns items

theorem optionalKeyword_gives : Gives Option.toList (optionalKeyword text) :=
  fun o ns items => .rest (optional_gives keyword_gives o ns items)

theorem keywordOf_gives {spellings : List String} : Gives ([·]) (keywordOf spellings) := by
  intro o ns items
  refine .step anyToken_gives fun i items => ?_
  rw [List.append_nil]
  exact .ite (fun _ => keywordFor_gives o ns items) fun _ => .mismatch

theorem name_gives : Gives ([·]) name := by
  intro o ns items
  refine .rest (.ite (fun _ => ?_) fun _ => .mismatch)
  refine .step anyToken_gives fun i items => ?_
  rw [List.append_nil]
  exact .made (List.append_nil ns).symm rfl

theorem optionalName_gives : Gives Option.toList optionalName :=
  fun o ns items => .rest (optional_gives name_gives o ns items)

/-- A part behind a token that announces it. -/
theorem announced_gives (h : Gives ([·]) rule) :
    Gives Option.toList (do onlyIf (← skipToken text) rule) := by
  intro o ns items
  refine .step skipToken_gives fun due items => ?_
  rw [List.append_nil]
  exact optional_gives h o ns items

theorem label_gives : Gives Option.toList label := announced_gives name_gives

theorem optionalType_gives : Gives Option.toList optionalType := announced_gives part_gives

/-! Runs of parts. -/

theorem whileSees_gives {allowed : List Item → Bool} (h : Gives ([·]) rule) :
    Gives (fun as => as) (whileSees allowed rule) := by
  have rounds (n : Nat) : Gives (fun as => as) (whileSees.rounds allowed rule n) := by
    induction n with
    | zero => exact fun o ns items => .pure (List.append_nil ns).symm
    | succ n ih =>
      intro o ns items
      refine .rest (.ite (fun _ => ?_) fun _ => .pure (List.append_nil ns).symm)
      refine .step h fun a items => ?_
      refine .step ih fun as items => ?_
      exact .pure (by simp)
  exact fun o ns items => .rest (rounds _ o ns items)

theorem annotationSets_gives : Gives (fun as => as) annotationSets := whileSees_gives part_gives

/-- All nodes of a list, with the comma at its end. -/
def listed (list : List Node × Option Node) : List Node := list.1 ++ list.2.toList

theorem separated_gives {closing : Option String} (h : Gives ([·]) rule) : Gives listed (separated closing rule) := by
  have rounds (n : Nat) : Gives listed (separated.rounds closing rule n) := by
    induction n with
    | zero => exact fun o ns items => .pure (List.append_nil ns).symm
    | succ n ih =>
      intro o ns items
      refine .rest (.ite (fun _ => .pure (List.append_nil ns).symm) fun _ => .ite (fun _ => ?_) fun _ => ?_)
      · refine .step token_gives fun comma items => .rest (.ite (fun _ => ?_) fun _ => ?_)
        · refine .step keywordFor_gives fun n items => .pure ?_
          simp [listed]
        · rw [List.append_nil]
          exact ih o ns items
      · refine .step h fun a items => ?_
        refine .step ih fun list items => .pure ?_
        simp [listed]
  exact fun o ns items => .rest (rounds _ o ns items)

/-- No comma is at the end where the parts do not end in one. -/
theorem separated_undangling (h : Gives ([·]) rule) {o : Owner} {ns : List Node} {items : List Item}
    (last : ∀ i ∈ items.getLast?, i.origin.element.spells "," = false) :
    Tells (separated none rule) o ns items fun list ns' _ => ns' = ns ++ list.1 := by
  have rounds (n : Nat) (ns : List Node) (items : List Item)
      (last : ∀ i ∈ items.getLast?, i.origin.element.spells "," = false) :
      Tells (separated.rounds none rule n) o ns items fun list ns' _ => ns' = ns ++ list.1 := by
    induction n generalizing ns items with
    | zero => exact .pure (List.append_nil ns).symm
    | succ n ih =>
      refine .rest (.ite (fun _ => .pure (List.append_nil ns).symm) fun _ => .ite (fun comma => ?_) fun _ => ?_)
      · refine .bind token_tells ?_
        rintro i _ items' ⟨rfl, rfl⟩
        rw [seesToken_cons] at comma
        refine .rest (.ite (fun ends => ?_) fun _ => ih _ _ ?_)
        · have none : items' = [] := by simpa [listEnds] using ends
          subst none
          have plain := last i rfl
          rw [comma] at plain
          cases plain
        · intro j inside
          refine last j ?_
          cases items' with
          | nil => cases inside
          | cons k rest => rwa [List.getLast?_cons_cons]
      · refine .bind (h o ns items).leaving ?_
        rintro a _ items' ⟨rfl, suffix⟩
        refine .bind (ih _ _ fun j inside => last j ?_) ?_
        · obtain ⟨front, rfl⟩ := suffix
          exact List.mem_getLast?_append_of_mem_getLast? inside
        · rintro list _ _ rfl
          exact .pure (by simp)
  exact .rest (rounds _ _ _ last)

theorem bracketed_gives {opening closing : String} (h : Gives ([·]) rule) :
    Gives listed (bracketed opening closing rule) := by
  intro o ns items
  refine .step token_gives fun _ items => ?_
  refine .step (separated_gives h) fun list items => ?_
  refine .step token_gives fun _ items => .pure ?_
  simp

end Steps

/-! Nodes over what waits. -/

section Children

variable (f g : Field) (n : Node) (m : Option Node) (ns : List Node)

@[simp] theorem map_snd_one : (one f n).map (·.2) = [n] := rfl

@[simp] theorem map_snd_opt : (opt f m).map (·.2) = m.toList := by cases m <;> rfl

@[simp] theorem map_snd_many : (many f ns).map (·.2) = ns := by simp [many, Function.comp_def]

@[simp] theorem filter_one : (one g n).filter (·.1 == f) = if g = f then one g n else [] := by
  simp only [one, List.filter_cons, List.filter_nil, beq_iff_eq]

@[simp] theorem filter_opt : (opt g m).filter (·.1 == f) = if g = f then opt g m else [] := by
  cases m with
  | none => simp [opt]
  | some n => exact filter_one f g n

@[simp] theorem filter_many : (many g ns).filter (·.1 == f) = if g = f then many g ns else [] := by
  induction ns with
  | nil => simp [many]
  | cons n ns ih =>
    have split : many g (n :: ns) = one g n ++ many g ns := rfl
    rw [split, List.filter_append, ih, filter_one]
    split <;> rfl

end Children

theorem Tells.finish {k : Kind} {scalars : List (Field × Scalar)} {children : List (Field × Node)} {o : Owner}
    {ns ms : List Node} {items : List Item} (pending : ms = ns ++ children.map (·.2))
    (order : arrange k children = children) :
    Tells (finish k scalars children) o ms items fun n ns' _ => ns' = ns ++ [n] := by
  refine .step close_gives fun _ items => ?_
  rw [List.append_nil]
  exact .build _ pending order

theorem container_gives : Gives ([·]) container := by
  intro o ns items
  refine .step nextAs_gives fun e items => ?_
  exact .implied _ rfl (by simp [arrange, Kind.slots, Slot.one])

end KotlinSyntax.Conversion
