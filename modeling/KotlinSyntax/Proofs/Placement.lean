import Mathlib.Data.List.Perm.Basic
import KotlinSyntax.Proofs.Mutation.Renaming
import KotlinSyntax.Proofs.Plan.Token
import KotlinSyntax.Proofs.Record
import KotlinSyntax.Proofs.Source

/-! Where trivia goes. Each step of the placing takes leaves of trivia from the front of what is pending and adds
one extra for each of them behind what some node of the tree has already, so in the end the extras are the trivia
of the source, dealt out to nodes of the tree in source order. -/
namespace KotlinSyntax

theorem Node.postorder_perm (n : Node) : n.postorder.Perm n.preorder := by
  induction n using Node.induct with
  | mk id tag scalars children ih =>
    rw [postorder, preorder, postorderAll_eq, preorderAll_eq]
    exact (List.perm_append_singleton _ _).trans (.cons _ (.flatMap_left _ ih))

def Surroundings.standing (s : Surroundings) : Placement.Position → List Extra
  | .before => s.before
  | .within => s.within
  | .after => s.after

namespace ExtrasMap

variable {m : ExtrasMap} {id k : Nat} {s : Surroundings}

def held (m : ExtrasMap) (id : Nat) (p : Placement.Position) : List Extra := (m.get id).standing p

/-- The entries of one number are replaced, and the others are kept. -/
theorem lookup_replaced (entries : List (Nat × Surroundings)) (id k : Nat) (s : Surroundings) :
    (entries.map fun e => if e.1 == id then (id, s) else e).lookup k =
      if k = id then (entries.lookup k).map fun _ => s else entries.lookup k := by
  induction entries with
  | nil => simp
  | cons e rest ih =>
    obtain ⟨i, t⟩ := e
    rw [List.map_cons]
    by_cases asked : k = i
    · subst asked
      by_cases own : k = id <;> simp [own]
    · have differs : (k == i) = false := beq_false_of_ne asked
      by_cases own : i = id
      · subst own
        rw [if_pos (beq_self_eq_true i), List.lookup_cons, List.lookup_cons, differs, ih]
      · rw [if_neg (by simpa using own), List.lookup_cons, List.lookup_cons, differs, ih]

theorem get_insert : (m.insert id s).get k = if k = id then s else m.get k := by
  by_cases present : m.contains id = true
  · rw [insert, if_pos present]
    simp only [get, get?, lookup_replaced]
    by_cases own : k = id
    · subst own
      obtain ⟨t, found⟩ := Option.isSome_iff_exists.mp present
      rw [get?] at found
      simp [found]
    · rw [if_neg own, if_neg own]
  · rw [insert, if_neg present]
    by_cases own : k = id
    · simp [get, get?, own]
    · have differs : (k == id) = false := beq_false_of_ne own
      simp [get, get?, List.lookup_cons, differs, own]

theorem held_insert (p : Placement.Position) :
    (m.insert id s).held k p = if k = id then s.standing p else m.held k p := by
  rw [held, held, get_insert]
  split <;> rfl

theorem keys_insert : (m.insert id s).keys = if m.contains id then m.keys else id :: m.keys := by
  by_cases present : m.contains id = true
  · rw [insert, if_pos present, if_pos present, keys, List.map_map]
    refine List.map_congr_left fun e _ => ?_
    by_cases own : e.1 = id <;> simp [own]
  · rw [insert, if_neg present, if_neg present]
    rfl

end ExtrasMap

namespace Placement

/-- What a leaf of trivia stands as, with the text of the leaf. -/
inductive Becomes (l : Leaf) : Extra → Prop
  | whitespace (kind : l.token.kind = .whitespace) : Becomes l (.whitespace l.token.text)
  | comment (kind : l.token.kind = .lineComment ∨ l.token.kind = .blockComment) (startsLine endsLine : Bool) :
      Becomes l (.comment l.token.text startsLine endsLine)
  | semicolon (kind : l.token.kind = .semicolon) (text : l.token.text = ";") : Becomes l .semicolon
  | trailingComma (kind : l.token.kind.isTrivia = false) (text : l.token.text = ",") : Becomes l .trailingComma

def Spelled (l : Leaf) : Prop := l.token.kind = .semicolon → l.token.text = ";"

/-- An extra at its place, with the leaf that it stands for. -/
structure Placing where
  leaf : Leaf
  extra : Extra
  id : Nat
  position : Position

def placedAt (xs : List Placing) (id : Nat) (p : Position) : List Extra :=
  (xs.filter fun x => x.id == id && x.position == p).map (·.extra)

@[simp] theorem placedAt_nil (id : Nat) (p : Position) : placedAt [] id p = [] := rfl

@[simp] theorem placedAt_append (xs ys : List Placing) (id : Nat) (p : Position) :
    placedAt (xs ++ ys) id p = placedAt xs id p ++ placedAt ys id p := by
  simp [placedAt]

/-- What was placed was added behind what was there, and nothing else changed. -/
structure Adds (m m' : ExtrasMap) (xs : List Placing) : Prop where
  held : ∀ id p, m'.held id p = m.held id p ++ placedAt xs id p
  keys : ∀ k ∈ m'.keys, k ∈ m.keys ∨ ∃ x ∈ xs, x.id = k
  distinct : m.keys.Nodup → m'.keys.Nodup

namespace Adds

variable {m m₁ m₂ : ExtrasMap} {xs ys : List Placing}

theorem refl (m : ExtrasMap) : Adds m m [] := ⟨by simp, fun _ => .inl, id⟩

theorem trans (h : Adds m m₁ xs) (k : Adds m₁ m₂ ys) : Adds m m₂ (xs ++ ys) := by
  refine ⟨fun id p => ?_, fun i member => ?_, fun distinct => k.distinct (h.distinct distinct)⟩
  · rw [k.held, h.held, placedAt_append, List.append_assoc]
  · rcases k.keys i member with member | ⟨y, inside, is⟩
    · rcases h.keys i member with member | ⟨x, inside, is⟩
      · exact .inl member
      · exact .inr ⟨x, List.mem_append_left _ inside, is⟩
    · exact .inr ⟨y, List.mem_append_right _ inside, is⟩

end Adds

def placings (id : Nat) (p : Position) (run : Run) : List Placing := run.map fun x => ⟨x.1, x.2, id, p⟩

theorem placedAt_placings (id : Nat) (p : Position) (run : Run) (k : Nat) (q : Position) :
    placedAt (placings id p run) k q = if id = k ∧ p = q then run.map (·.2) else [] := by
  by_cases there : id = k ∧ p = q
  · rw [if_pos there]
    simp [placedAt, placings, List.filter_map, there, Function.comp_def]
  · rw [if_neg there, placedAt, placings, List.filter_map]
    simp [there]

/-- A run that stands behind what a node had at one position was added there. -/
theorem Adds.insert {m : ExtrasMap} {id : Nat} {around : Surroundings} {p : Position} {first : Leaf × Extra}
    {more : Run} (behind : ∀ q, around.standing q = m.held id q ++ if p = q then (first :: more).map (·.2) else []) :
    Adds m (m.insert id around) (placings id p (first :: more)) := by
  refine ⟨fun k q => ?_, fun k member => ?_, fun distinct => ?_⟩
  · rw [ExtrasMap.held_insert, placedAt_placings]
    by_cases own : k = id
    · subst own
      rw [if_pos rfl, behind]
      simp
    · have other : ¬ (id = k ∧ p = q) := fun same => own same.1.symm
      rw [if_neg own, if_neg other, List.append_nil]
  · rw [ExtrasMap.keys_insert] at member
    split at member
    · exact .inl member
    · rcases List.mem_cons.mp member with rfl | member
      · exact .inr ⟨⟨first.1, first.2, k, p⟩, List.mem_cons_self .., rfl⟩
      · exact .inl member
  · rw [ExtrasMap.keys_insert]
    split
    · exact distinct
    · rename_i absent
      exact List.nodup_cons.mpr ⟨fun member => absent (ExtrasMap.contains_iff.mpr member), distinct⟩

/-! Actions of the placing. All nodes that stand for elements have numbers of one kind: those of the tree, as it turns
out when the conversion is looked at. -/

variable {α β : Type} {s s' : State}

theorem bind_ok {c : Place α} {f : α → Place β} {r : β × State} (h : (c >>= f) s = .ok r) :
    ∃ a s₁, c s = .ok (a, s₁) ∧ f a s₁ = .ok r := by
  change Except.bind (c s) (fun answer => f answer.1 answer.2) = .ok r at h
  cases first : c s with
  | error e =>
    rw [first] at h
    cases h
  | ok answer =>
    rw [first] at h
    exact ⟨answer.1, answer.2, rfl, h⟩

variable {here : Nat → Prop} {run rest : Run} {c d : Place Unit}

/-- The action places the run at such nodes, and takes nothing that is pending. -/
def Puts (here : Nat → Prop) (c : Place Unit) (run : Run) : Prop :=
  ∀ s s', c s = .ok ((), s') → s'.pending = s.pending ∧
    ∃ xs, xs.map (fun x => (x.leaf, x.extra)) = run ∧ (∀ x ∈ xs, here x.id) ∧ Adds s.extras s'.extras xs

namespace Puts

theorem nothing : Puts here (pure ()) [] := by
  intro s s' ran
  cases ran
  exact ⟨rfl, [], rfl, by simp, .refl _⟩

theorem seq (h : Puts here c run) (k : Puts here d rest) : Puts here (do c; d) (run ++ rest) := by
  intro s s' ran
  obtain ⟨⟨⟩, s₁, first, second⟩ := bind_ok ran
  obtain ⟨pending, xs, whole, homes, adds⟩ := h s s₁ first
  obtain ⟨pending', ys, whole', homes', adds'⟩ := k s₁ s' second
  refine ⟨pending'.trans pending, xs ++ ys, ?_, ?_, adds.trans adds'⟩
  · rw [List.map_append, whole, whole']
  · intro x member
    exact (List.mem_append.mp member).elim (homes x) (homes' x)

theorem append {n : Node} (home : here n.id) (p : Position) (run : Run) :
    Puts here (append n p (run.map (·.2))) run := by
  intro s s' ran
  cases run with
  | nil =>
    cases ran
    exact ⟨rfl, [], rfl, by simp, .refl _⟩
  | cons first more =>
    cases ran
    refine ⟨rfl, placings n.id p (first :: more), ?_, ?_, ?_⟩
    · simp [placings, Function.comp_def]
    · intro x member
      obtain ⟨_, _, rfl⟩ := List.mem_map.mp member
      exact home
    · refine .insert fun q => ?_
      cases p <;> cases q <;> simp [Surroundings.standing, ExtrasMap.held]

end Puts

theorem splitAfterLast_append {p : Leaf → Bool} {a b : Run} (h : splitAfterLast p run = some (a, b)) :
    a ++ b = run := by
  unfold splitAfterLast at h
  simp only at h
  split at h
  · cases h
  · cases h
    refine List.suffix_iff_eq_append.mp ?_
    rw [← List.reverse_prefix, List.reverse_reverse]
    exact List.takeWhile_prefix _

theorem splitAfterFirst_append {p : Leaf → Bool} {a b : Run} (h : splitAfterFirst p run = some (a, b)) :
    a ++ b = run := by
  unfold splitAfterFirst at h
  simp only at h
  split at h
  · cases h
  · cases h
    exact List.take_append_drop ..

/-- However a run is split, all of it goes to nodes that stand next to it or around it. -/
theorem place_puts {prev next : Option Node} {owner : Node} (behind : ∀ n ∈ prev, here n.id)
    (ahead : ∀ n ∈ next, here n.id) (home : here owner.id) (closing : Bool) (run : Run) :
    Puts here (place run prev next closing owner) run := by
  unfold place
  cases prev with
  | none =>
    cases next with
    | none => exact .append home .within run
    | some n => exact .append (ahead n rfl) .before run
  | some p =>
    cases next with
    | none =>
      cases split : (if closing then splitAfterFirst isLineBreak run else none) with
      | none =>
        simp only
        exact .append (behind p rfl) .after run
      | some parts =>
        obtain ⟨a, b⟩ := parts
        have whole : a ++ b = run := by
          cases closing with
          | false => cases split
          | true => exact splitAfterFirst_append split
        simp only
        rw [← whole]
        exact .seq (.append (behind p rfl) .after a) (.append home .within b)
    | some n =>
      cases split : splitAfterLast isSemicolon run with
      | none =>
        simp only
        exact .append (ahead n rfl) .before run
      | some parts =>
        obtain ⟨a, b⟩ := parts
        simp only
        rw [← splitAfterLast_append split]
        exact .seq (.append (behind p rfl) .after a) (.append (ahead n rfl) .before b)

theorem flush_puts {prev next : Option Node} {owner : Node} (behind : ∀ n ∈ prev, here n.id)
    (ahead : ∀ n ∈ next, here n.id) (home : here owner.id) (closing : Bool) (run : Run) :
    Puts here (flush run prev next closing owner) run := by
  cases run with
  | nil => exact .nothing
  | cons first more => exact place_puts behind ahead home closing (first :: more)

def Offers (stands : Leaf → Extra → Prop) (l : Leaf) (offer : Except PlacementError Extra) : Prop :=
  ∀ x, offer = .ok x → stands l x

/-- The action takes from the front of what is pending what is offered for the leaves, and places the run and, behind
it, all trivia of the leaves at such nodes. -/
def Collects (stands : Leaf → Extra → Prop) (here : Nat → Prop) (c : Place Unit) (run : Run) (ls : List Leaf) : Prop :=
  ∀ s s' offers left, List.Forall₂ (Offers stands) ls offers → s.pending = offers ++ left → c s = .ok ((), s') →
    s'.pending = left ∧ ∃ xs more, xs.map (fun x => (x.leaf, x.extra)) = run ++ more ∧
      more.map (·.1) = ls.filter (·.trivia) ∧ (∀ x ∈ more, stands x.1 x.2) ∧ (∀ x ∈ xs, here x.id) ∧
      Adds s.extras s'.extras xs

variable {stands : Leaf → Extra → Prop}

namespace Collects

variable {l : Leaf} {ls ms : List Leaf}

theorem ofPuts (h : Puts here c run) : Collects stands here c run [] := by
  intro s s' offers left offered pending ran
  cases offered
  obtain ⟨same, xs, whole, homes, adds⟩ := h s s' ran
  exact ⟨same.trans pending, xs, [], by rw [whole, List.append_nil], rfl, by simp, homes, adds⟩

theorem seq (h : Collects stands here c run ls) (k : Collects stands here d [] ms) :
    Collects stands here (do c; d) run (ls ++ ms) := by
  intro s s' offers left offered pending ran
  obtain ⟨⟨⟩, s₁, first, second⟩ := bind_ok ran
  have front := List.forall₂_take ls.length offered
  have back := List.forall₂_drop ls.length offered
  rw [List.take_left] at front
  rw [List.drop_left] at back
  rw [← List.take_append_drop ls.length offers, List.append_assoc] at pending
  obtain ⟨pending₁, xs, more, whole, leaves, becomes, homes, adds⟩ := h s s₁ _ _ front pending first
  obtain ⟨pending₂, ys, more', whole', leaves', becomes', homes', adds'⟩ := k s₁ s' _ left back pending₁ second
  refine ⟨pending₂, xs ++ ys, more ++ more', ?_, ?_, ?_, ?_, adds.trans adds'⟩
  · rw [List.map_append, whole, whole', List.nil_append, List.append_assoc]
  · rw [List.map_append, leaves, leaves', List.filter_append]
  · intro x member
    exact (List.mem_append.mp member).elim (becomes x) (becomes' x)
  · intro x member
    exact (List.mem_append.mp member).elim (homes x) (homes' x)

/-- A leaf that is no trivia is passed over. -/
theorem skip (plain : l.trivia = false) (h : Collects stands here d run ls) :
    Collects stands here (do let _ ← nextExtra; d) run (l :: ls) := by
  intro s s' offers left offered pending ran
  cases offered with
  | @cons _ offer _ offers _ offered =>
    obtain ⟨_, s₁, ⟨⟩, after⟩ := bind_ok ran
    rw [List.filter_cons_of_neg (by simp [plain])]
    exact h { s with pending := s.pending.tail } s' offers left offered (by simp [pending]) after

/-- A leaf of trivia joins the run as what is offered for it. -/
theorem take {d : Extra → Place Unit} (trivia : l.trivia = true)
    (h : ∀ x, Collects stands here (d x) (run ++ [(l, x)]) ls) :
    Collects stands here (do
      match ← nextExtra with
      | some (.ok x) => d x
      | some (.error e) => throw e
      | none => return) run (l :: ls) := by
  intro s s' offers left offered pending ran
  cases offered with
  | @cons _ offer _ offers is offered =>
    obtain ⟨_, s₁, ⟨⟩, after⟩ := bind_ok ran
    rw [pending] at after
    cases offer with
    | error e => cases after
    | ok x =>
      obtain ⟨pending₁, xs, more, whole, leaves, becomes, homes, adds⟩ :=
        h x _ s' offers left offered rfl after
      refine ⟨pending₁, xs, (l, x) :: more, ?_, ?_, ?_, homes, adds⟩
      · rw [whole, List.append_assoc]
        rfl
      · rw [List.map_cons, leaves, List.filter_cons_of_pos trivia]
      · intro y member
        rcases List.mem_cons.mp member with rfl | member
        · exact is x rfl
        · exact becomes y member

end Collects

variable {produced : Produced}

mutual

/-- Behind a part nothing of it is pending, and all of its trivia is placed. -/
theorem walk_collects (made : ∀ i n, nodeAt produced i = some n → here n.id) (number : Nat) {owner : Node}
    (home : here owner.id) (kind : RawKind) (role : Option String) (children : List RawElement) :
    Collects stands here (walk produced number owner (.node kind role children)) [] (RawElement.leavesAll children) := by
  rw [walk]
  refine walkAll_collects made (number + 1) ?_ (by simp) [] children
  -- What no node stands for leaves what it holds to the node around it.
  cases found : nodeAt produced number with
  | none => exact home
  | some n => exact made number n found
termination_by (sizeOf children, 1)

theorem walkAll_collects (made : ∀ i n, nodeAt produced i = some n → here n.id) (number : Nat) {owner : Node}
    (home : here owner.id) {prev : Option Node} (behind : ∀ n ∈ prev, here n.id) (run : Run) :
    (es : List RawElement) → Collects stands here (walkAll produced number owner prev run es) run (RawElement.leavesAll es)
  | [] => by
    rw [walkAll]
    exact .ofPuts (flush_puts behind (by simp) home true run)
  | .leaf l :: es => by
    simp only [walkAll, RawElement.leavesAll, RawElement.leaves, List.cons_append, List.nil_append]
    by_cases trivia : l.trivia = true
    · rw [if_pos trivia]
      exact .take trivia fun x => walkAll_collects made (number + 1) home behind (run ++ [(l, x)]) es
    · rw [if_neg trivia]
      have next := walkAll_collects made (number + 1) home (made number) [] es
      exact (Collects.ofPuts (flush_puts behind (made number) home (es.all (·.isTrivia)) run)).seq
        (.skip (by simpa using trivia) next)
  | .node kind role children :: es => by
    simp only [walkAll, RawElement.leavesAll, RawElement.leaves]
    have inside := walk_collects made number home kind role children
    have next := walkAll_collects made (number + (RawElement.node kind role children).size) home (made number) [] es
    exact ((Collects.ofPuts (flush_puts behind (made number) home (es.all (·.isTrivia)) run)).seq (inside.seq next) :)
termination_by es => (sizeOf es, 0)

end

/-! What is pending at the start, and what stands for what. -/

theorem checked_ok {e x : Extra} (h : e.checked = .ok x) : x = e := by
  unfold Extra.checked at h
  cases made : Node.make 0 e.kind e.scalars [] with
  | error err =>
    rw [made] at h
    cases h
  | ok n =>
    rw [made] at h
    cases h
    rfl

theorem becomes_of_extraFor {l : Leaf} {starts ends : Bool} {x : Extra} (spelled : Spelled l)
    (h : extraFor l starts ends = .ok x) : Becomes l x := by
  unfold extraFor at h
  split at h
  · rename_i kind
    cases checked : (Extra.whitespace l.token.text).checked with
    | error e =>
      rw [checked] at h
      cases h
    | ok y =>
      rw [checked] at h
      cases h
      rw [checked_ok checked]
      exact .whitespace kind
  · rename_i kind
    cases h
    exact .comment (.inl kind) starts true
  · rename_i kind
    cases h
    exact .comment (.inr kind) starts ends
  · rename_i kind
    cases h
    exact .semicolon kind (spelled kind)
  · split at h
    · rename_i comma
      cases h
      refine .trailingComma ?_ (by simpa using comma)
      cases kind : l.token.kind <;> first | rfl | contradiction
    · cases h

/-- One thing is pending for each leaf. -/
theorem extrasFor_related {R : Leaf → Except PlacementError Extra → Prop} {ls : List Leaf}
    (each : ∀ l ∈ ls, ∀ starts ends, R l (extraFor l starts ends)) : List.Forall₂ R ls (extrasFor ls) := by
  unfold extrasFor
  generalize true = fresh
  induction ls generalizing fresh with
  | nil => exact .nil
  | cons l ls ih =>
    simp only [startsLine, endsLine, List.zip_cons_cons, List.map_cons]
    exact .cons (each l (List.mem_cons_self ..) ..) (ih (fun m member => each m (List.mem_cons_of_mem l member)) _)

theorem extrasFor_offers {ls : List Leaf} (spelled : ∀ l ∈ ls, Spelled l) :
    List.Forall₂ (Offers Becomes) ls (extrasFor ls) :=
  extrasFor_related fun l member _ _ _ => becomes_of_extraFor (spelled l member)

/-- What stands for an element was recorded. -/
theorem mem_of_nodeAt {events : List Event} {count number : Nat} {n : Node}
    (h : nodeAt (producedBy events count) number = some n) : ∃ e ∈ events, e.node = n := by
  induction events with
  | nil =>
    simp only [nodeAt, producedBy, List.foldr_nil, Array.getElem?_replicate] at h
    split at h <;> cases h
  | cons e rest ih =>
    have older (same : nodeAt (producedBy (e :: rest) count) number = nodeAt (producedBy rest count) number) :
        ∃ d ∈ e :: rest, d.node = n := by
      obtain ⟨d, inside, is⟩ := ih (same.symm.trans h)
      exact ⟨d, List.mem_cons_of_mem e inside, is⟩
    cases origin : e.origin with
    | none => exact older (by simp [nodeAt, producedBy, origin])
    | some o =>
      by_cases own : o.number = number
      · have newest : (nodeAt (producedBy (e :: rest) count) number).toList ⊆ [e.node] := by
          simp only [nodeAt, producedBy, List.foldr_cons, origin, own, Array.getElem?_setIfInBounds, if_true]
          split <;> simp
        rw [h] at newest
        exact ⟨e, List.mem_cons_self .., (List.mem_singleton.mp (newest (List.mem_cons_self ..))).symm⟩
      · exact older (by simp [nodeAt, producedBy, origin, own])

/-- The extras of a tree are its trivia, dealt out to nodes that stand for elements of the tree. -/
theorem collect_collects (here : Nat → Prop) {produced : Produced}
    (made : ∀ i n, nodeAt produced i = some n → here n.id) {kind : RawKind} {role : Option String}
    {children : List RawElement}
    (offered : List.Forall₂ (Offers stands) (RawElement.leavesAll children) (extrasFor (RawElement.leavesAll children)))
    {m : ExtrasMap} (h : collect produced (.node kind role children) = .ok m) :
    ∃ xs : List Placing, xs.map (·.leaf) = (RawElement.leavesAll children).filter (·.trivia) ∧
      (∀ x ∈ xs, stands x.leaf x.extra) ∧ (∀ x ∈ xs, here x.id) ∧ Adds {} m xs := by
  unfold collect at h
  cases found : nodeAt produced 0 with
  | none =>
    rw [found] at h
    cases h
  | some root =>
    rw [found] at h
    change Except.bind (walk produced 0 root (.node kind role children)
      { pending := extrasFor (RawElement.leavesAll children) }) (fun answer => .ok answer.2.extras) = .ok m at h
    cases ran : walk produced 0 root (.node kind role children)
        { pending := extrasFor (RawElement.leavesAll children) } with
    | error e =>
      rw [ran] at h
      cases h
    | ok answer =>
      obtain ⟨⟨⟩, s'⟩ := answer
      rw [ran] at h
      cases h
      obtain ⟨-, xs, more, whole, leaves, becomes, homes, adds⟩ :=
        walk_collects made 0 (made 0 root found) kind role children _ s' _ [] offered (List.append_nil _).symm ran
      have pairs : more = xs.map fun x => (x.leaf, x.extra) := whole.symm
      refine ⟨xs, ?_, ?_, homes, adds⟩
      · rw [← leaves, pairs, List.map_map]
        rfl
      · intro x member
        exact becomes (x.leaf, x.extra) (pairs ▸ List.mem_map_of_mem member)

end Placement

namespace Source

open Placement Conversion

variable {form : Form} {root : RawElement} {tree : Tree}

theorem raw_spelled {fileName : Option String} {source : String} (h : (raw form fileName source).result = .ok root) :
    ∀ l ∈ root.leaves, Spelled l := by
  obtain ⟨tokens, lexed, tiles, -⟩ := raw_tiles h
  intro l member kind
  rcases tiles.mem member with token | operator
  · exact Lexer.tokenize_semicolon lexed l.token token kind
  · rw [operator] at kind
    cases kind

/-- The extras of a source are its trivia, dealt out to the nodes of its tree as what is offered for it. -/
theorem convertFull_deals {stands : Leaf → Extra → Prop} (readable : Readable root)
    (offered : List.Forall₂ (Offers stands) root.leaves (extrasFor root.leaves))
    (h : (convertFull form root).result = .ok tree) : tree.root.ids.Nodup ∧
      ∃ xs : List Placing, xs.map (·.leaf) = root.leaves.filter (·.trivia) ∧ (∀ x ∈ xs, stands x.leaf x.extra) ∧
        (∀ x ∈ xs, x.id ∈ tree.root.ids) ∧ Adds {} tree.extras xs := by
  obtain ⟨s, converted, collected⟩ := convertFull_ok h
  generalize tree.root = n at converted ⊢
  have records := convertSource_recording form readable.sound.ended {}
  simp only [converted] at records
  have whole : listing [n] = n.postorder := by simp [listing]
  have once : (n.postorder.map (·.id)).Nodup := by
    rw [← whole, records.ids]
    exact List.nodup_range'
  obtain ⟨told, events, nodes⟩ := records.told
  refine ⟨(n.postorder_perm.map _).nodup_iff.mp once, ?_⟩
  cases root with
  | leaf l => cases converted
  | node kind role children =>
    refine collect_collects (· ∈ n.ids) (fun i m found => ?_) offered collected
    obtain ⟨e, inside, rfl⟩ := mem_of_nodeAt found
    rw [events, List.append_nil, List.mem_reverse] at inside
    have member : e.node ∈ n.postorder := whole ▸ nodes ▸ List.mem_map_of_mem inside
    exact List.mem_map_of_mem (n.postorder_perm.subset member)

/-- A tree with extras is arranged. -/
theorem convertFull_arranged (readable : Readable root) (h : (convertFull form root).result = .ok tree) :
    tree.root.Arranged := by
  obtain ⟨s, converted, -⟩ := convertFull_ok h
  have records := convertSource_recording form readable.sound.ended {}
  simp only [converted] at records
  exact records.arranged _ (List.mem_singleton_self _)

theorem convertFull_places (readable : Readable root) (spelled : ∀ l ∈ root.leaves, Spelled l)
    (h : (convertFull form root).result = .ok tree) : tree.root.ids.Nodup ∧
      ∃ xs : List Placing, xs.map (·.leaf) = root.leaves.filter (·.trivia) ∧ (∀ x ∈ xs, Becomes x.leaf x.extra) ∧
        (∀ x ∈ xs, x.id ∈ tree.root.ids) ∧ Adds {} tree.extras xs :=
  convertFull_deals readable (extrasFor_offers spelled) h

/-- No trivia is lost, doubled or changed: each leaf of trivia stands as one extra of its own kind and text at one
position of a node of the tree, and what is kept at a position are the extras of the leaves that went there, in the
order of the source. -/
theorem trivia_placed_once (form : Form) (fileName : Option String) (source : String) (tree : Tree)
    (h : (parse form { extras := true, fileName } source).result = .ok tree) :
    ∃ root, (raw form fileName source).result = .ok root ∧
      (∀ k ∈ tree.extras.keys, k ∈ tree.root.ids) ∧ tree.extras.keys.Nodup ∧ tree.root.ids.Nodup ∧
      ∃ xs : List Placing, xs.map (·.leaf) = root.leaves.filter (·.trivia) ∧ (∀ x ∈ xs, Becomes x.leaf x.extra) ∧
        ∀ id p, tree.extras.held id p = placedAt xs id p := by
  obtain ⟨root, read, converted⟩ := parse_full_ok h
  obtain ⟨ids, xs, leaves, becomes, homes, adds⟩ :=
    convertFull_places (raw_readable read) (raw_spelled read) converted
  refine ⟨root, read, fun k member => ?_, adds.distinct .nil, ids, xs, leaves, becomes, fun id p => ?_⟩
  · rcases adds.keys k member with none | ⟨x, inside, rfl⟩
    · cases none
    · exact homes x inside
  · rw [adds.held]
    cases p <;> rfl

/-- Blanks, a comma with nothing behind it, a comment and a semicolon. -/
theorem trivia_of_enum_placed_once : ∃ tree, (parse .file {} "enum class E {A, /*c*/;}").result = .ok tree ∧
    (∀ k ∈ tree.extras.keys, k ∈ tree.root.ids) ∧ tree.extras.keys.Nodup ∧ tree.root.ids.Nodup ∧
      ∃ xs : List Placing, xs.map (·.leaf.token.text) = [" ", " ", " ", ",", " ", "/*c*/", ";"] ∧
        (∀ x ∈ xs, Becomes x.leaf x.extra) ∧ ∀ id p, tree.extras.held id p = placedAt xs id p := by
  have parsed : (parse .file {} "enum class E {A, /*c*/;}").result.toOption.isSome = true := by decide +kernel
  have trivia : (raw .file none "enum class E {A, /*c*/;}").result.toOption.map
      (fun root => (root.leaves.filter (·.trivia)).map (·.token.text)) =
        some [" ", " ", " ", ",", " ", "/*c*/", ";"] := by decide +kernel
  cases found : (parse .file {} "enum class E {A, /*c*/;}").result with
  | error e =>
    rw [found] at parsed
    cases parsed
  | ok tree =>
    obtain ⟨root, read, keys, distinct, ids, xs, leaves, becomes, held⟩ :=
      trivia_placed_once .file none "enum class E {A, /*c*/;}" tree found
    rw [read] at trivia
    have texts : (root.leaves.filter (·.trivia)).map (·.token.text) = _ := Option.some.inj trivia
    refine ⟨tree, rfl, keys, distinct, ids, xs, ?_, becomes, held⟩
    rw [← texts, ← leaves, List.map_map]
    rfl

end Source

end KotlinSyntax
