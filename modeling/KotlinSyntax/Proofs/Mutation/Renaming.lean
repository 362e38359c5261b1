import Mathlib.Data.List.Flatten
import Mathlib.Data.List.Pairwise
import KotlinSyntax.Proofs.Mutation.Conservation

/-! Leaves that are renamed. A new leaf gives every node above it a new identity, while all that stands beside these
nodes stays what it was. Position by position the extras follow: what is kept for a node of the old tree is in the end
kept for the node that stands in its place. -/
namespace KotlinSyntax

namespace Node

def ids (n : Node) : List Nat := n.preorder.map (·.id)

structure Leaf (n : Node) : Prop where
  kind : ∃ k, n.tag = .kind k ∧ k.slots = []
  childless : n.children = []

variable {n m : Node} {k : Nat}

theorem mem_ids : k ∈ n.ids ↔ k = n.id ∨ ∃ c ∈ n.children, k ∈ c.2.ids := by
  cases n with
  | mk id tag scalars children =>
    simp only [ids, preorder, preorderAll_eq, List.map_cons, List.map_flatMap, List.mem_cons, List.mem_flatMap]
    rfl

theorem id_mem_ids (n : Node) : n.id ∈ n.ids := mem_ids.mpr (.inl rfl)

theorem mem_ids_of_at? {pos : List Nat} (found : n.at? pos = some m) : m.id ∈ n.ids := by
  induction pos generalizing n with
  | nil =>
    cases found
    exact id_mem_ids _
  | cons i rest ih =>
    obtain ⟨c, child, below⟩ := Option.bind_eq_some_iff.mp found
    exact mem_ids.mpr (.inr ⟨c, List.mem_of_getElem? child, ih below⟩)

def idsAll (cs : List (Field × Node)) : List Nat := cs.flatMap (·.2.ids)

theorem ids_eq (n : Node) : n.ids = n.id :: idsAll n.children := by
  cases n with
  | mk id tag scalars children =>
    rw [ids, preorder, preorderAll_eq, List.map_cons, List.map_flatMap]
    rfl

section Gather

variable {parts : List Slot} {cs : List (Field × Node)}

theorem mem_idsAll : k ∈ idsAll cs ↔ ∃ c ∈ cs, k ∈ c.2.ids := List.mem_flatMap

theorem idsAll_gather_subset (member : k ∈ idsAll (Mutation.gather parts cs)) : k ∈ idsAll cs := by
  obtain ⟨c, taken, inside⟩ := mem_idsAll.mp member
  exact mem_idsAll.mpr ⟨c, (Mutation.mem_gather.mp taken).1, inside⟩

theorem idsAll_gather_nodup (fields : (parts.map (·.field)).Nodup) (distinct : (idsAll cs).Nodup) :
    (idsAll (Mutation.gather parts cs)).Nodup := by
  have rebuilt : (idsAll (Mutation.gather parts cs)).Perm (idsAll (cs.filter fun c => parts.any (·.field == c.1))) :=
    (Mutation.gather_perm fields).flatMap_right _
  exact rebuilt.nodup_iff.mpr (distinct.sublist (List.Sublist.flatMap List.filter_sublist _))

/-- A child that is not rebuilt has no number of one that is. -/
theorem not_mem_idsAll_gather (distinct : (idsAll cs).Nodup) {c : Field × Node} (member : c ∈ cs)
    (left : c ∉ Mutation.gather parts cs) (inside : k ∈ c.2.ids) : k ∉ idsAll (Mutation.gather parts cs) := by
  intro among
  obtain ⟨d, taken, inside'⟩ := mem_idsAll.mp among
  have apart := (List.nodup_flatMap.mp distinct).2
  have : Std.Symm (Function.onFun List.Disjoint fun c : Field × Node => c.2.ids) := ⟨fun _ _ => List.disjoint_symm⟩
  have other : c ≠ d := fun same => left (same ▸ taken)
  exact apart.forall member (Mutation.mem_gather.mp taken).1 other inside inside'

end Gather

end Node

namespace ExtrasMap

variable {m : ExtrasMap} {source target k : Nat}

theorem get_of_not_mem (absent : k ∉ m.keys) : m.get k = {} := by
  cases found : m.get? k with
  | none => rw [get, found]; rfl
  | some s => exact absurd (contains_iff.mp (by rw [contains, found]; rfl)) absent

theorem lookup_filter {entries : List (Nat × Surroundings)} (other : k ≠ source) :
    (entries.filter (·.1 != source)).lookup k = entries.lookup k := by
  induction entries with
  | nil => rfl
  | cons e rest ih =>
    obtain ⟨i, s⟩ := e
    by_cases same : i = source
    · have differs : (k == i) = false := beq_false_of_ne (same ▸ other)
      rw [List.filter_cons_of_neg (by simp [same]), List.lookup_cons, differs, ih]
    · rw [List.filter_cons_of_pos (by simpa using same), List.lookup_cons, List.lookup_cons, ih]

/-- A move to a new number, key by key. -/
theorem get_move (other : source ≠ target) (new : target ∉ m.keys) :
    (m.move source target).get target = m.get source ∧
      ∀ k, k ≠ source → k ≠ target → (m.move source target).get k = m.get k := by
  have differs : (source == target) = false := beq_false_of_ne other
  cases found : m.get? source with
  | none =>
    have same : m.move source target = m := by rw [move, found]
    rw [same]
    exact ⟨(get_of_not_mem new).trans (by rw [get, found]; rfl), fun _ _ _ => rfl⟩
  | some s =>
    have absent : (m.erase source).contains target = false := by
      have missing : m.entries.lookup target = none := by
        cases held : m.entries.lookup target with
        | none => rfl
        | some t => exact absurd (contains_iff.mp (by rw [contains, get?, held]; rfl)) new
      rw [contains, get?, erase, lookup_filter other.symm, missing]
      rfl
    have moved : (m.move source target).entries = (target, s) :: m.entries.filter (·.1 != source) := by
      rw [move, found]
      simp only [differs, Bool.false_eq_true, if_false, insert, absent]
      rfl
    refine ⟨?_, fun k apart behind => ?_⟩
    · rw [get, get?, moved, List.lookup_cons_self, get, found]
    · have elsewhere : (k == target) = false := beq_false_of_ne behind
      rw [get, get?, moved, List.lookup_cons, elsewhere, lookup_filter apart]
      rfl

end ExtrasMap

namespace Mutation

variable {σ α β : Type}

/-- The call gives the node back, or for a leaf another leaf that is no node of the tree. -/
def Exchange.Renames (root : Node) (x : Exchange) : Prop :=
  x.returned = x.given ∨ x.given.Leaf ∧ x.returned.Leaf ∧ x.returned.id ∉ root.ids

structure Renaming (root : Node) (calls : List Exchange) : Prop where
  fresh : AllFresh calls
  renames : ∀ x ∈ calls, x.Renames root

theorem Renaming.of_suffix {root : Node} {xs ys : List Exchange} (suffix : xs <:+ ys) (h : Renaming root ys) :
    Renaming root xs :=
  ⟨h.fresh.of_suffix suffix, fun x member => h.renames x (suffix.subset member)⟩

/-- One node stands in the place of another: it holds as many children in the same fields, what is kept for it is what
was kept for the other, and it is of the same kind with the same texts and flags unless a call gave it for a leaf. -/
structure Follows (calls : List Exchange) (before after : Nat → Surroundings) (a b : Node) : Prop where
  fields : b.fields = a.fields
  surroundings : after b.id = before a.id
  alike : b.tag = a.tag ∧ b.scalars = a.scalars ∨
    a.Leaf ∧ b.Leaf ∧ ∃ x ∈ calls, x.given = a ∧ x.returned = b

/-- The same at all positions of two trees, which have a node at the same positions. -/
def FollowsAll (calls : List Exchange) (before after : Nat → Surroundings) (a b : Node) : Prop :=
  ∀ pos, Option.Rel (Follows calls before after) (a.at? pos) (b.at? pos)

section Trees

variable {calls calls' : List Exchange} {before before' after after' : Nat → Surroundings} {a b : Node}

theorem FollowsAll.mono (h : FollowsAll calls before after a b) (more : calls ⊆ calls')
    (start : ∀ k ∈ a.ids, before' k = before k) (done : ∀ k ∈ b.ids, after' k = after k) :
    FollowsAll calls' before' after' a b := by
  intro pos
  have here := h pos
  cases left : a.at? pos with
  | none =>
    cases right : b.at? pos with
    | none => exact .none
    | some n => rw [left, right] at here; cases here
  | some m =>
    cases right : b.at? pos with
    | none => rw [left, right] at here; cases here
    | some n =>
      rw [left, right] at here
      obtain ⟨follows⟩ := here
      refine .some ⟨follows.fields, ?_, ?_⟩
      · rw [done _ (Node.mem_ids_of_at? right), start _ (Node.mem_ids_of_at? left)]
        exact follows.surroundings
      · refine follows.alike.imp_right ?_
        rintro ⟨leaf, leaf', x, member, exchanged⟩
        exact ⟨leaf, leaf', x, more member, exchanged⟩

theorem FollowsAll.mono_all {cs ds : List (Field × Node)}
    (h : List.Forall₂ (fun c d => FollowsAll calls before after c.2 d.2) cs ds) (more : calls ⊆ calls')
    (start : ∀ k ∈ Node.idsAll cs, before' k = before k) (done : ∀ k ∈ Node.idsAll ds, after' k = after k) :
    List.Forall₂ (fun c d => FollowsAll calls' before' after' c.2 d.2) cs ds := by
  induction h with
  | nil => exact .nil
  | @cons c d cs ds first _ ih =>
    simp only [Node.idsAll, List.flatMap_cons, List.mem_append, or_imp, forall_and] at start done ih
    exact .cons (first.mono more start.1 done.1) (ih start.2 done.2)

/-- Each node of a tree stands in its own place if nothing is kept for it but what was. -/
theorem FollowsAll.refl (same : ∀ k ∈ a.ids, after k = before k) : FollowsAll calls before after a a := by
  intro pos
  cases found : a.at? pos with
  | none => exact .none
  | some m => exact .some ⟨rfl, same _ (Node.mem_ids_of_at? found), .inl ⟨rfl, rfl⟩⟩

/-- Two nodes that stand for each other, over children that do so one by one. -/
theorem FollowsAll.mk (here : Follows calls before after a b)
    (below : List.Forall₂ (fun c d => FollowsAll calls before after c.2 d.2) a.children b.children) :
    FollowsAll calls before after a b := by
  intro pos
  cases pos with
  | nil => exact .some here
  | cons i rest =>
    rw [Node.at?, Node.at?]
    generalize a.children = cs at below
    generalize b.children = ds at below
    induction below generalizing i with
    | nil => exact .none
    | cons first _ ih =>
      cases i with
      | zero => exact first rest
      | succ i => exact ih i

end Trees

/-! What the steps of a run do to the state, if they come to an end. -/

section Steps

variable {s after : State (σ × List Exchange)} {root : Node} {k : Nat}

theorem visitBy_of_ok {pre post : Path → Mutate σ Node} (depth : Nat) (p : Path) {a b c : Node} {s s₁ s₂ s₃ : State σ}
    (before : pre p s = .ok a s₁) (within : rebuild (visitBy pre post depth) (p.withNode a) s₁ = .ok b s₂)
    (after : post (p.withNode b) s₂ = .ok c s₃) :
    visitBy pre post (depth + 1) p s = (if c.id == p.node.id then pure ⟨p.node, false⟩ else do
      moveExtras p.node c
      return ⟨c, true⟩ : Mutate σ Rebuilt) s₃ := by
  rw [visitBy, bind_of_ok before, bind_of_ok within, bind_of_ok after]

def State.surroundings (s : State σ) (k : Nat) : Surroundings := (s.extras.getD {}).get k

theorem State.surroundings_congr {s t : State σ} (same : s.extras = t.extras) : s.surroundings = t.surroundings := by
  unfold State.surroundings
  rw [same]

theorem State.keys_congr {s t : State σ} (same : s.extras = t.extras) : s.keys = t.keys := by
  rw [State.keys, State.keys, same]

def State.Taken (s : State (σ × List Exchange)) (root : Node) (k : Nat) : Prop := k ∈ root.ids ∨ k ∈ s.returned

/-- No number that is free is in the tree, has extras or was given by a call. -/
structure State.Settled (s : State (σ × List Exchange)) (root : Node) : Prop extends s.Sound where
  rooted : ∀ k ∈ root.ids, k < s.supply.nextId

theorem State.Settled.taken_lt (h : s.Settled root) (taken : s.Taken root k) : k < s.supply.nextId :=
  taken.elim (h.rooted k) (h.given k)

theorem observed_ok {h : Hook σ} {p : Path} {n : Node} (ran : observed h p s = .ok n after) :
    after.exchanges = ⟨p.node, n, s.keys, s.supply.nextId, after.supply.nextId⟩ :: s.exchanges ∧
      after.extras = s.extras := by
  unfold observed at ran
  split at ran
  · cases ran
    exact ⟨rfl, rfl⟩
  · cases ran

theorem observed_identity {p : Path} {n : Node} (ran : observed (.identity σ) p s = .ok n after) : n = p.node := by
  cases ran
  rfl

theorem remake_ok {n made : Node} {k : Kind} {children : List (Field × Node)}
    (ran : remake n k children s = .ok made after) :
    made = .mk s.supply.nextId (.kind k) n.scalars children ∧ after.exchanges = s.exchanges ∧
      after.extras = s.extras ∧ after.supply.nextId = s.supply.nextId + 1 := by
  obtain ⟨_, s₁, noted, ran⟩ := bind_ok ran
  cases noted
  obtain ⟨_, s₂, read, ran⟩ := bind_ok ran
  cases read
  obtain ⟨_, s₃, counted, ran⟩ := bind_ok ran
  cases counted
  cases checked : Node.make s.supply.nextId k n.scalars children with
  | ok other =>
    rw [checked] at ran
    cases ran
    exact ⟨(Node.make_ok checked).1, rfl, rfl, rfl⟩
  | error e =>
    rw [checked] at ran
    cases ran

theorem moveExtras_ok {source target : Node} {u : Unit} (ran : moveExtras source target s = .ok u after) :
    after.supply = s.supply ∧
      after.extras = s.extras.map fun m => if m.canMove source.id target.id then m.move source.id target.id else m := by
  obtain ⟨read, s₁, got, moved⟩ := bind_ok ran
  obtain ⟨rfl, rfl⟩ : read = s ∧ s₁ = s := by cases got; exact ⟨rfl, rfl⟩
  cases held : s₁.extras with
  | none =>
    rw [held] at moved
    cases moved
    exact ⟨rfl, held⟩
  | some m =>
    rw [held] at moved
    rw [Option.map_some]
    by_cases movable : m.canMove source.id target.id = true
    · simp only [if_pos movable] at moved ⊢
      obtain ⟨_, s₂, noted, set⟩ := bind_ok moved
      cases noted
      cases set
      exact ⟨rfl, rfl⟩
    · simp only [if_neg movable] at moved ⊢
      cases moved
      exact ⟨rfl, held⟩

/-- What is kept for a node is kept for the new one behind a move, and nothing else is touched. -/
theorem moveExtras_surroundings {source target : Node} {u : Unit} (ran : moveExtras source target s = .ok u after)
    (other : source.id ≠ target.id) (new : target.id ∉ s.keys) :
    after.surroundings target.id = s.surroundings source.id ∧
      ∀ k, k ≠ source.id → k ≠ target.id → after.surroundings k = s.surroundings k := by
  obtain ⟨_, moved⟩ := moveExtras_ok ran
  unfold State.surroundings
  rw [moved]
  cases held : s.extras with
  | none => exact ⟨rfl, fun _ _ _ => rfl⟩
  | some m =>
    have unkept : target.id ∉ m.keys := by
      rw [State.keys, held] at new
      exact new
    simp only [Option.map_some, Option.getD_some]
    split
    · exact ExtrasMap.get_move other unkept
    · rename_i fixed
      have absent : source.id ∉ m.keys := by
        intro kept
        refine fixed ?_
        rw [ExtrasMap.canMove, ExtrasMap.contains_iff.mpr kept, Bool.and_true]
        exact bne_iff_ne.mpr other
      rw [ExtrasMap.get_of_not_mem unkept, ExtrasMap.get_of_not_mem absent]
      exact ⟨rfl, fun _ _ _ => rfl⟩

theorem visitChild_ok {visit : Path → Mutate σ Rebuilt} {s after : State σ} {p : Path} {k : Kind} {c : Field × Node}
    {r : Field × Rebuilt} (ran : visitChild visit p k c s = .ok r after) :
    ∃ x, visit (p.down c.2) s = .ok x after ∧ r = (c.1, x) := by
  obtain ⟨x, s₁, visited, ran⟩ := bind_ok ran
  split at ran
  · cases ran
    exact ⟨x, visited, rfl⟩
  · cases ran

theorem State.Taken.mono (grows : s.exchanges <:+ after.exchanges) (taken : s.Taken root k) : after.Taken root k :=
  taken.imp_right fun given => (grows.map _).subset given

theorem Runs.grows {x : Mutate (σ × List Exchange) α} {Q : α → State (σ × List Exchange) → Prop} {a : α}
    (runs : Runs x s Q) (ran : x s = .ok a after) : s.exchanges <:+ after.exchanges := by
  unfold Runs Leaves at runs
  rw [ran] at runs
  exact runs.1.grows

theorem Runs.sound {x : Mutate (σ × List Exchange) α} {Q : α → State (σ × List Exchange) → Prop} {a : α}
    (runs : Runs x s Q) (ran : x s = .ok a after) (fresh : AllFresh after.exchanges) (sound : s.Sound) :
    after.Sound := by
  unfold Runs Leaves at runs
  rw [ran] at runs
  exact runs.1.sound fresh sound

theorem observed_settled {h : Hook σ} {p : Path} {n : Node} (ran : observed h p s = .ok n after)
    (fresh : AllFresh after.exchanges) (settled : s.Settled root) : after.Settled root := by
  refine ⟨(observed_runs h p).sound ran fresh settled.toSound, fun k member => ?_⟩
  rw [(observed_ok ran).1] at fresh
  exact Nat.lt_of_lt_of_le (settled.rooted k member) fresh.1.2.1

theorem remake_settled {n made : Node} {k : Kind} {children : List (Field × Node)}
    (ran : remake n k children s = .ok made after) (fresh : AllFresh after.exchanges) (settled : s.Settled root) :
    after.Settled root := by
  refine ⟨(remake_runs n k children).sound ran fresh settled.toSound, fun k member => ?_⟩
  rw [(remake_ok ran).2.2.2]
  exact Nat.lt_succ_of_lt (settled.rooted k member)

end Steps

/-! A part of a run that puts one tree in the place of another. -/

section Carrying

variable {root a b : Node} {s s₁ after : State (σ × List Exchange)} {k : Nat}

/-- The new tree has numbers of the old one and such as were not known before. The extras follow, and what is kept for
nodes outside of the old tree stays as it is. -/
structure Carries (root : Node) (s after : State (σ × List Exchange)) (a b : Node) : Prop where
  settled : after.Settled root
  news : ∀ k ∈ b.ids, k ∈ a.ids ∨ ¬ s.Taken root k ∧ after.Taken root k
  follows : FollowsAll after.exchanges s.surroundings after.surroundings a b
  frame : ∀ k, s.Taken root k → k ∉ a.ids → after.surroundings k = s.surroundings k

structure CarriesAll (root : Node) (s after : State (σ × List Exchange)) (cs ds : List (Field × Node)) : Prop where
  settled : after.Settled root
  fields : ds.map (·.1) = cs.map (·.1)
  news : ∀ k ∈ Node.idsAll ds, k ∈ Node.idsAll cs ∨ ¬ s.Taken root k ∧ after.Taken root k
  follows : List.Forall₂ (fun c d => FollowsAll after.exchanges s.surroundings after.surroundings c.2 d.2) cs ds
  frame : ∀ k, s.Taken root k → k ∉ Node.idsAll cs → after.surroundings k = s.surroundings k

theorem CarriesAll.nil (settled : s.Settled root) : CarriesAll root s s [] [] :=
  ⟨settled, rfl, fun _ member => absurd member (List.not_mem_nil), .nil, fun _ _ _ => rfl⟩

/-- One tree after the other: neither part of the run touches what is kept for the tree of the other. -/
theorem CarriesAll.cons {c d : Field × Node} {cs ds : List (Field × Node)} (field : d.1 = c.1)
    (within : ∀ k ∈ Node.idsAll (c :: cs), k ∈ root.ids) (distinct : (Node.idsAll (c :: cs)).Nodup)
    (grows : s.exchanges <:+ s₁.exchanges) (grows' : s₁.exchanges <:+ after.exchanges)
    (first : Carries root s s₁ c.2 d.2) (others : CarriesAll root s₁ after cs ds) :
    CarriesAll root s after (c :: cs) (d :: ds) := by
  have split (xs : List (Field × Node)) (x : Field × Node) : Node.idsAll (x :: xs) = x.2.ids ++ Node.idsAll xs :=
    List.flatMap_cons
  rw [split] at within distinct
  have here : ∀ k ∈ c.2.ids, s.Taken root k := fun k member => .inl (within k (List.mem_append_left _ member))
  have beside : ∀ k ∈ Node.idsAll cs, s.Taken root k := fun k member => .inl (within k (List.mem_append_right _ member))
  have apart : ∀ k ∈ c.2.ids, k ∉ Node.idsAll cs := fun k member => List.disjoint_of_nodup_append distinct member
  refine ⟨others.settled, ?_, ?_, .cons ?_ ?_, ?_⟩
  · rw [List.map_cons, List.map_cons, field, others.fields]
  · intro k member
    rw [split] at member ⊢
    rcases List.mem_append.mp member with member | member
    · exact (first.news k member).imp (List.mem_append_left _) fun ⟨new, taken⟩ => ⟨new, taken.mono grows'⟩
    · exact (others.news k member).imp (List.mem_append_right _) fun ⟨new, taken⟩ =>
        ⟨fun known => new (known.mono grows), taken⟩
  · refine first.follows.mono (grows'.subset) (fun _ _ => rfl) fun k member => ?_
    rcases first.news k member with old | ⟨new, taken⟩
    · exact others.frame k ((here k old).mono grows) (apart k old)
    · exact others.frame k taken fun among => new (beside k among)
  · refine FollowsAll.mono_all others.follows (fun _ member => member) (fun k member => ?_) fun _ _ => rfl
    exact (first.frame k (beside k member) fun among => apart k among member).symm
  · intro k taken outside
    rw [split, List.mem_append, not_or] at outside
    rw [others.frame k (taken.mono grows) outside.2, first.frame k taken outside.1]

/-- What comes of the children that are rebuilt is put in their places, and the others are left alone. -/
theorem CarriesAll.putBack {parts : List Slot} {cs new : List (Field × Node)} (fields : (parts.map (·.field)).Nodup)
    (within : ∀ k ∈ Node.idsAll cs, k ∈ root.ids) (distinct : (Node.idsAll cs).Nodup)
    (rebuilt : CarriesAll root s after (gather parts cs) new) : CarriesAll root s after cs (putBack cs new) := by
  have paired : List.Forall₂
      (fun c d => d.1 = c.1 ∧ FollowsAll after.exchanges s.surroundings after.surroundings c.2 d.2)
      (gather parts cs) new := (fields_eq_iff.mp rebuilt.fields).mp (fun _ _ => And.intro) rebuilt.follows
  have inPlace := forall₂_putBack fields (fun c d related => related.1) paired fun c member left =>
    ⟨rfl, FollowsAll.refl fun k inside => rebuilt.frame k (.inl (within k (Node.mem_idsAll.mpr ⟨c, member, inside⟩)))
      (Node.not_mem_idsAll_gather distinct member left inside)⟩
  refine ⟨rebuilt.settled, fields_eq_iff.mpr (inPlace.imp fun _ _ related => related.1), ?_,
    inPlace.imp fun _ _ related => related.2, ?_⟩
  · intro k member
    obtain ⟨d, placed, inside⟩ := Node.mem_idsAll.mp member
    rcases mem_putBack placed with old | fresh
    · exact .inl (Node.mem_idsAll.mpr ⟨d, old, inside⟩)
    · exact (rebuilt.news k (Node.mem_idsAll.mpr ⟨d, fresh, inside⟩)).imp_left Node.idsAll_gather_subset
  · exact fun k taken outside => rebuilt.frame k taken fun among => outside (Node.idsAll_gather_subset among)

/-- A node over children that were rebuilt, itself or made anew, which a call may then have replaced. -/
theorem Carries.over {cs ds : List (Field × Node)} (children : a.children = cs) (children' : b.children = ds)
    (within : ∀ k ∈ a.ids, k ∈ root.ids) (distinct : a.ids.Nodup) (below : CarriesAll root s s₁ cs ds)
    (grows : s.exchanges <:+ s₁.exchanges) (grows' : s₁.exchanges <:+ after.exchanges) (settled : after.Settled root)
    (new : b.id = a.id ∨ ¬ s₁.Taken root b.id ∧ after.Taken root b.id)
    (kept : after.surroundings b.id = s₁.surroundings a.id)
    (untouched : ∀ k, k ≠ a.id → k ≠ b.id → after.surroundings k = s₁.surroundings k)
    (alike : b.tag = a.tag ∧ b.scalars = a.scalars ∨
      a.Leaf ∧ b.Leaf ∧ ∃ x ∈ after.exchanges, x.given = a ∧ x.returned = b) : Carries root s after a b := by
  subst children children'
  have known : ∀ k ∈ a.ids, s.Taken root k := fun k member => .inl (within k member)
  have split := Node.ids_eq a
  have outside : a.id ∉ Node.idsAll a.children := (List.nodup_cons.mp (split ▸ distinct)).1
  -- neither the old node nor the new one is among the new children
  have apart : ∀ k ∈ Node.idsAll b.children, k ≠ a.id ∧ k ≠ b.id := by
    intro k member
    have ne : k ≠ a.id := by
      rintro rfl
      rcases below.news _ member with old | ⟨unknown, _⟩
      · exact outside old
      · exact unknown (known _ (Node.id_mem_ids a))
    refine ⟨ne, ?_⟩
    rintro rfl
    rcases new with same | ⟨unknown, _⟩
    · exact ne same
    · refine unknown ?_
      rcases below.news _ member with old | ⟨_, taken⟩
      · exact .inl (within _ (split ▸ List.mem_cons_of_mem _ old))
      · exact taken
  refine ⟨settled, ?_, ?_, ?_⟩
  · intro k member
    rw [Node.ids_eq] at member
    rw [split]
    rcases List.mem_cons.mp member with rfl | member
    · rcases new with same | ⟨unknown, taken⟩
      · exact .inl (same ▸ List.mem_cons_self ..)
      · exact .inr ⟨fun early => unknown (early.mono grows), taken⟩
    · exact (below.news k member).imp (List.mem_cons_of_mem _) fun ⟨fresh, taken⟩ => ⟨fresh, taken.mono grows'⟩
  · refine .mk ⟨below.fields, ?_, alike⟩ ?_
    · rw [kept]
      exact below.frame a.id (known _ (Node.id_mem_ids a)) outside
    · refine FollowsAll.mono_all below.follows grows'.subset (fun _ _ => rfl) fun k member => ?_
      exact untouched k (apart k member).1 (apart k member).2
  · intro k taken elsewhere
    rw [split, List.mem_cons, not_or] at elsewhere
    have other : k ≠ b.id := by
      rintro rfl
      rcases new with same | ⟨unknown, _⟩
      · exact elsewhere.1 same
      · exact unknown (taken.mono grows)
    rw [untouched k elsewhere.1 other]
    exact below.frame k taken elsewhere.2

/-- Seen from before a call that gave a node of the tree back. -/
theorem Carries.earlier (h : Carries root s₁ after a b) (grows : s.exchanges <:+ s₁.exchanges)
    (same : s₁.extras = s.extras) : Carries root s after a b := by
  have kept : s₁.surroundings = s.surroundings := State.surroundings_congr same
  refine ⟨h.settled, fun k member => ?_, kept ▸ h.follows, fun k taken outside => ?_⟩
  · exact (h.news k member).imp_right fun ⟨unknown, taken⟩ => ⟨fun early => unknown (early.mono grows), taken⟩
  · rw [← kept]
    exact h.frame k (taken.mono grows) outside

/-- What a run is known to do for trees of the given depth. -/
def VisitsCarry (root : Node) (visit : Path → Mutate (σ × List Exchange) Rebuilt) : Prop :=
  ∀ (p : Path) (s after : State (σ × List Exchange)) (r : Rebuilt), (∀ k ∈ p.node.ids, k ∈ root.ids) →
    p.node.ids.Nodup → visit p s = .ok r after → Renaming root after.exchanges → s.Settled root →
    Carries root s after p.node r.node ∧ (r.changed = false → r.node = p.node)

/-- The children are rebuilt one after the other. If none of them changes they stay as they are. -/
theorem children_carry {visit : Path → Mutate (σ × List Exchange) Rebuilt} {p : Path} {kind : Kind}
    (runs : ∀ p s, Runs (visit p) s fun _ _ => True) (visits : VisitsCarry root visit)
    (cs : List (Field × Node)) (within : ∀ k ∈ Node.idsAll cs, k ∈ root.ids) (distinct : (Node.idsAll cs).Nodup)
    {rs : List (Field × Rebuilt)} (ran : cs.mapM (visitChild visit p kind) s = .ok rs after)
    (renames : Renaming root after.exchanges) (settled : s.Settled root) :
    s.exchanges <:+ after.exchanges ∧ CarriesAll root s after cs (rs.map fun r => (r.1, r.2.node)) ∧
      (rs.any (·.2.changed) = false → (rs.map fun r => (r.1, r.2.node)) = cs) := by
  induction cs generalizing s rs with
  | nil =>
    cases ran
    exact ⟨List.suffix_refl _, .nil settled, fun _ => rfl⟩
  | cons c cs ih =>
    rw [List.mapM_cons] at ran
    obtain ⟨_, s₁, child, ran⟩ := bind_ok ran
    obtain ⟨others, s₂, run, ran⟩ := bind_ok ran
    cases ran
    obtain ⟨r, visited, rfl⟩ := visitChild_ok child
    have split : Node.idsAll (c :: cs) = c.2.ids ++ Node.idsAll cs := List.flatMap_cons
    rw [split] at within distinct
    have grows := (runs _ _).grows visited
    have each (c : Field × Node) (s : State (σ × List Exchange)) : Runs (visitChild visit p kind c) s fun _ _ => True :=
      (runs _ s).bind fun _ _ => .ite (fun _ => .pure trivial) fun _ => .throw
    have grows' := (Runs.mapM each cs s₁).grows run
    obtain ⟨first, same⟩ := visits _ s s₁ r (fun k member => within k (List.mem_append_left _ member))
      (List.Nodup.of_append_left distinct) visited (renames.of_suffix grows') settled
    obtain ⟨_, rest, same'⟩ := ih (fun k member => within k (List.mem_append_right _ member))
      (List.Nodup.of_append_right distinct) run first.settled
    refine ⟨grows.trans grows', .cons rfl (split ▸ within) (split ▸ distinct) grows grows' first rest,
      fun unchanged => ?_⟩
    rw [List.any_cons, Bool.or_eq_false_iff] at unchanged
    have kept : (c.1, r.node) = c := by rw [same unchanged.1]; rfl
    rw [List.map_cons, kept, same' unchanged.2]

/-- What comes of rebuilding the children of a node: the node itself if none of them changed, or a new one. -/
theorem rebuild_carries {visit : Path → Mutate (σ × List Exchange) Rebuilt} {p : Path} {n : Node}
    (runs : ∀ p s, Runs (visit p) s fun _ _ => True) (visits : VisitsCarry root visit)
    (within : ∀ k ∈ p.node.ids, k ∈ root.ids) (distinct : p.node.ids.Nodup)
    (ran : rebuild visit p s = .ok n after) (renames : Renaming root after.exchanges) (settled : s.Settled root) :
    CarriesAll root s after p.node.children n.children ∧ n.tag = p.node.tag ∧ n.scalars = p.node.scalars ∧
      (n = p.node ∨ n.children ≠ [] ∧ ¬ after.Taken root n.id ∧ n.id ∉ after.keys) := by
  unfold rebuild at ran
  cases known : p.node.kind? with
  | none =>
    rw [known] at ran
    cases ran
  | some kind =>
    rw [known] at ran
    have tag : p.node.tag = .kind kind := by
      unfold Node.kind? at known
      split at known <;> cases known
      assumption
    obtain ⟨rs, s₁, run, made⟩ := bind_ok ran
    rw [Node.ids_eq] at within distinct
    have belowWithin : ∀ k ∈ Node.idsAll p.node.children, k ∈ root.ids :=
      fun k member => within k (List.mem_cons_of_mem _ member)
    have belowDistinct := (List.nodup_cons.mp distinct).2
    have carry (renames : Renaming root s₁.exchanges) :
        CarriesAll root s s₁ p.node.children (putBack p.node.children (rs.map fun r => (r.1, r.2.node))) ∧
          (rs.any (·.2.changed) = false →
            putBack p.node.children (rs.map fun r => (r.1, r.2.node)) = p.node.children) := by
      obtain ⟨_, below, same⟩ := children_carry runs visits (gather kind.parts p.node.children)
        (fun k member => belowWithin k (Node.idsAll_gather_subset member))
        (Node.idsAll_gather_nodup kind.parts_nodup belowDistinct) run renames settled
      refine ⟨below.putBack kind.parts_nodup belowWithin belowDistinct, fun unchanged => ?_⟩
      rw [same unchanged, putBack_gather kind.parts_nodup]
    by_cases changed : rs.any (·.2.changed) = true
    · rw [if_pos changed] at made
      obtain ⟨rfl, exchanges, extras, _⟩ := remake_ok made
      obtain ⟨below, _⟩ := carry (exchanges ▸ renames)
      have filled : p.node.children ≠ [] := by
        intro childless
        rw [childless, gather_nil] at run
        cases run
        cases changed
      have keys : after.keys = s₁.keys := State.keys_congr extras
      have taken (k : Nat) : after.Taken root k ↔ s₁.Taken root k := by
        unfold State.Taken State.returned
        rw [exchanges]
      have kept : after.surroundings = s₁.surroundings := State.surroundings_congr extras
      refine ⟨⟨remake_settled made renames.fresh below.settled, below.fields, ?_, ?_, ?_⟩, tag.symm, rfl,
        .inr ⟨?_, ?_, ?_⟩⟩
      · simp only [taken]
        exact below.news
      · rw [exchanges, kept]
        exact below.follows
      · rw [kept]
        exact below.frame
      · intro childless
        have fields := below.fields
        rw [show putBack p.node.children (rs.map fun r => (r.1, r.2.node)) = [] from childless] at fields
        exact filled (List.map_eq_nil_iff.mp fields.symm)
      · rw [taken]
        exact fun early => Nat.lt_irrefl _ (below.settled.taken_lt early)
      · rw [keys]
        exact fun member => Nat.lt_irrefl _ (below.settled.keyed _ member)
    · rw [if_neg changed] at made
      cases made
      obtain ⟨below, same⟩ := carry renames
      rw [same (Bool.eq_false_iff.mpr changed)] at below
      exact ⟨below, rfl, rfl, .inl rfl⟩

/-- What a call gives for the node over the new children: this node, or a new leaf for a leaf. -/
theorem rebuild_offered {visit : Path → Mutate (σ × List Exchange) Rebuilt} {post : Hook σ} {p : Path}
    {rebuilt last : Node} (runs : ∀ p s, Runs (visit p) s fun _ _ => True) (visits : VisitsCarry root visit)
    (within : ∀ k ∈ p.node.ids, k ∈ root.ids) (distinct : p.node.ids.Nodup)
    (built : rebuild visit p s = .ok rebuilt s₁) (posted : observed post (p.withNode rebuilt) s₁ = .ok last after)
    (renames : Renaming root after.exchanges) (settled : s.Settled root) :
    CarriesAll root s s₁ p.node.children last.children ∧
      (last = p.node ∨ ¬ s₁.Taken root last.id ∧ last.id ∉ s₁.keys) ∧
      (last.tag = p.node.tag ∧ last.scalars = p.node.scalars ∨
        p.node.Leaf ∧ last.Leaf ∧ ∃ x ∈ after.exchanges, x.given = p.node ∧ x.returned = last) := by
  have exchanged := (observed_ok posted).1
  have fresh := renames.fresh
  rw [exchanged] at fresh
  have member : (⟨rebuilt, last, s₁.keys, s₁.supply.nextId, after.supply.nextId⟩ : Exchange) ∈ after.exchanges :=
    exchanged ▸ List.mem_cons_self ..
  obtain ⟨below, tag, scalars, origin⟩ := rebuild_carries runs visits within distinct built
    (renames.of_suffix (exchanged ▸ List.suffix_cons ..)) settled
  rcases renames.renames _ member with same | ⟨leaf, leaf', outside⟩
  · obtain rfl : last = rebuilt := same
    exact ⟨below, origin.imp_right fun ⟨_, unknown⟩ => unknown, .inl ⟨tag, scalars⟩⟩
  · -- a leaf has no children that could have changed
    obtain rfl : rebuilt = p.node := origin.resolve_right fun ⟨filled, _⟩ => filled leaf.childless
    have childless : p.node.children = last.children := leaf.childless.trans leaf'.childless.symm
    have new : last ≠ p.node := by
      rintro rfl
      exact outside (within _ (Node.id_mem_ids _))
    obtain ⟨unkeyed, unreturned⟩ := fresh.1.1.resolve_left new
    exact ⟨childless ▸ below, .inr ⟨fun taken => taken.elim outside unreturned, unkeyed⟩,
      .inr ⟨leaf, leaf', _, member, rfl, rfl⟩⟩

/-- The induction is on the depth to which the run may go. -/
theorem visit_carries (post : Hook σ) (depth : Nat) :
    VisitsCarry root (visitBy (observed (.identity σ)) (observed post) depth) := by
  induction depth with
  | zero =>
    intro p s after r within distinct ran
    cases ran
  | succ depth ih =>
    intro p s after r within distinct ran renames settled
    obtain ⟨before, s₁, called, tail₁⟩ := bind_ok ran
    obtain ⟨rebuilt, s₂, built, tail₂⟩ := bind_ok tail₁
    obtain ⟨last, s₃, posted, tail₃⟩ := bind_ok tail₂
    obtain rfl := observed_identity called
    obtain ⟨called', kept⟩ := observed_ok called
    obtain ⟨posted', kept'⟩ := observed_ok posted
    have runs (p : Path) (s : State (σ × List Exchange)) := visitBy_runs ⟨.identity σ, post⟩ depth p s
    have grows₁ : s.exchanges <:+ s₁.exchanges := called' ▸ List.suffix_cons ..
    have grows₂ : s₁.exchanges <:+ s₂.exchanges := (rebuild_runs runs _).grows built
    have grows₃ : s₂.exchanges <:+ s₃.exchanges := posted' ▸ List.suffix_cons ..
    have surroundings : s₃.surroundings = s₂.surroundings := State.surroundings_congr kept'
    have keys : s₃.keys = s₂.keys := State.keys_congr kept'
    have given : last.id ∈ s₃.returned := by
      rw [State.returned, posted']
      exact List.mem_cons_self ..
    have sound := (visitBy_runs ⟨.identity σ, post⟩ (depth + 1) p s).sound ran renames.fresh settled.toSound
    have offered (renames₃ : Renaming root s₃.exchanges) := rebuild_offered runs ih (p := p.withNode p.node) within
      distinct built posted renames₃ (observed_settled called
        (renames₃.of_suffix (grows₂.trans grows₃)).fresh settled)
    by_cases same : (last.id == p.node.id) = true
    · rw [if_pos same] at tail₃
      cases tail₃
      obtain ⟨below, new, alike⟩ := offered renames
      have is : last = p.node := new.resolve_right fun ⟨unknown, _⟩ =>
        unknown (.inl (within _ (beq_iff_eq.mp same ▸ Node.id_mem_ids _)))
      subst is
      have settled₃ := observed_settled posted renames.fresh below.settled
      refine ⟨?_, fun _ => rfl⟩
      exact (Carries.over rfl rfl within distinct below grows₂ grows₃ settled₃ (.inl rfl) (by rw [surroundings])
        (fun k _ _ => by rw [surroundings]) alike).earlier grows₁ kept
    · rw [if_neg same] at tail₃
      obtain ⟨_, s₄, moved, ended⟩ := bind_ok tail₃
      cases ended
      obtain ⟨supply, _⟩ := moveExtras_ok moved
      have exchanges : after.exchanges = s₃.exchanges := by rw [State.exchanges, supply]; rfl
      obtain ⟨below, new, alike⟩ := offered (exchanges ▸ renames)
      have apart : p.node.id ≠ last.id := fun is => same (beq_iff_eq.mpr is.symm)
      obtain ⟨unknown, unkeyed⟩ := new.resolve_left fun is => apart (is ▸ rfl)
      obtain ⟨there, elsewhere⟩ := moveExtras_surroundings moved apart (keys ▸ unkeyed)
      rw [surroundings] at there elsewhere
      have settled₃ := observed_settled posted (exchanges ▸ renames.fresh) below.settled
      have settled₄ : after.Settled root := ⟨sound, fun k member => supply ▸ settled₃.rooted k member⟩
      have given₄ : after.Taken root last.id := .inr (by rw [State.returned, exchanges]; exact given)
      refine ⟨?_, nofun⟩
      exact (Carries.over rfl rfl within distinct below grows₂ (exchanges ▸ grows₃) settled₄ (.inr ⟨unknown, given₄⟩)
        there elsewhere (exchanges ▸ alike)).earlier grows₁ kept

end Carrying

section Runs

variable {m : Mutation σ} {root R : Node} {s after : State σ} {extras : ExtrasMap}

theorem visit_follows (plain : m.pre = .identity σ) (held : s.extras = some extras) (distinct : root.ids.Nodup)
    (single : extras.keys.Nodup) (rooted : ∀ k ∈ root.ids, k < s.supply.nextId)
    (taken : ∀ k ∈ extras.keys, k < s.supply.nextId) (depth : Nat) {r : Rebuilt}
    (ran : m.visit depth (.ofRoot root) s = .ok r after) (renames : Renaming root (m.exchanges depth root s)) :
    ∃ final, after.extras = some final ∧
      FollowsAll (m.exchanges depth root s) extras.get final.get root r.node := by
  have keys : s.keys = extras.keys := by rw [State.keys, held]; rfl
  have balanced := visit_balanced m depth root s (keys ▸ single) (keys ▸ taken) renames.fresh
  rw [ran, held] at balanced
  obtain ⟨final, kept⟩ : ∃ final, after.extras = some final := by
    change Balanced (some extras) after.extras at balanced
    cases left : after.extras with
    | none => rw [left] at balanced; cases balanced
    | some final => exact ⟨final, rfl⟩
  have settled : s.watched.Settled root :=
    ⟨⟨keys ▸ single, keys ▸ taken, fun k member => absurd member (List.not_mem_nil)⟩, rooted⟩
  have mirrored := Mirrors.visitBy m depth (.ofRoot root) s.watched
  rw [show s.watched.bare = s from rfl, ran] at mirrored
  unfold exchanges at renames ⊢
  cases watched : visitBy (observed m.pre) (observed m.post) depth (.ofRoot root) s.watched with
  | error e seen =>
    rw [watched] at mirrored
    cases mirrored
  | ok r' seen =>
    rw [watched] at mirrored renames
    cases mirrored
    rw [plain] at watched
    have carries := (visit_carries m.post depth (.ofRoot root) s.watched seen r (fun _ member => member) distinct
      watched renames settled).1
    have start : s.watched.surroundings = extras.get := by
      funext k
      rw [State.surroundings, show s.watched.extras = some extras from held]
      rfl
    have done : seen.surroundings = final.get := by
      funext k
      rw [State.surroundings, show seen.extras = some final from kept]
      rfl
    refine ⟨final, kept, ?_⟩
    rw [← start, ← done]
    exact carries.follows

end Runs

/-- Where only leaves are renamed, the tree keeps its shape and, but for the new leaves, the kinds, texts and flags of
its nodes, and what was kept before, within and after the node at a position is kept for the node that is now there,
however deep the mutation may go. -/
theorem renamed_leaves_keep_extras (m : Mutation σ) (root : Node) (s : State σ) (extras : ExtrasMap)
    (plain : m.pre = .identity σ) (held : s.extras = some extras) (distinct : root.ids.Nodup)
    (single : extras.keys.Nodup) (rooted : ∀ k ∈ root.ids, k < s.supply.nextId)
    (taken : ∀ k ∈ extras.keys, k < s.supply.nextId) :
    (∀ depth r after, m.visit depth (.ofRoot root) s = .ok r after → Renaming root (m.exchanges depth root s) →
      ∃ final, after.extras = some final ∧
        FollowsAll (m.exchanges depth root s) extras.get final.get root r.node) ∧
    ∀ R after, m.traverse root s = .ok R after → Renaming root (m.exchanges (root.height + growth) root s) →
      ∃ final, after.extras = some final ∧
        FollowsAll (m.exchanges (root.height + growth) root s) extras.get final.get root R := by
  refine ⟨fun depth r after ran renames => visit_follows plain held distinct single rooted taken depth ran renames, ?_⟩
  intro R after ran renames
  obtain ⟨r, s₁, visited, ran⟩ := bind_ok ran
  cases ran
  exact visit_follows plain held distinct single rooted taken _ visited renames

def sumExtras : ExtrasMap := ⟨[(0, ⟨[.whitespace " "], [], []⟩), (2, ⟨[], [], [.comment "//" false true]⟩),
  (3, ⟨[], [], [.semicolon]⟩)]⟩

/-- Both operands are renamed. The extras of the three nodes that are new follow, the sign in between stays. -/
theorem renamed_sum_keeps_extras :
    let root := operation .nameExpression
    let s : State Unit := ⟨⟨4, ()⟩, some sumExtras, []⟩
    (∀ k ∈ root.ids, k < 4) ∧ Renaming root (renamed.exchanges (root.height + growth) root s) ∧
      ∃ R after final, renamed.traverse root s = .ok R after ∧ after.extras = some final ∧
        FollowsAll (renamed.exchanges (root.height + growth) root s) sumExtras.get final.get root R ∧
        R.ids = [6, 4, 1, 5] := by
  intro root s
  let name (id : Nat) (text : String) : Node := .mk id (.kind .nameExpression) [(.text, .text text)] []
  let sign : Node := .mk 1 (.kind .keyword) [(.text, .text "+")] []
  let sum : Node := .mk 6 (.kind .binaryExpression) [] [(.lhs, name 4 "b"), (.operator, sign), (.rhs, name 5 "b")]
  let start : List Exchange := [⟨name 0 "in", name 0 "in", [0, 2, 3], 4, 4⟩, ⟨root, root, [0, 2, 3], 4, 4⟩]
  let middle : List Exchange := [⟨name 2 "a", name 2 "a", [4, 2, 3], 5, 5⟩, ⟨sign, sign, [4, 2, 3], 5, 5⟩,
    ⟨sign, sign, [4, 2, 3], 5, 5⟩, ⟨name 0 "in", name 4 "b", [0, 2, 3], 4, 5⟩]
  let last : Exchange := ⟨name 2 "a", name 5 "b", [4, 2, 3], 5, 6⟩
  have exchanged : renamed.exchanges (root.height + growth) root s =
      ⟨sum, sum, [5, 4, 3], 7, 7⟩ :: last :: (middle ++ start) := by
    let visit := visitBy (observed renamed.pre) (observed renamed.post) (root.height + growth - 1)
    let p : Path := .ofRoot root
    let moved := "moving extras from NameExpression to NameExpression"
    let given : State (Unit × List Exchange) := ⟨⟨4, (), [⟨root, root, [0, 2, 3], 4, 4⟩]⟩, some sumExtras, []⟩
    let lhs : State (Unit × List Exchange) := ⟨⟨5, (), ⟨name 0 "in", name 4 "b", [0, 2, 3], 4, 5⟩ :: start⟩,
      some ⟨[(4, ⟨[.whitespace " "], [], []⟩), (2, ⟨[], [], [.comment "//" false true]⟩), (3, ⟨[], [], [.semicolon]⟩)]⟩,
      [moved]⟩
    let operator : State (Unit × List Exchange) := { lhs with supply := ⟨5, (), middle.tail ++ start⟩ }
    let rhs : State (Unit × List Exchange) := ⟨⟨6, (), last :: (middle ++ start)⟩,
      some ⟨[(5, ⟨[], [], [.comment "//" false true]⟩), (4, ⟨[.whitespace " "], [], []⟩), (3, ⟨[], [], [.semicolon]⟩)]⟩,
      [moved, moved]⟩
    have first : visit (p.down (name 0 "in")) given = .ok ⟨name 4 "b", true⟩ lhs := rfl
    have second : visit (p.down sign) lhs = .ok ⟨sign, false⟩ operator := rfl
    have third : visit (p.down (name 2 "a")) operator = .ok ⟨name 5 "b", true⟩ rhs := rfl
    have children :
        (gather Kind.binaryExpression.parts root.children).mapM (visitChild visit p .binaryExpression) given =
          .ok [(.lhs, ⟨name 4 "b", true⟩), (.operator, ⟨sign, false⟩), (.rhs, ⟨name 5 "b", true⟩)] rhs :=
      mapM_cons_of_ok (visitChild_of_ok first rfl) (mapM_cons_of_ok (visitChild_of_ok second rfl)
        (mapM_cons_of_ok (visitChild_of_ok third rfl) rfl))
    let made : State (Unit × List Exchange) :=
      { rhs with supply := ⟨7, (), last :: (middle ++ start)⟩, log := "rebuilding BinaryExpression" :: rhs.log }
    let done : State (Unit × List Exchange) :=
      { made with supply := ⟨7, (), ⟨sum, sum, [5, 4, 3], 7, 7⟩ :: last :: (middle ++ start)⟩ }
    have offered : observed renamed.pre p s.watched = .ok root given := rfl
    have remade : rebuild visit p given = .ok sum made := (bind_of_ok children).trans rfl
    have returned : observed renamed.post (p.withNode sum) made = .ok sum done := rfl
    obtain ⟨after, visited, calls⟩ : ∃ after, visitBy (observed renamed.pre) (observed renamed.post)
        (root.height + growth) p s.watched = .ok ⟨sum, true⟩ after ∧ after.exchanges = done.exchanges :=
      ⟨_, (visitBy_of_ok (root.height + growth - 1) p offered remade returned).trans rfl, rfl⟩
    rw [exchanges, visited]
    exact calls
  have leaf (id : Nat) (text : String) : (name id text).Leaf := ⟨⟨.nameExpression, rfl, rfl⟩, rfl⟩
  have renames : Renaming root (renamed.exchanges (root.height + growth) root s) := by
    rw [exchanged]
    have first : Exchange.Fresh ⟨name 0 "in", name 4 "b", [0, 2, 3], 4, 5⟩ start :=
      ⟨.inr ⟨by decide, by decide⟩, by decide, by decide⟩
    have second : Exchange.Fresh ⟨name 2 "a", name 5 "b", [4, 2, 3], 5, 6⟩ (middle ++ start) :=
      ⟨.inr ⟨by decide, by decide⟩, by decide, by decide⟩
    refine ⟨⟨⟨.inl rfl, by decide, by decide⟩, second, ⟨.inl rfl, by decide, by decide⟩,
      ⟨.inl rfl, by decide, by decide⟩, ⟨.inl rfl, by decide, by decide⟩, first, ⟨.inl rfl, by decide, by decide⟩,
      ⟨.inl rfl, by decide, by decide⟩, trivial⟩, ?_⟩
    simp only [middle, start, List.cons_append, List.nil_append, List.forall_mem_cons]
    exact ⟨.inl rfl, .inr ⟨leaf 2 "a", leaf 5 "b", by decide⟩, .inl rfl, .inl rfl, .inl rfl,
      .inr ⟨leaf 0 "in", leaf 4 "b", by decide⟩, .inl rfl, .inl rfl, by simp⟩
  have rooted : ∀ k ∈ root.ids, k < 4 := by decide
  obtain ⟨R, after, ran, ids⟩ : ∃ R after, renamed.traverse root s = .ok R after ∧ R.ids = [6, 4, 1, 5] :=
    ⟨_, _, rfl, rfl⟩
  obtain ⟨final, kept, follows⟩ := (renamed_leaves_keep_extras renamed root s sumExtras rfl rfl (by decide) (by decide)
    rooted (by decide)).2 R after ran renames
  exact ⟨rooted, renames, R, after, final, ran, kept, follows, ids⟩

end Mutation

end KotlinSyntax
