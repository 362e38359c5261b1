import Mathlib.Data.List.Nodup
import KotlinSyntax.Proofs.Mutation.WellFormed

/-! Extras that are handed over. A mutation moves what is kept for one node to another, entry by entry, and an entry
is lost only if one moves onto it. Where hooks return new nodes this never happens: the entries of the map are in the
end the same ones under other numbers. -/
namespace KotlinSyntax

namespace ExtrasMap

variable {m : ExtrasMap} {source target k : Nat}

def keys (m : ExtrasMap) : List Nat := m.entries.map (·.1)

def values (m : ExtrasMap) : List Surroundings := m.entries.map (·.2)

theorem lookup_split {entries : List (Nat × Surroundings)} {s : Surroundings} (h : entries.lookup k = some s) :
    ∃ before after, entries = before ++ (k, s) :: after := by
  rw [List.lookup_eq_some_iff] at h
  obtain ⟨before, after, rfl, _⟩ := h
  exact ⟨before, after, rfl⟩

theorem contains_iff : m.contains k = true ↔ k ∈ m.keys := by
  rw [contains, get?, List.lookup_isSome_iff, keys, List.mem_map]
  simp [eq_comm (a := k)]

/-- A move to a new number takes one entry out and puts it in front. -/
theorem move_split (distinct : m.keys.Nodup) (held : source ∈ m.keys) (new : target ∉ m.keys) :
    ∃ before s after, m.entries = before ++ (source, s) :: after ∧
      (m.move source target).entries = (target, s) :: (before ++ after) := by
  obtain ⟨s, found⟩ := Option.isSome_iff_exists.mp (contains_iff.mpr held)
  obtain ⟨before, after, split⟩ := lookup_split found
  refine ⟨before, s, after, split, ?_⟩
  have other : (source == target) = false := by
    refine beq_false_of_ne ?_
    rintro rfl
    exact new held
  have erased : (m.erase source).entries = before ++ after := by
    rw [keys, split, List.map_append, List.map_cons, List.nodup_middle, List.nodup_cons, ← List.map_append] at distinct
    have rest : ∀ e ∈ before ++ after, (e.1 != source) = true := by
      intro e member
      refine bne_iff_ne.mpr fun same => distinct.1 ?_
      exact List.mem_map.mpr ⟨e, member, same⟩
    have kept := List.filter_eq_self.mpr rest
    rw [List.filter_append] at kept
    rw [erase, split, List.filter_append, List.filter_cons_of_neg (by simp), kept]
  have absent : (m.erase source).contains target = false := by
    rw [Bool.eq_false_iff]
    intro present
    have member := contains_iff.mp present
    rw [keys, erased] at member
    refine new ?_
    rw [keys, split, List.map_append, List.map_cons]
    rw [List.map_append] at member
    exact List.mem_append.mpr ((List.mem_append.mp member).imp_right (List.mem_cons_of_mem _))
  rw [move, found]
  simp only [other, Bool.false_eq_true, if_false, insert, absent]
  rw [erased]

theorem move_values (distinct : m.keys.Nodup) (held : source ∈ m.keys) (new : target ∉ m.keys) :
    (m.move source target).values.Perm m.values := by
  obtain ⟨before, s, after, split, moved⟩ := move_split distinct held new
  rw [values, values, moved, split, List.map_cons, List.map_append, List.map_append, List.map_cons]
  exact List.perm_middle.symm

theorem move_keys (distinct : m.keys.Nodup) (held : source ∈ m.keys) (new : target ∉ m.keys) :
    (m.move source target).keys.Nodup ∧ ∀ k ∈ (m.move source target).keys, k = target ∨ k ∈ m.keys := by
  obtain ⟨before, s, after, split, moved⟩ := move_split distinct held new
  have own : m.keys = before.map (·.1) ++ source :: after.map (·.1) := by
    rw [keys, split, List.map_append, List.map_cons]
  have other : (m.move source target).keys = target :: (before.map (·.1) ++ after.map (·.1)) := by
    rw [keys, moved, List.map_cons, List.map_append]
  have left : ∀ k ∈ before.map (·.1) ++ after.map (·.1), k ∈ m.keys := by
    intro k member
    rw [own]
    exact List.mem_append.mpr ((List.mem_append.mp member).imp_right (List.mem_cons_of_mem _))
  rw [other]
  refine ⟨List.nodup_cons.mpr ⟨fun member => new (left target member), ?_⟩, ?_⟩
  · rw [own, List.nodup_middle] at distinct
    exact distinct.of_cons
  · intro k member
    exact (List.mem_cons.mp member).imp_right (left k)

end ExtrasMap

/-- If there is a map before there is one after, with the same entries under other numbers. -/
def Balanced : Option ExtrasMap → Option ExtrasMap → Prop := Option.Rel fun m n => n.values.Perm m.values

namespace Balanced

variable {m₁ m₂ m₃ : Option ExtrasMap}

theorem refl (m : Option ExtrasMap) : Balanced m m := by
  cases m with
  | none => exact .none
  | some m => exact .some (.refl _)

theorem trans (first : Balanced m₁ m₂) (next : Balanced m₂ m₃) : Balanced m₁ m₃ := by
  cases first with
  | none => exact next
  | some one =>
    cases next with
    | some two => exact .some (two.trans one)

end Balanced

namespace Mutation

/-- A call of a hook that came to an end. -/
structure Exchange where
  given : Node
  returned : Node
  /-- The numbers of the nodes that had extras at the call. -/
  keys : List Nat
  /-- The first free number before the call. -/
  free : Nat
  /-- The first free number behind it. -/
  left : Nat

/-- The node that came back is the given one, or a node without extras that no call gave before. In either case its
number is not free any more. -/
def Exchange.Fresh (x : Exchange) (earlier : List Exchange) : Prop :=
  (x.returned = x.given ∨ x.returned.id ∉ x.keys ∧ x.returned.id ∉ earlier.map (·.returned.id)) ∧
    x.free ≤ x.left ∧ x.returned.id < x.left

/-- Each call is fresh with regard to those before it. The newest one comes first. -/
def AllFresh : List Exchange → Prop
  | [] => True
  | x :: earlier => x.Fresh earlier ∧ AllFresh earlier

theorem AllFresh.of_suffix {xs ys : List Exchange} (suffix : xs <:+ ys) (h : AllFresh ys) : AllFresh xs := by
  obtain ⟨newer, rfl⟩ := suffix
  induction newer with
  | nil => exact h
  | cons x newer ih => exact ih h.2

variable {σ α β : Type}

def State.keys (s : State σ) : List Nat := (s.extras.map (·.keys)).getD []

def observed (h : Hook σ) (p : Path) : Mutate (σ × List Exchange) Node := fun s =>
  match h p ⟨s.supply.nextId, s.supply.own.1⟩ with
  | .ok n supply =>
    .ok n { s with supply := ⟨supply.nextId, supply.own,
      ⟨p.node, n, s.keys, s.supply.nextId, supply.nextId⟩ :: s.supply.own.2⟩ }
  | .error e supply => .error (.node e) { s with supply := ⟨supply.nextId, supply.own, s.supply.own.2⟩ }

/-- Rebuilding as a mutation does it, with any two ways to call hooks. -/
def visitBy (pre post : Path → Mutate σ Node) : Nat → Path → Mutate σ Rebuilt
  | 0, _ => throw .exhausted
  | depth + 1, p => do
    let before ← pre p
    let rebuilt ← rebuild (visitBy pre post depth) (p.withNode before)
    let after ← post (p.withNode rebuilt)
    if after.id == p.node.id then return ⟨p.node, false⟩
    else
      moveExtras p.node after
      return ⟨after, true⟩

theorem visit_eq_visitBy (m : Mutation σ) (depth : Nat) (p : Path) :
    m.visit depth p = visitBy (call m.pre) (call m.post) depth p := by
  induction depth generalizing p with
  | zero => rfl
  | succ depth ih => rw [visit, visitBy, funext ih]

def State.bare (s : State (σ × List Exchange)) : State σ := { s with supply := ⟨s.supply.nextId, s.supply.own.1⟩ }

def State.watched (s : State σ) : State (σ × List Exchange) := { s with supply := ⟨s.supply.nextId, s.supply.own, []⟩ }

def bareResult : EStateM.Result MutationError (State (σ × List Exchange)) α → EStateM.Result MutationError (State σ) α
  | .ok a s => .ok a s.bare
  | .error e s => .error e s.bare

/-- Taking down what is exchanged does not change the run. -/
def Mirrors (x : Mutate (σ × List Exchange) α) (y : Mutate σ α) : Prop := ∀ s, y s.bare = bareResult (x s)

namespace Mirrors

theorem pure (a : α) : Mirrors (σ := σ) (Pure.pure a) (Pure.pure a) := fun _ => rfl

theorem throw (e : MutationError) : Mirrors (σ := σ) (α := α) (throw e) (throw e) := fun _ => rfl

theorem bind {x : Mutate (σ × List Exchange) α} {y : Mutate σ α} {f : α → Mutate (σ × List Exchange) β}
    {g : α → Mutate σ β} (first : Mirrors x y) (next : ∀ a, Mirrors (f a) (g a)) : Mirrors (x >>= f) (y >>= g) := by
  intro s
  change EStateM.bind y g s.bare = bareResult (EStateM.bind x f s)
  rw [EStateM.bind, EStateM.bind, first s]
  cases x s with
  | ok a after => exact next a after
  | error e after => rfl

theorem ite {c : Prop} [Decidable c] {x x' : Mutate (σ × List Exchange) α} {y y' : Mutate σ α} (yes : Mirrors x y)
    (no : Mirrors x' y') : Mirrors (if c then x else x') (if c then y else y') := by
  split
  · exact yes
  · exact no

theorem mapM {f : α → Mutate (σ × List Exchange) β} {g : α → Mutate σ β} (each : ∀ a, Mirrors (f a) (g a))
    (xs : List α) : Mirrors (xs.mapM f) (xs.mapM g) := by
  induction xs with
  | nil => exact pure []
  | cons a rest ih =>
    rw [List.mapM_cons, List.mapM_cons]
    exact (each a).bind fun b => ih.bind fun bs => pure (b :: bs)

theorem observed (h : Hook σ) (p : Path) : Mirrors (Mutation.observed h p) (call h p) := by
  intro s
  have same : s.bare.supply = ⟨s.supply.nextId, s.supply.own.1⟩ := rfl
  rw [call, Mutation.observed, same]
  cases h p ⟨s.supply.nextId, s.supply.own.1⟩ <;> rfl

/-- What a step reads of the state is there with and without what was taken down. -/
theorem get {f : State (σ × List Exchange) → Mutate (σ × List Exchange) α} {g : State σ → Mutate σ α}
    (next : ∀ s, Mirrors (f s) (g s.bare)) : Mirrors (MonadState.get >>= f) (MonadState.get >>= g) := fun s => next s s

theorem set (s : State (σ × List Exchange)) :
    Mirrors (σ := σ) (α := PUnit) (MonadStateOf.set s) (MonadStateOf.set s.bare) := fun _ => rfl

theorem note (line : String) : Mirrors (σ := σ) (Mutation.note line) (Mutation.note line) := fun _ => rfl

theorem moveExtras (source target : Node) :
    Mirrors (σ := σ) (Mutation.moveExtras source target) (Mutation.moveExtras source target) := by
  refine get fun s => ?_
  have same : s.bare.extras = s.extras := rfl
  rw [same]
  split
  · exact .ite ((note _).bind fun _ _ => rfl) (pure _)
  · exact pure _

theorem remake (n : Node) (k : Kind) (children : List (Field × Node)) :
    Mirrors (σ := σ) (Mutation.remake n k children) (Mutation.remake n k children) := by
  refine (note _).bind fun _ => get fun s => ?_
  refine (set _).bind fun _ => ?_
  have same : s.bare.supply.nextId = s.supply.nextId := rfl
  rw [same]
  split
  · exact pure _
  · exact throw _

theorem rebuild {visit : Path → Mutate (σ × List Exchange) Rebuilt} {visit' : Path → Mutate σ Rebuilt}
    (visits : ∀ p, Mirrors (visit p) (visit' p)) (p : Path) :
    Mirrors (Mutation.rebuild visit p) (Mutation.rebuild visit' p) := by
  unfold Mutation.rebuild
  split
  · exact throw _
  · rename_i k _
    refine (mapM (fun c => ?_) _).bind fun parts => .ite (remake _ _ _) (pure _)
    exact (visits _).bind fun r => .ite (pure _) (throw _)

theorem visitBy (m : Mutation σ) (depth : Nat) (p : Path) :
    Mirrors (Mutation.visitBy (Mutation.observed m.pre) (Mutation.observed m.post) depth p) (m.visit depth p) := by
  rw [visit_eq_visitBy]
  induction depth generalizing p with
  | zero => exact throw _
  | succ depth ih =>
    refine (observed m.pre p).bind fun before => (rebuild ih _).bind fun rebuilt => ?_
    refine (observed m.post _).bind fun after => .ite (pure _) ?_
    exact (moveExtras _ _).bind fun _ => pure _

end Mirrors

section Conservation

variable {s s₁ s₂ : State (σ × List Exchange)} {k : Nat}

/-- What was taken down so far, the newest call first. -/
def State.exchanges (s : State (σ × List Exchange)) : List Exchange := s.supply.own.2

def State.returned (s : State (σ × List Exchange)) : List Nat := s.exchanges.map (·.returned.id)

def State.Unused (s : State (σ × List Exchange)) (k : Nat) : Prop := k ∉ s.keys ∧ k ∉ s.returned

/-- Every node has one entry at most, and no number is free that has one or that a call gave. -/
structure State.Sound (s : State (σ × List Exchange)) : Prop where
  distinct : s.keys.Nodup
  keyed : ∀ k ∈ s.keys, k < s.supply.nextId
  given : ∀ k ∈ s.returned, k < s.supply.nextId

theorem State.Sound.unused_nextId (h : s.Sound) : s.Unused s.supply.nextId :=
  ⟨fun member => Nat.lt_irrefl _ (h.keyed _ member), fun member => Nat.lt_irrefl _ (h.given _ member)⟩

/-- A part of the run in which all calls were fresh loses no entry. -/
structure Conserves (s after : State (σ × List Exchange)) : Prop where
  grows : s.exchanges <:+ after.exchanges
  balanced : AllFresh after.exchanges → s.Sound → Balanced s.extras after.extras

/-- If it comes to an end, no node that calls gave before has got extras in it. -/
structure Advances (s after : State (σ × List Exchange)) : Prop extends Conserves s after where
  sound : AllFresh after.exchanges → s.Sound → after.Sound
  unclaimed : AllFresh after.exchanges → s.Sound → ∀ k ∈ s.returned, k ∈ after.keys → k ∈ s.keys

theorem Conserves.after (next : Conserves s₁ s₂) (first : Advances s s₁) : Conserves s s₂ := by
  refine ⟨first.grows.trans next.grows, fun fresh sound => ?_⟩
  have earlier := fresh.of_suffix next.grows
  exact (first.balanced earlier sound).trans (next.balanced fresh (first.sound earlier sound))

theorem Advances.refl (s : State (σ × List Exchange)) : Advances s s :=
  ⟨⟨List.suffix_refl _, fun _ _ => .refl _⟩, fun _ sound => sound, fun _ _ _ _ member => member⟩

theorem Advances.after (next : Advances s₁ s₂) (first : Advances s s₁) : Advances s s₂ := by
  refine ⟨next.toConserves.after first, fun fresh sound => ?_, fun fresh sound k given member => ?_⟩
  · exact next.sound fresh (first.sound (fresh.of_suffix next.grows) sound)
  · have earlier := fresh.of_suffix next.grows
    have still : k ∈ s₁.returned := (first.grows.map _).subset given
    exact first.unclaimed earlier sound k given
      (next.unclaimed fresh (first.sound earlier sound) k still member)

/-- A number that is unused behind a part of the run was not given before it either. -/
theorem Advances.not_returned (h : Advances s s₁) (unused : k ∉ s₁.returned) : k ∉ s.returned :=
  fun given => unused ((h.grows.map _).subset given)

/-- The run advances to its end, with something said of the value if all calls were fresh, or it fails without
having lost an entry. -/
def Runs (x : Mutate (σ × List Exchange) α) (s : State (σ × List Exchange))
    (Q : α → State (σ × List Exchange) → Prop) : Prop :=
  Leaves x s (fun a after => Advances s after ∧ (AllFresh after.exchanges → s.Sound → Q a after))
    fun _ after => Conserves s after

namespace Runs

variable {x : Mutate (σ × List Exchange) α} {Q Q' : α → State (σ × List Exchange) → Prop}

theorem pure {a : α} (h : Q a s) : Runs (Pure.pure a) s Q := ⟨.refl s, fun _ _ => h⟩

theorem throw {e : MutationError} : Runs (throw e) s Q := (Advances.refl s).toConserves

theorem mono (h : Runs x s Q') (said : ∀ a after, Q' a after → Q a after) : Runs x s Q :=
  Leaves.mono h (fun a after ⟨advances, q⟩ => ⟨advances, fun fresh sound => said a after (q fresh sound)⟩)
    fun _ _ conserves => conserves

/-- Seen from before another part of the run. -/
theorem after (h : Runs x s₁ Q) (first : Advances s s₁) :
    Leaves x s₁ (fun a s₂ => Advances s₁ s₂ ∧ (AllFresh s₂.exchanges → s.Sound → Q a s₂))
      fun _ s₂ => Conserves s s₂ := by
  refine Leaves.mono h ?_ fun _ _ conserves => conserves.after first
  rintro a s₂ ⟨advances, said⟩
  exact ⟨advances, fun fresh sound => said fresh (first.sound (fresh.of_suffix advances.grows) sound)⟩

theorem bind {f : α → Mutate (σ × List Exchange) β} {R : β → State (σ × List Exchange) → Prop} (first : Runs x s Q)
    (next : ∀ a s₁, Runs (f a) s₁ R) : Runs (x >>= f) s R := by
  refine Leaves.bind first fun a s₁ ⟨advances, _⟩ => ?_
  refine ((next a s₁).after advances).mono ?_ fun _ _ conserves => conserves
  rintro b s₂ ⟨further, said⟩
  exact ⟨further.after advances, said⟩

theorem ite {c : Prop} [Decidable c] {y : Mutate (σ × List Exchange) α} (yes : c → Runs x s Q) (no : ¬c → Runs y s Q) :
    Runs (if c then x else y) s Q := Leaves.ite yes no

theorem mapM {f : α → Mutate (σ × List Exchange) β} (each : ∀ a s, Runs (f a) s fun _ _ => True) (xs : List α)
    (s : State (σ × List Exchange)) : Runs (xs.mapM f) s fun _ _ => True := by
  induction xs generalizing s with
  | nil => exact pure trivial
  | cons a rest ih =>
    rw [List.mapM_cons]
    exact bind (each a s) fun b s₁ => bind (ih s₁) fun bs s₂ => pure trivial

end Runs

/-- What a fresh call gives is the given node or an unused one. -/
theorem observed_runs (h : Hook σ) (p : Path) : Runs (observed h p) s fun n after =>
    after.keys = s.keys ∧ n.id ∈ after.returned ∧ (n = p.node ∨ s.Unused n.id) := by
  unfold Runs Leaves observed
  cases h p ⟨s.supply.nextId, s.supply.own.1⟩ with
  | error e supply => exact ⟨List.suffix_refl _, fun _ _ => .refl _⟩
  | ok n supply =>
    refine ⟨⟨⟨List.suffix_cons .., fun _ _ => .refl _⟩, ?_, fun _ _ _ _ member => member⟩, ?_⟩
    · rintro ⟨⟨_, room, taken⟩, _⟩ sound
      refine ⟨sound.distinct, fun k member => Nat.lt_of_lt_of_le (sound.keyed k member) room, fun k member => ?_⟩
      rcases List.mem_cons.mp member with rfl | member
      · exact taken
      · exact Nat.lt_of_lt_of_le (sound.given k member) room
    · rintro ⟨⟨given, _⟩, _⟩ _
      exact ⟨rfl, List.mem_cons_self .., given⟩

/-- A node that is made anew is unused. -/
theorem remake_runs (n : Node) (k : Kind) (children : List (Field × Node)) :
    Runs (remake n k children) s fun n after => after.Unused n.id := by
  let after : State (σ × List Exchange) :=
    { s with supply.nextId := s.supply.nextId + 1, log := ("rebuilding " ++ n.name) :: s.log }
  have advances : Advances s after := by
    refine ⟨⟨List.suffix_refl _, fun _ _ => .refl _⟩, fun _ sound => ?_, fun _ _ _ _ member => member⟩
    exact ⟨sound.distinct, fun k member => Nat.lt_succ_of_lt (sound.keyed k member),
      fun k member => Nat.lt_succ_of_lt (sound.given k member)⟩
  refine Leaves.bind (R := fun _ s₁ => s₁ = { s with log := after.log }) (.note rfl) ?_
  rintro _ _ rfl
  refine Leaves.bind (R := fun s₁ s₂ => s₁ = { s with log := after.log } ∧ s₂ = s₁) (.get ⟨rfl, rfl⟩) ?_
  rintro _ _ ⟨rfl, rfl⟩
  refine Leaves.bind (R := fun _ s₁ => s₁ = after) (.set rfl) ?_
  rintro _ _ rfl
  cases made : Node.make s.supply.nextId k n.scalars children with
  | error e => exact .throw advances.toConserves
  | ok other =>
    obtain ⟨rfl, _⟩ := Node.make_ok made
    exact .pure ⟨advances, fun _ sound => sound.unused_nextId⟩

theorem rebuild_runs {visit : Path → Mutate (σ × List Exchange) Rebuilt}
    (visits : ∀ p s, Runs (visit p) s fun _ _ => True) (p : Path) :
    Runs (rebuild visit p) s fun n after => n = p.node ∨ after.Unused n.id := by
  unfold rebuild
  split
  · exact .throw
  · rename_i k _
    have child (c : Field × Node) (s : State (σ × List Exchange)) : Runs (visitChild visit p k c) s fun _ _ => True :=
      (visits _ s).bind fun r s₁ => .ite (fun _ => .pure trivial) fun _ => .throw
    refine (Runs.mapM child _ s).bind fun parts s₁ => .ite (fun _ => ?_) fun _ => .pure (.inl rfl)
    exact (remake_runs ..).mono fun n after unused => .inr unused

/-- A move to an unused number, at the end of a part of the run in which a call gave it. -/
theorem moveExtras_runs {source target : Node} (first : Advances s s₁)
    (said : AllFresh s₁.exchanges → s.Sound → target.id ∉ s₁.keys ∧ target.id ∉ s.returned ∧ target.id ∈ s₁.returned)
    {E : MutationError → State (σ × List Exchange) → Prop} :
    Leaves (moveExtras source target) s₁ (fun _ after => Advances s after) E := by
  refine Leaves.bind (R := fun s₂ s₃ => s₁ = s₂ ∧ s₁ = s₃) (.get ⟨rfl, rfl⟩) ?_
  rintro _ _ ⟨rfl, rfl⟩
  split
  · rename_i m held
    refine .ite (fun movable => ?_) fun _ => .pure first
    refine Leaves.bind (R := fun _ s₂ => ∃ log, s₂ = { s₁ with log }) (.note ⟨_, rfl⟩) ?_
    rintro _ _ ⟨log, rfl⟩
    have keys : s₁.keys = m.keys := by rw [State.keys, held]; rfl
    have kept : source.id ∈ m.keys := ExtrasMap.contains_iff.mp (Bool.and_eq_true_iff.mp movable).2
    change Advances s { s₁ with extras := some (m.move source.id target.id), log }
    refine ⟨⟨first.grows, fun fresh sound => ?_⟩, fun fresh sound => ?_, fun fresh sound k given member => ?_⟩
    all_goals
      obtain ⟨new, elsewhere, given'⟩ := said fresh sound
      have before := first.sound fresh sound
      have distinct := keys ▸ before.distinct
      rw [keys] at new
      obtain ⟨nodup, among⟩ := ExtrasMap.move_keys distinct kept new
    · refine (first.balanced fresh sound).trans ?_
      rw [held]
      exact .some (ExtrasMap.move_values distinct kept new)
    · refine ⟨nodup, fun k member => ?_, before.given⟩
      rcases among k member with rfl | member
      · exact before.given _ given'
      · exact before.keyed k (keys ▸ member)
    · rcases among k member with rfl | member
      · exact absurd given elsewhere
      · exact first.unclaimed fresh sound k given (keys ▸ member)
  · exact .pure first

theorem visitBy_runs (m : Mutation σ) (depth : Nat) (p : Path) (s : State (σ × List Exchange)) :
    Runs (visitBy (observed m.pre) (observed m.post) depth p) s fun _ _ => True := by
  induction depth generalizing p s with
  | zero => exact .throw
  | succ depth ih =>
    refine Leaves.bind (observed_runs m.pre p) fun before s₁ ⟨first, given⟩ => ?_
    refine Leaves.bind ((rebuild_runs ih (p.withNode before)).after first) fun rebuilt s₂ ⟨second, made⟩ => ?_
    have upTo₂ := second.after first
    refine Leaves.bind ((observed_runs m.post (p.withNode rebuilt)).after upTo₂) fun after s₃ ⟨third, last⟩ => ?_
    have upTo₃ := third.after upTo₂
    refine .ite (fun _ => .pure ⟨upTo₃, fun _ _ => trivial⟩) fun other => ?_
    refine Leaves.bind (moveExtras_runs upTo₃ fun fresh sound => ?_) fun _ s₄ advances =>
      .pure ⟨advances, fun _ _ => trivial⟩
    have fresh₂ := fresh.of_suffix third.grows
    have fresh₁ := fresh₂.of_suffix second.grows
    obtain ⟨keys₃, returned₃, origin⟩ := last fresh sound
    obtain ⟨keys₁, returned₁, start⟩ := given fresh₁ sound
    rw [keys₃]
    -- the new node comes up in the last call, in the rebuilding or in the first call, and is unused there
    rcases origin with rfl | ⟨unkeyed, unreturned⟩
    · refine ⟨?_, ?_, returned₃⟩
      all_goals rcases made fresh₂ sound with same | ⟨unkeyed, unreturned⟩
      · rw [show after = before from same]
        intro member
        have early := second.unclaimed fresh₂ (first.sound fresh₁ sound) _ returned₁ member
        rcases start with rfl | ⟨unkeyed, _⟩
        · exact other (beq_iff_eq.mpr (congrArg Node.id same))
        · exact unkeyed (keys₁ ▸ early)
      · exact unkeyed
      · rw [show after = before from same]
        rcases start with rfl | ⟨_, unreturned⟩
        · exact absurd (beq_iff_eq.mpr (congrArg Node.id same)) other
        · exact unreturned
      · exact upTo₂.not_returned unreturned
    · exact ⟨unkeyed, upTo₂.not_returned unreturned, returned₃⟩

end Conservation

/-- What the hooks of a mutation are given and return while it rebuilds a tree, the newest call first. -/
def exchanges (m : Mutation σ) (depth : Nat) (root : Node) (s : State σ) : List Exchange :=
  match visitBy (observed m.pre) (observed m.post) depth (.ofRoot root) s.watched with
  | .ok _ after => after.exchanges
  | .error _ after => after.exchanges

def left : EStateM.Result MutationError (State σ) α → Option ExtrasMap
  | .ok _ after => after.extras
  | .error _ after => after.extras

theorem visit_balanced (m : Mutation σ) (depth : Nat) (root : Node) (s : State σ)
    (distinct : s.keys.Nodup) (taken : ∀ k ∈ s.keys, k < s.supply.nextId)
    (fresh : AllFresh (m.exchanges depth root s)) : Balanced s.extras (left (m.visit depth (.ofRoot root) s)) := by
  have sound : s.watched.Sound := ⟨distinct, taken, fun k member => (List.not_mem_nil member).elim⟩
  have runs := visitBy_runs m depth (.ofRoot root) s.watched
  have mirrored := Mirrors.visitBy m depth (.ofRoot root) s.watched
  rw [show s.watched.bare = s from rfl] at mirrored
  rw [mirrored]
  unfold exchanges at fresh
  unfold Runs Leaves at runs
  cases ran : visitBy (observed m.pre) (observed m.post) depth (.ofRoot root) s.watched with
  | ok r after =>
    rw [ran] at fresh runs
    exact runs.1.balanced fresh sound
  | error e after =>
    rw [ran] at fresh runs
    exact runs.balanced fresh sound

/-- A mutation whose hooks give the node they are given or a fresh one keeps every entry of the map, as often as it
was there, whether it comes to an end or fails. -/
theorem fresh_hooks_conserve_extras (m : Mutation σ) (root : Node) (s : State σ) (extras : ExtrasMap)
    (held : s.extras = some extras) (distinct : extras.keys.Nodup) (taken : ∀ k ∈ extras.keys, k < s.supply.nextId) :
    (∀ depth, AllFresh (m.exchanges depth root s) →
      ∃ after, left (m.visit depth (.ofRoot root) s) = some after ∧ after.values.Perm extras.values ∧
        after.size = extras.size) ∧
    (AllFresh (m.exchanges (root.height + growth) root s) →
      ∃ after, left (m.traverse root s) = some after ∧ after.values.Perm extras.values ∧
        after.size = extras.size) := by
  have keys : s.keys = extras.keys := by rw [State.keys, held]; rfl
  have visited (depth : Nat) (fresh : AllFresh (m.exchanges depth root s)) :
      ∃ after, left (m.visit depth (.ofRoot root) s) = some after ∧ after.values.Perm extras.values ∧
        after.size = extras.size := by
    have balanced := visit_balanced m depth root s (keys ▸ distinct) (keys ▸ taken) fresh
    rw [held] at balanced
    cases result : left (m.visit depth (.ofRoot root) s) with
    | none => rw [result] at balanced; cases balanced
    | some after =>
      rw [result] at balanced
      cases balanced with
      | some perm =>
        have sizes := perm.length_eq
        rw [ExtrasMap.values, ExtrasMap.values, List.length_map, List.length_map] at sizes
        exact ⟨after, rfl, perm, sizes⟩
  refine ⟨visited, fun fresh => ?_⟩
  have same : left (m.traverse root s) = left (m.visit (root.height + growth) (.ofRoot root) s) := by
    change left (EStateM.bind _ _ s) = _
    rw [EStateM.bind]
    cases m.visit (root.height + growth) (.ofRoot root) s <;> rfl
  rw [same]
  exact visited _ fresh

def grouped (n : Node) (id : Nat) : Node := .mk id (.kind .parenthesizedExpression) [] [(.expression, n)]

def groupedExtras : ExtrasMap := ⟨[(0, ⟨[.whitespace " "], [], []⟩), (1, ⟨[], [], [.semicolon]⟩)]⟩

theorem renamed_group_conserves_extras :
    let root := grouped (.mk 0 (.kind .nameExpression) [(.text, .text "a")] []) 1
    let s : State Unit := ⟨⟨2, ()⟩, some groupedExtras, []⟩
    groupedExtras.keys.Nodup ∧ (∀ k ∈ groupedExtras.keys, k < 2) ∧
      AllFresh (renamed.exchanges (root.height + growth) root s) ∧
      ∃ after, left (renamed.traverse root s) = some after ∧ after.values.Perm groupedExtras.values ∧
        after.keys = [3, 2] := by
  intro root s
  have distinct : groupedExtras.keys.Nodup := by decide
  have taken : ∀ k ∈ groupedExtras.keys, k < 2 := by decide
  let old : Node := .mk 0 (.kind .nameExpression) [(.text, .text "a")] []
  let new : Node := .mk 2 (.kind .nameExpression) [(.text, .text "b")] []
  have exchanged : renamed.exchanges (root.height + growth) root s = [
      ⟨grouped new 3, grouped new 3, [2, 1], 4, 4⟩, ⟨old, new, [0, 1], 2, 3⟩, ⟨old, old, [0, 1], 2, 2⟩,
      ⟨root, root, [0, 1], 2, 2⟩] := rfl
  have fresh : AllFresh (renamed.exchanges (root.height + growth) root s) := by
    rw [exchanged]
    have renames : Exchange.Fresh ⟨old, new, [0, 1], 2, 3⟩ [⟨old, old, [0, 1], 2, 2⟩, ⟨root, root, [0, 1], 2, 2⟩] :=
      ⟨.inr ⟨by decide, by decide⟩, by decide, by decide⟩
    exact ⟨⟨.inl rfl, by decide, by decide⟩, renames, ⟨.inl rfl, by decide, by decide⟩,
      ⟨.inl rfl, by decide, by decide⟩, trivial⟩
  obtain ⟨after, ended, perm, _⟩ :=
    (fresh_hooks_conserve_extras renamed root s groupedExtras rfl distinct taken).2 fresh
  have final : left (renamed.traverse root s) =
      some ⟨[(3, ⟨[], [], [.semicolon]⟩), (2, ⟨[.whitespace " "], [], []⟩)]⟩ := rfl
  obtain rfl : _ = after := Option.some.inj (final.symm.trans ended)
  exact ⟨distinct, taken, fresh, _, ended, perm, rfl⟩

end Mutation

end KotlinSyntax
