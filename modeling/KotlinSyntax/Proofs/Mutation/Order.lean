import Mathlib.Data.List.Flatten
import KotlinSyntax.Proofs.Mutation.Sharing

/-! The order of the calls. A mutation has its own way through a tree. Where its hooks keep every node, the one that
runs first meets the nodes along the walk and the other one behind what they hold, until a child comes that its field
does not take. -/
namespace KotlinSyntax

open Mutation

namespace Node

/-- What holds of a node if it holds of its children holds of every arranged tree. -/
theorem Arranged.induct {motive : (n : Node) → n.Arranged → Prop}
    (mk : ∀ id k scalars children (arranged : (Node.mk id (.kind k) scalars children).Arranged),
      gather k.parts children = children → (∀ c (member : c ∈ children), motive c.2 (arranged.child member)) →
      motive (.mk id (.kind k) scalars children) arranged) (n : Node) (arranged : n.Arranged) : motive n arranged := by
  induction n using Node.induct with
  | mk id tag scalars children ih =>
    obtain ⟨k, is, order⟩ := arranged _ (mem_preorder_self _)
    obtain rfl : tag = .kind k := is
    exact mk id k scalars children arranged ((gather_eq_arrange k children).trans order) fun c member => ih c member _

theorem Arranged.known {n : Node} (arranged : n.Arranged) : ∀ m ∈ n.preorder, m.kind?.isSome = true := by
  intro m member
  obtain ⟨k, is, _⟩ := arranged m member
  simp only [kind?, is, Option.isSome_some]

theorem mem_misfits (n : Node) (arranged : n.Arranged) (holder child : Node) :
    (holder, child) ∈ n.misfits ↔ holder ∈ n.preorder ∧ Misplaces holder child := by
  refine ⟨misplaces_of_mem_misfits, ?_⟩
  induction n, arranged using Arranged.induct with
  | mk id k scalars children arranged whole ih =>
    rintro ⟨within, bad⟩
    rw [preorder, preorderAll_eq] at within
    rw [misfits_eq, whole, List.mem_flatMap]
    rcases List.mem_cons.mp within with rfl | below
    · obtain ⟨l, is, f, held, unfits⟩ := bad
      obtain rfl : k = l := Option.some.inj is
      refine ⟨(f, child), held, List.mem_append_right _ ?_⟩
      simp [unfit, kind?, tag, unfits]
    · obtain ⟨c, held, inside⟩ := List.mem_flatMap.mp below
      exact ⟨c, held, List.mem_append_left _ (ih c held ⟨inside, bad⟩)⟩

theorem fitting_iff (n : Node) (arranged : n.Arranged) :
    n.Fitting ↔ ∀ holder ∈ n.preorder, ∀ child, ¬Misplaces holder child := by
  rw [Fitting, List.eq_nil_iff_forall_not_mem]
  constructor
  · intro none holder within child bad
    exact none (holder, child) ((mem_misfits n arranged holder child).mpr ⟨within, bad⟩)
  · rintro all ⟨holder, child⟩ member
    obtain ⟨within, bad⟩ := misplaces_of_mem_misfits member
    exact all holder within child bad

theorem misfits_below (n : Node) (arranged : n.Arranged) :
    (n.misfits.map (·.2)).Sublist (n.children.flatMap (·.2.postorder)) := by
  induction n, arranged using Arranged.induct with
  | mk id k scalars children arranged whole ih =>
    rw [misfits_eq, whole, List.map_flatMap]
    refine List.Sublist.flatMap_right children fun c member => ?_
    rw [postorder_eq, List.map_append]
    refine (ih c member).append ?_
    unfold unfit
    split
    · exact List.nil_sublist _
    · exact List.Sublist.refl _

/-- The misfits come in post-order. -/
theorem misfits_sublist (n : Node) (arranged : n.Arranged) : (n.misfits.map (·.2)).Sublist n.postorder := by
  rw [postorder_eq]
  exact (misfits_below n arranged).trans (List.sublist_append_left ..)

end Node

/-- The same hook, which also writes down what it is called with. -/
def Hook.recorded {σ : Type} (h : Hook σ) (moment : Moment) : Hook (σ × List Call) := fun p s =>
  match h p ⟨s.nextId, s.own.1⟩ with
  | .ok n after => .ok n ⟨after.nextId, after.own, s.own.2 ++ [(moment, p)]⟩
  | .error e after => .error e ⟨after.nextId, after.own, s.own.2 ++ [(moment, p)]⟩

def Hook.Keeps {σ : Type} (h : Hook σ) : Prop := ∀ p s, ∃ after, h p s = .ok p.node after

namespace Mutation

variable {σ : Type}

def recorded (m : Mutation σ) : Mutation (σ × List Call) := ⟨m.pre.recorded .pre, m.post.recorded .post⟩

def Keeps (m : Mutation σ) : Prop := m.pre.Keeps ∧ m.post.Keeps

/-- The calls of the hooks while a tree is rebuilt, whether or not that succeeds. -/
def calls (m : Mutation σ) (root : Node) (s : State σ) : List Call :=
  match m.recorded.traverse root ⟨⟨s.supply.nextId, s.supply.own, []⟩, s.extras, s.log⟩ with
  | .ok _ after => after.supply.own.2
  | .error _ after => after.supply.own.2

def offered (m : Mutation σ) (moment : Moment) (root : Node) (s : State σ) : List Path :=
  ((m.calls root s).filter (·.1 == moment)).map (·.2)

variable {m : Mutation σ}

theorem Keeps.givesBack (keeps : m.Keeps) (cs : List Call) (s : Supply σ) : ∃ after, m.GivesBack cs s after := by
  induction cs generalizing s with
  | nil => exact ⟨s, .done⟩
  | cons c rest ih =>
    obtain ⟨moment, p⟩ := c
    obtain ⟨next, kept⟩ : ∃ next, m.hook moment p s = .ok p.node next := by
      cases moment
      · exact keeps.1 p s
      · exact keeps.2 p s
    obtain ⟨after, others⟩ := ih next
    exact ⟨after, .call kept others⟩

theorem Keeps.recorded (keeps : m.Keeps) : m.recorded.Keeps := by
  have records {h : Hook σ} (kept : h.Keeps) (moment : Moment) : (h.recorded moment).Keeps := by
    intro p s
    obtain ⟨after, gives⟩ := kept p ⟨s.nextId, s.own.1⟩
    exact ⟨_, by rw [Hook.recorded, gives]⟩
  exact ⟨records keeps.1 .pre, records keeps.2 .post⟩

theorem recorded_hook {moment : Moment} {p : Path} {n : Node} {s next : Supply (σ × List Call)}
    (ran : m.recorded.hook moment p s = .ok n next) : next.own.2 = s.own.2 ++ [(moment, p)] := by
  have records (h : Hook σ) (ran : h.recorded moment p s = .ok n next) : next.own.2 = s.own.2 ++ [(moment, p)] := by
    unfold Hook.recorded at ran
    split at ran <;> cases ran
    rfl
  cases moment
  · exact records m.pre ran
  · exact records m.post ran

theorem GivesBack.records {cs : List Call} {s last : Supply (σ × List Call)} (h : m.recorded.GivesBack cs s last) :
    last.own.2 = s.own.2 ++ cs := by
  induction h with
  | done => rw [List.append_nil]
  | call kept _ ih => rw [ih, recorded_hook kept, List.append_assoc, List.singleton_append]

/-- What the hooks are called with if they keep every node: all calls for the tree, or the first of them up to a
child that does not fit. -/
theorem calls_of_keeps (keeps : m.Keeps) (root : Node) (known : ∀ n ∈ root.preorder, n.kind?.isSome = true)
    (s : State σ) :
    (root.misfits = [] → m.calls root s = callsBelow [] root) ∧ m.calls root s <+: callsBelow [] root := by
  obtain ⟨after, kept⟩ := keeps.recorded.givesBack (callsBelow [] root) ⟨s.supply.nextId, s.supply.own, []⟩
  have ran := traverse_idle root known ⟨⟨s.supply.nextId, s.supply.own, []⟩, s.extras, s.log⟩ after kept
  unfold calls
  cases misfits : root.misfits with
  | nil =>
    rw [misfits] at ran
    have all : after.own.2 = callsBelow [] root := kept.records
    rw [ran]
    exact ⟨fun _ => all, all ▸ List.prefix_refl _⟩
  | cons first rest =>
    rw [misfits] at ran
    obtain ⟨done, supply, early, given, failed⟩ := ran
    have some : supply.own.2 = done := given.records
    rw [failed]
    refine ⟨fun none => absurd none (List.cons_ne_nil _ _), ?_⟩
    change supply.own.2 <+: _
    rwa [some]

/-! The calls of the two hooks, taken apart. -/

variable {above : List Node}

theorem callsBelow_before (n : Node) (arranged : n.Arranged) :
    ((callsBelow above n).filter (·.1 == .pre)).map (·.2) = n.pathsBelow above := by
  induction n, arranged using Node.Arranged.induct generalizing above with
  | mk id k scalars children arranged whole ih =>
    rw [callsBelow_eq, whole, Node.pathsBelow, Node.pathsBelowAll_eq]
    simp only [List.cons_append, List.filter_cons, List.filter_append, List.filter_flatMap, List.map_append,
      List.map_flatMap, beq_self_eq_true, if_true, List.map_cons, List.cons.injEq, true_and]
    rw [List.flatMap_congr fun c member => ih c member]
    exact List.append_nil _

theorem callsBelow_after (n : Node) (arranged : n.Arranged) :
    ((callsBelow above n).filter (·.1 == .post)).map (·.2.node) = n.postorder := by
  induction n, arranged using Node.Arranged.induct generalizing above with
  | mk id k scalars children arranged whole ih =>
    have other : (Moment.pre == Moment.post) = false := rfl
    rw [callsBelow_eq, whole, Node.postorder, Node.postorderAll_eq]
    simp only [List.cons_append, List.filter_cons, List.filter_append, List.filter_flatMap, List.map_append,
      List.map_flatMap, other, Bool.false_eq_true, if_false, beq_self_eq_true, if_true, List.map_cons]
    rw [List.flatMap_congr fun c member => ih c member]
    rfl

/-- Both hooks are called with the same paths. -/
theorem callsBelow_paths (n : Node) (arranged : n.Arranged) : ∀ c ∈ callsBelow above n, c.2 ∈ n.pathsBelow above := by
  induction n, arranged using Node.Arranged.induct generalizing above with
  | mk id k scalars children arranged whole ih =>
    intro c member
    rw [Node.pathsBelow, Node.pathsBelowAll_eq]
    rw [callsBelow_eq, whole, List.cons_append] at member
    rcases List.mem_cons.mp member with rfl | member
    · exact List.mem_cons_self ..
    · rcases List.mem_append.mp member with member | last
      · obtain ⟨child, inside, called⟩ := List.mem_flatMap.mp member
        exact List.mem_cons_of_mem _ (List.mem_flatMap.mpr ⟨child, inside, ih child inside c called⟩)
      · rw [List.mem_singleton.mp last]
        exact List.mem_cons_self ..

/-- The first child that does not fit is what a mutation ends at whose hooks keep every node. -/
theorem traverse_of_misfit (keeps : m.Keeps) (root : Node) (known : ∀ n ∈ root.preorder, n.kind?.isSome = true)
    (s : State σ) {holder child : Node} (first : root.misfits.head? = some (holder, child)) :
    ∃ after, m.traverse root s = .error (misplaced holder child) after := by
  obtain ⟨after, kept⟩ := keeps.givesBack (callsBelow [] root) s.supply
  have ran := traverse_idle root known s after kept
  obtain ⟨rest, misfits⟩ := List.head?_eq_some_iff.mp first
  rw [misfits] at ran
  obtain ⟨_, supply, _, _, failed⟩ := ran
  exact ⟨_, failed⟩

/-- The walk, the writer and the hook that runs first meet the nodes of a tree before what they hold and along the
same paths; the hook that runs last meets them after that. The mutation gets there if every child fits, and otherwise
it ends at the first misfit in post-order. Each path leads down from the root, past as many nodes as it is deep. -/
theorem traversals_agree (w : Writer) (m : Mutation σ) (s : State σ) (root : Node) (arranged : root.Arranged) :
    root.paths.map (·.node) = root.preorder ∧ w.visits root = root.paths ∧
    (m.Keeps →
      (∀ p, p ∈ m.offered .pre root s ∨ p ∈ m.offered .post root s → p ∈ root.paths) ∧
      ((∀ holder ∈ root.preorder, ∀ child, ¬Misplaces holder child) →
        m.offered .pre root s = root.paths ∧ (m.offered .post root s).map (·.node) = root.postorder) ∧
      ∀ holder child, root.misfits.head? = some (holder, child) →
        m.offered .pre root s <+: root.paths ∧ (m.offered .post root s).map (·.node) <+: root.postorder ∧
          ∃ after, m.traverse root s = .error (misplaced holder child) after) ∧
    (root.misfits.map (·.2)).Sublist root.postorder ∧
    (∀ holder child, (holder, child) ∈ root.misfits ↔ holder ∈ root.preorder ∧ Misplaces holder child) ∧
    ∀ p ∈ root.paths, p.root = root ∧ (∀ q ∈ p.parent?, ∃ f, (f, p.node) ∈ q.children) ∧
      ∃ pos : List Nat, p.depth = pos.length ∧
        pos.inits.map (root.at? ·) = (p.above.reverse ++ [p.node]).map some := by
  have before : ((callsBelow [] root).filter (·.1 == .pre)).map (·.2) = root.paths := callsBelow_before root arranged
  have after : ((callsBelow [] root).filter (·.1 == .post)).map (·.2.node) = root.postorder :=
    callsBelow_after root arranged
  refine ⟨Node.paths_map_node root, Writer.visits_eq root arranged, fun keeps => ?_, Node.misfits_sublist root arranged,
    Node.mem_misfits root arranged, ?_⟩
  · obtain ⟨all, early⟩ := calls_of_keeps keeps root arranged.known s
    have along (moment : Moment) : ∀ p ∈ m.offered moment root s, p ∈ root.paths := by
      intro p member
      obtain ⟨c, inside, rfl⟩ := List.mem_map.mp member
      exact callsBelow_paths root arranged c (early.subset (List.mem_filter.mp inside).1)
    refine ⟨fun p member => member.elim (along .pre p) (along .post p), fun fits => ?_, fun holder child first => ?_⟩
    · have calls := all ((Node.fitting_iff root arranged).mpr fits)
      rw [offered, offered, calls, List.map_map]
      exact ⟨before, after⟩
    · refine ⟨?_, ?_, traverse_of_misfit keeps root arranged.known s first⟩
      · rw [offered, ← before]
        exact (early.filter _).map _
      · rw [offered, ← after, List.map_map]
        exact (early.filter _).map _
  · intro p member
    have reached := Node.reaches_pathsBelow root [] .here p member
    exact ⟨reached.root, reached.parent, reached.passes⟩

theorem keeps_identity : ({} : Mutation Unit).Keeps := ⟨fun _ s => ⟨s, rfl⟩, fun _ s => ⟨s, rfl⟩⟩

theorem traversals_agree_on_sum : (operation .nameExpression).Arranged ∧ ({} : Mutation Unit).Keeps ∧
    (∀ holder ∈ (operation .nameExpression).preorder, ∀ child, ¬Misplaces holder child) ∧
    ({} : Writer).visits (operation .nameExpression) =
      ({} : Mutation Unit).offered .pre (operation .nameExpression) ⟨⟨4, ()⟩, none, []⟩ ∧
    ∃ after, ({} : Mutation Unit).traverse (operation .keyword) ⟨⟨4, ()⟩, none, []⟩ =
      .error (.node (.invariant "BinaryExpression" "'in' cannot take the place of 'in'")) after := by
  have arranged : (operation .nameExpression).Arranged := operation_arranged rfl
  have fits := (Node.fitting_iff _ arranged).mp operation_fitting
  obtain ⟨_, visited, mutated, _⟩ := traversals_agree {} {} ⟨⟨4, ()⟩, none, []⟩ (operation .nameExpression) arranged
  obtain ⟨_, _, ends, _⟩ :=
    traversals_agree {} {} ⟨⟨4, ()⟩, none, []⟩ (operation .keyword) (operation_arranged rfl)
  exact ⟨arranged, keeps_identity, fits, visited.trans ((mutated keeps_identity).2.1 fits).1.symm,
    ((ends keeps_identity).2.2 _ _ rfl).2.2⟩

/-- Where one misfit holds another, the inner one comes first. -/
example : let name : Node := .mk 0 (.kind .nameExpression) [(.text, .text "a")] []
    let modifiers : Node := .mk 1 (.kind .modifiers) [] [(.elements, name)]
    let root : Node := .mk 2 (.kind .parenthesizedExpression) [] [(.expression, modifiers)]
    root.misfits = [(modifiers, name), (root, modifiers)] := rfl

/-- A mutation ends at the first child that its field does not take, also where nothing is changed. -/
theorem mutation_stops_at_misfit : ¬ ∀ (m : Mutation Unit) (s : State Unit) (root : Node), root.Arranged →
    m.Keeps → m.offered .pre root s = root.paths := by
  intro agree
  have same := agree {} ⟨⟨4, ()⟩, none, []⟩ (operation .keyword) (operation_arranged rfl) keeps_identity
  have met : (({} : Mutation Unit).offered .pre (operation .keyword) ⟨⟨4, ()⟩, none, []⟩).length = 2 := by
    decide +kernel
  have all : (operation .keyword).paths.length = 4 := rfl
  rw [same, all] at met
  cases met

end Mutation

end KotlinSyntax
