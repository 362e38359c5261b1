import KotlinSyntax.Mutation.Rule
import KotlinSyntax.Proofs.Mutation.Logic
import KotlinSyntax.Proofs.Mutation.Part
import KotlinSyntax.Proofs.Traversal

/-! What stays as it is. A subtree whose nodes the hooks give back is passed through as the same node: no node
is made, no extras move and no line is logged. Only a child that its field does not take stops the mutation. -/
namespace KotlinSyntax

namespace Mutation

variable {σ α β : Type}

abbrev Call := Moment × Path

/-- What the children contribute, in the order in which they are rebuilt. -/
def inOrder {α : Type} (tag : Tag) (xs : List (Field × List α)) : List α :=
  match tag with
  | .kind k => (gather k.parts xs).flatMap (·.2)
  | .unknown _ => []

theorem inOrder_map (k : Kind) (children : List (Field × Node)) (g : Field × Node → List α) :
    inOrder (.kind k) (children.map fun c => (c.1, g c)) = (gather k.parts children).flatMap g := by
  simp only [inOrder, gather, List.filter_map, List.flatMap_assoc, List.flatMap_map]
  rfl

mutual

/-- The calls for a tree that is kept as it is. -/
def callsBelow (above : List Node) : Node → List Call
  | .mk id tag scalars children =>
    (.pre, ⟨.mk id tag scalars children, above⟩) ::
      inOrder tag (callsBelowAll (.mk id tag scalars children :: above) children) ++
        [(.post, ⟨.mk id tag scalars children, above⟩)]

def callsBelowAll (above : List Node) : List (Field × Node) → List (Field × List Call)
  | [] => []
  | (f, n) :: rest => (f, callsBelow above n) :: callsBelowAll above rest

end

def unfit (holder : Node) (f : Field) (child : Node) : List (Node × Node) :=
  if holder.kind?.all (fits · f child) then [] else [(holder, child)]

end Mutation

namespace Node

open Mutation

mutual

/-- The children that their fields do not take, each behind its holder and in the order in which a mutation comes
upon them: a child is looked at after all that is below it. -/
def misfits : Node → List (Node × Node)
  | mk id tag scalars children => inOrder tag (misfitsAll (mk id tag scalars children) children)

def misfitsAll (holder : Node) : List (Field × Node) → List (Field × List (Node × Node))
  | [] => []
  | (f, n) :: rest => (f, misfits n ++ unfit holder f n) :: misfitsAll holder rest

end

/-- Every child that is rebuilt is one that its field takes. -/
def Fitting (n : Node) : Prop := n.misfits = []

theorem misfits_eq (id : Nat) (k : Kind) (scalars : List (Field × Scalar)) (children : List (Field × Node)) :
    (mk id (.kind k) scalars children).misfits = (gather k.parts children).flatMap fun c =>
      c.2.misfits ++ unfit (mk id (.kind k) scalars children) c.1 c.2 := by
  have each (holder : Node) (cs : List (Field × Node)) :
      misfitsAll holder cs = cs.map fun c => (c.1, c.2.misfits ++ unfit holder c.1 c.2) := by
    induction cs with
    | nil => rfl
    | cons c rest ih => rw [misfitsAll, ih, List.map_cons]
  rw [misfits, each]
  exact inOrder_map k children _

end Node

namespace Mutation

variable {m : Mutation σ} {above : List Node}

theorem callsBelow_eq (id : Nat) (k : Kind) (scalars : List (Field × Scalar)) (children : List (Field × Node)) :
    callsBelow above (.mk id (.kind k) scalars children) =
      (.pre, ⟨.mk id (.kind k) scalars children, above⟩) ::
        (gather k.parts children).flatMap (fun c => callsBelow (.mk id (.kind k) scalars children :: above) c.2) ++
          [(.post, ⟨.mk id (.kind k) scalars children, above⟩)] := by
  have each (above : List Node) (cs : List (Field × Node)) :
      callsBelowAll above cs = cs.map fun c => (c.1, callsBelow above c.2) := by
    induction cs with
    | nil => rfl
    | cons c rest ih => rw [callsBelowAll, ih, List.map_cons]
  rw [callsBelow, each]
  exact congrArg (fun calls => _ :: calls ++ _) (inOrder_map k children _)

def hook (m : Mutation σ) : Moment → Hook σ
  | .pre => m.pre
  | .post => m.post

/-- Called one after the other, the hooks give back every node that they are called with. -/
inductive GivesBack (m : Mutation σ) : List Call → Supply σ → Supply σ → Prop
  | done {s : Supply σ} : GivesBack m [] s s
  | call {moment : Moment} {p : Path} {rest : List Call} {s next last : Supply σ}
      (kept : m.hook moment p s = .ok p.node next) (others : GivesBack m rest next last) :
      GivesBack m ((moment, p) :: rest) s last

theorem givesBack_append {cs ds : List Call} {s last : Supply σ} :
    GivesBack m (cs ++ ds) s last ↔ ∃ next, GivesBack m cs s next ∧ GivesBack m ds next last := by
  constructor
  · intro h
    induction cs generalizing s with
    | nil => exact ⟨s, .done, h⟩
    | cons c rest ih =>
      cases h with
      | call kept others =>
        obtain ⟨next, first, second⟩ := ih others
        exact ⟨next, .call kept first, second⟩
  · rintro ⟨next, first, second⟩
    induction first with
    | done => exact second
    | call kept _ ih => exact .call kept (ih second)

theorem givesBack_identity (cs : List Call) (s : Supply σ) : GivesBack {} cs s s := by
  induction cs with
  | nil => exact .done
  | cons c rest ih =>
    obtain ⟨moment, p⟩ := c
    have kept : ({} : Mutation σ).hook moment p s = .ok p.node s := by cases moment <;> rfl
    exact .call kept ih

def Misplaces (holder child : Node) : Prop :=
  ∃ k ∈ holder.kind?, ∃ f, (f, child) ∈ holder.children ∧ fits k f child = false

/-- The complaint about a child that is put back where it stood. -/
def misplaced (holder child : Node) : MutationError :=
  .node (.invariant holder.name (describe child ++ " cannot take the place of " ++ describe child))

theorem misplaces_of_mem_misfits {n holder child : Node} (member : (holder, child) ∈ n.misfits) :
    holder ∈ n.preorder ∧ Misplaces holder child := by
  induction n using Node.induct with
  | mk id tag scalars children ih =>
    cases tag with
    | unknown name => cases member
    | kind k =>
      rw [Node.misfits_eq] at member
      obtain ⟨c, taken, found⟩ := List.mem_flatMap.mp member
      have held := (mem_gather.mp taken).1
      rcases List.mem_append.mp found with below | here
      · exact (ih c held below).imp_left (Node.mem_preorder_child held)
      · unfold unfit at here
        split at here
        · cases here
        · rename_i bad
          cases List.mem_singleton.mp here
          refine ⟨Node.mem_preorder_self _, k, rfl, c.1, held, ?_⟩
          exact Bool.eq_false_iff.mpr bad

/-- Provided that the hooks give back what they are called with in these calls, the value comes out and nothing has
changed but what they draw on. If there is a misfit then the first one is refused after some of the calls. -/
def Idle (m : Mutation σ) (cs : List Call) (bad : List (Node × Node)) (x : Mutate σ α) (a : α) : Prop :=
  ∀ s after, m.GivesBack cs s.supply after →
    match bad with
    | [] => x s = .ok a { s with supply := after }
    | (holder, child) :: _ => ∃ done supply, done <+: cs ∧ m.GivesBack done s.supply supply ∧
        x s = .error (misplaced holder child) { s with supply }

namespace Idle

variable {cs ds : List Call} {bad worse : List (Node × Node)} {x : Mutate σ α} {a : α} {b : β}

theorem pure (a : α) : Idle m [] [] (Pure.pure a) a := by
  intro s after kept
  cases kept
  rfl

theorem refuse (holder child : Node) (a : α) : Idle m [] [(holder, child)] (throw (misplaced holder child)) a := by
  intro s after kept
  cases kept
  exact ⟨[], s.supply, List.prefix_refl _, .done, rfl⟩

theorem call (moment : Moment) (p : Path) : Idle m [(moment, p)] [] (call (m.hook moment) p) p.node := by
  intro s after given
  cases given with
  | call kept nothing =>
    cases nothing
    simp only [Mutation.call, kept]

theorem bind {f : α → Mutate σ β} (first : Idle m cs bad x a) (next : Idle m ds worse (f a) b) :
    Idle m (cs ++ ds) (bad ++ worse) (x >>= f) b := by
  intro s after kept
  obtain ⟨between, here, there⟩ := givesBack_append.mp kept
  have ran := first s between here
  cases bad with
  | nil =>
    have step : (x >>= f) s = f a { s with supply := between } := bind_of_ok ran
    have rest := next { s with supply := between } after there
    cases worse with
    | nil => exact step.trans rest
    | cons misfit _ =>
      obtain ⟨done, supply, early, given, failed⟩ := rest
      exact ⟨cs ++ done, supply, (List.prefix_append_right_inj cs).mpr early,
        givesBack_append.mpr ⟨between, here, given⟩, step.trans failed⟩
  | cons misfit _ =>
    obtain ⟨done, supply, early, given, failed⟩ := ran
    exact ⟨done, supply, early.trans (List.prefix_append ..), given, bind_of_error failed⟩

/-- What follows calls no hook and refuses nothing. -/
theorem quietly {f : α → Mutate σ β} (first : Idle m cs bad x a) (next : Idle m [] [] (f a) b) :
    Idle m cs bad (x >>= f) b := by
  have whole := first.bind next
  rwa [List.append_nil, List.append_nil] at whole

end Idle

theorem visitChild_idle {visit : Path → Mutate σ Rebuilt} {p : Path} {k : Kind} (is : p.node.kind? = some k)
    {cs : List Call} (c : Field × Node) (visited : Idle m cs c.2.misfits (visit (p.down c.2)) ⟨c.2, false⟩) :
    Idle m cs (c.2.misfits ++ unfit p.node c.1 c.2) (visitChild visit p k c) (c.1, ⟨c.2, false⟩) := by
  have checked : Idle m [] (unfit p.node c.1 c.2)
      (if fits k c.1 c.2 then return (c.1, (⟨c.2, false⟩ : Rebuilt)) else throw (misplaced p.node c.2))
      (c.1, ⟨c.2, false⟩) := by
    rw [unfit, is, Option.all_some]
    split
    · exact .pure _
    · exact .refuse p.node c.2 _
  have whole : Idle m (cs ++ []) (c.2.misfits ++ unfit p.node c.1 c.2) (visitChild visit p k c) (c.1, ⟨c.2, false⟩) :=
    visited.bind checked
  rwa [List.append_nil] at whole

/-- The children come out as they are, one after the other. -/
theorem children_idle {visit : Path → Mutate σ Rebuilt} {p : Path} {k : Kind} (is : p.node.kind? = some k)
    (cs : List (Field × Node))
    (each : ∀ c ∈ cs, Idle m (callsBelow (p.node :: p.above) c.2) c.2.misfits (visit (p.down c.2)) ⟨c.2, false⟩) :
    Idle m (cs.flatMap fun c => callsBelow (p.node :: p.above) c.2)
      (cs.flatMap fun c => c.2.misfits ++ unfit p.node c.1 c.2)
      (cs.mapM (visitChild visit p k)) (cs.map fun c => (c.1, ⟨c.2, false⟩)) := by
  induction cs with
  | nil => exact .pure _
  | cons c rest ih =>
    have first := visitChild_idle is c (each c (List.mem_cons_self ..))
    have others := ih fun c member => each c (List.mem_cons_of_mem _ member)
    rw [List.mapM_cons, List.flatMap_cons, List.flatMap_cons, List.map_cons]
    exact first.bind (others.quietly (.pure _))

theorem rebuild_idle {visit : Path → Mutate σ Rebuilt} {id : Nat} {k : Kind} {scalars : List (Field × Scalar)}
    {children : List (Field × Node)}
    (each : ∀ c ∈ children, Idle m (callsBelow (.mk id (.kind k) scalars children :: above) c.2) c.2.misfits
      (visit (Path.down ⟨.mk id (.kind k) scalars children, above⟩ c.2)) ⟨c.2, false⟩) :
    Idle m
      ((gather k.parts children).flatMap fun c => callsBelow (.mk id (.kind k) scalars children :: above) c.2)
      (Node.mk id (.kind k) scalars children).misfits
      (rebuild visit ⟨.mk id (.kind k) scalars children, above⟩) (.mk id (.kind k) scalars children) := by
  have parts := children_idle (p := ⟨.mk id (.kind k) scalars children, above⟩) (k := k) rfl
    (gather k.parts children) fun c taken => each c (mem_gather.mp taken).1
  rw [Node.misfits_eq]
  simp only [rebuild, Node.kind?, Node.tag]
  refine parts.quietly ?_
  have same : ((gather k.parts children).map fun c => (c.1, (⟨c.2, false⟩ : Rebuilt))).any (·.2.changed) = false := by
    simp
  simp only [same, Bool.false_eq_true, if_false]
  exact .pure _

/-- A node comes out as it is if the hooks give it back with everything below it. -/
theorem visit_idle (n : Node) (known : ∀ l ∈ n.preorder, l.kind?.isSome = true) (depth : Nat)
    (deep : n.height ≤ depth) : Idle m (callsBelow above n) n.misfits (m.visit depth ⟨n, above⟩) ⟨n, false⟩ := by
  induction n using Node.induct generalizing above depth with
  | mk id tag scalars children ih =>
    rw [Node.height] at deep
    obtain ⟨depth, rfl⟩ : ∃ d, depth = d + 1 := ⟨depth - 1, by omega⟩
    obtain ⟨k, rfl⟩ : ∃ k, tag = .kind k := by
      have is := known _ (Node.mem_preorder_self _)
      cases tag with
      | kind k => exact ⟨k, rfl⟩
      | unknown name => cases is
    have rebuilt : Idle m
        ((gather k.parts children).flatMap fun c => callsBelow (.mk id (.kind k) scalars children :: above) c.2)
        (Node.mk id (.kind k) scalars children).misfits
        (rebuild (m.visit depth) ⟨.mk id (.kind k) scalars children, above⟩) (.mk id (.kind k) scalars children) := by
      refine rebuild_idle fun c member => ih c member (fun l below => ?_) depth ?_
      · exact known l (Node.mem_preorder_child member below)
      · exact Nat.le_trans (Node.height_le_heightAll member) (by omega)
    rw [callsBelow_eq, List.cons_append, ← List.nil_append (Node.misfits _)]
    refine (Idle.call .pre ⟨.mk id (.kind k) scalars children, above⟩).bind ?_
    rw [← List.append_nil (Node.misfits _)]
    refine rebuilt.bind ((Idle.call .post ⟨.mk id (.kind k) scalars children, above⟩).quietly ?_)
    simp only [beq_self_eq_true, if_true]
    exact .pure _

theorem traverse_idle (root : Node) (known : ∀ l ∈ root.preorder, l.kind?.isSome = true) :
    Idle m (callsBelow [] root) root.misfits (m.traverse root) root :=
  (visit_idle root known _ (Nat.le_add_right ..)).quietly (.pure _)

/-- A subtree whose nodes the hooks give back is visited without a trace: it comes out as the same node, and what
the hooks draw on is as they leave it. The visit ends earlier exactly where a child is one that its field does not
take, and then too no extras are moved and nothing is logged. Without hooks a mutation gives back the root. -/
theorem unchanged_subtree_shared (m : Mutation σ) (depth : Nat) (p : Path) (s : State σ) (after : Supply σ)
    (known : ∀ n ∈ p.node.preorder, n.kind?.isSome = true) (deep : p.node.height ≤ depth)
    (kept : m.GivesBack (callsBelow p.above p.node) s.supply after) :
    (p.node.Fitting → m.visit depth p s = .ok ⟨p.node, false⟩ { s with supply := after }) ∧
    (¬p.node.Fitting → ∃ holder ∈ p.node.preorder, ∃ child, Misplaces holder child ∧
      ∃ supply, m.visit depth p s = .error (misplaced holder child) { s with supply }) ∧
    (p.node.Fitting → ({} : Mutation σ).traverse p.node s = .ok p.node s) := by
  have visited := visit_idle p.node known depth deep s after kept
  have passed := traverse_idle p.node known s s.supply (givesBack_identity ..)
  cases misfits : p.node.misfits with
  | nil =>
    rw [misfits] at visited passed
    exact ⟨fun _ => visited, fun unfit => absurd misfits unfit, fun _ => passed⟩
  | cons first _ =>
    have unfit : ¬p.node.Fitting := by
      rw [Node.Fitting, misfits]
      exact List.cons_ne_nil _ _
    refine ⟨fun fitting => absurd fitting unfit, fun _ => ?_, fun fitting => absurd fitting unfit⟩
    rw [misfits] at visited
    obtain ⟨_, supply, _, _, failed⟩ := visited
    obtain ⟨within, bad⟩ := misplaces_of_mem_misfits (misfits ▸ List.mem_cons_self ..)
    exact ⟨first.1, within, first.2, bad, supply, failed⟩

/-- Gives back the first nodes that it is called with, and puts a new name in the place of every later one. -/
def patient (patience : Nat) : Mutation Nat where
  pre p s :=
    if s.own < patience then .ok p.node { s with own := s.own + 1 }
    else .ok (.mk s.nextId (.kind .nameExpression) [(.text, .text "z")] []) { s with nextId := s.nextId + 1 }

theorem operation_known (first : Kind) : ∀ n ∈ (operation first).preorder, n.kind?.isSome = true := by
  intro n member
  simp only [operation, Node.preorder, Node.preorderAll, List.append_nil, List.cons_append, List.nil_append,
    List.mem_cons, List.not_mem_nil, or_false] at member
  rcases member with rfl | rfl | rfl | rfl <;> rfl

theorem operation_fitting : (operation .nameExpression).Fitting := rfl

theorem unchanged_sum_shared :
    (∀ n ∈ (operation .nameExpression).preorder, n.kind?.isSome = true) ∧
    (operation .nameExpression).height ≤ 2 ∧
    (patient 4).GivesBack (callsBelow [] (operation .nameExpression)) ⟨9, 0⟩ ⟨9, 4⟩ ∧
    (patient 4).visit 2 ⟨operation .nameExpression, []⟩ ⟨⟨9, 0⟩, some {}, []⟩ =
      .ok ⟨operation .nameExpression, false⟩ ⟨⟨9, 4⟩, some {}, []⟩ := by
  have known := operation_known .nameExpression
  have deep : (operation .nameExpression).height ≤ 2 := by decide
  have kept : (patient 4).GivesBack (callsBelow [] (operation .nameExpression)) ⟨9, 0⟩ ⟨9, 4⟩ := by
    repeat' first | exact .done | apply GivesBack.call | rfl
  exact ⟨known, deep, kept, (unchanged_subtree_shared (patient 4) 2 ⟨operation .nameExpression, []⟩
    ⟨⟨9, 0⟩, some {}, []⟩ ⟨9, 4⟩ known deep kept).1 operation_fitting⟩

/-- A subtree is not passed through where a child is one that its field does not take, also without hooks. -/
theorem misfit_not_shared : ¬ ∀ (m : Mutation Unit) (depth : Nat) (p : Path) (s : State Unit) (after : Supply Unit),
    (∀ n ∈ p.node.preorder, n.kind?.isSome = true) → p.node.height ≤ depth →
    m.GivesBack (callsBelow p.above p.node) s.supply after →
    m.visit depth p s = .ok ⟨p.node, false⟩ { s with supply := after } := by
  intro shared
  have ran := shared {} 2 ⟨operation .keyword, []⟩ ⟨⟨4, ()⟩, none, []⟩ ⟨4, ()⟩ (operation_known .keyword) (by decide)
    (givesBack_identity ..)
  have failed : ∃ e after, ({} : Mutation Unit).visit 2 ⟨operation .keyword, []⟩ ⟨⟨4, ()⟩, none, []⟩ = .error e after :=
    ⟨_, _, rfl⟩
  obtain ⟨e, after, failed⟩ := failed
  rw [ran] at failed
  cases failed

end Mutation

end KotlinSyntax
