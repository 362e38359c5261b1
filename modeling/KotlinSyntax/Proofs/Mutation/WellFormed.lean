import KotlinSyntax.Proofs.Mutation.Logic
import KotlinSyntax.Proofs.Mutation.Part
import KotlinSyntax.Proofs.Traversal

/-! Well-formed trees. A mutation whose hooks give well-formed nodes gives a well-formed tree, or it stops at a node
that breaks a rule. -/
namespace KotlinSyntax

def Arity.allows : Arity → Nat → Bool
  | one, count => count == 1
  | optional, count => count ≤ 1
  | many, _ => true

namespace Node

def fields (n : Node) : List Field := n.children.map (·.1)

/-- The node is of the kind and holds what the kind declares. -/
structure Obeys (k : Kind) (n : Node) : Prop where
  kind : n.tag = .kind k
  /-- The children stand in the order of the fields. -/
  ordered : (k.slots.flatMap fun s => n.fields.filter (· == s.field)) = n.fields
  counted : ∀ s ∈ k.slots, s.arity.allows (n.fields.count s.field) = true
  taken : ∀ c ∈ n.children, ∀ s ∈ k.slots, s.field = c.1 → c.2.isIn s.takes = true
  unbroken : n.broken? = none

theorem Obeys.mem_gather {k : Kind} {n : Node} (h : n.Obeys k) {c : Field × Node} (member : c ∈ n.children) :
    c ∈ Mutation.gather k.parts n.children := by
  have field : c.1 ∈ n.fields := List.mem_map_of_mem member
  rw [← h.ordered] at field
  obtain ⟨s, listed, here⟩ := List.mem_flatMap.mp field
  rw [Mutation.gather_eq_arrange]
  exact List.mem_flatMap.mpr ⟨s, listed, List.mem_filter.mpr ⟨member, (List.mem_filter.mp here).2⟩⟩

def WellFormed (n : Node) : Prop := ∀ m ∈ n.preorder, ∃ k, m.Obeys k

theorem mem_preorder {n m : Node} : m ∈ n.preorder ↔ m = n ∨ ∃ c ∈ n.children, m ∈ c.2.preorder := by
  cases n with
  | mk id tag scalars children => rw [preorder, preorderAll_eq, List.mem_cons, List.mem_flatMap]; rfl

theorem wellFormed_iff {n : Node} : n.WellFormed ↔ (∃ k, n.Obeys k) ∧ ∀ c ∈ n.children, c.2.WellFormed := by
  constructor
  · intro h
    exact ⟨h n (mem_preorder.mpr (.inl rfl)),
      fun c member m below => h m (mem_preorder.mpr (.inr ⟨c, member, below⟩))⟩
  · rintro ⟨here, children⟩ m member
    rcases mem_preorder.mp member with rfl | ⟨c, inside, below⟩
    · exact here
    · exact children c inside m below

/-- A checked node over well-formed children in the same fields as those of an obedient node. -/
theorem WellFormed.make {k : Kind} {old n : Node} {id : Nat} {scalars : List (Field × Scalar)}
    {children : List (Field × Node)} (obeys : old.Obeys k) (fields : children.map (·.1) = old.fields)
    (taken : ∀ c ∈ children, ∀ s ∈ k.slots, s.field = c.1 → c.2.isIn s.takes = true)
    (below : ∀ c ∈ children, c.2.WellFormed) (made : Node.make id k scalars children = .ok n) : n.WellFormed := by
  obtain ⟨rfl, unbroken⟩ := make_ok made
  have same : (mk id (.kind k) scalars children).fields = old.fields := fields
  refine wellFormed_iff.mpr ⟨⟨k, rfl, ?_, ?_, taken, unbroken⟩, below⟩
  · rw [same]
    exact obeys.ordered
  · rw [same]
    exact obeys.counted

end Node

/-- What the hook gives for a well-formed node below well-formed ones is well-formed. If it fails, then because a
node breaks a rule. -/
def Hook.Forms {σ : Type} (h : Hook σ) : Prop :=
  ∀ (p : Path) (s : Supply σ), (∀ n ∈ p.node :: p.above, n.WellFormed) →
    match h p s with
    | .ok n _ => n.WellFormed
    | .error e _ => ∃ node complaint, e = .invariant node complaint

namespace Mutation

def Stops (e : MutationError) : Prop :=
  e = .exhausted ∨ ∃ node complaint, e = .node (.invariant node complaint)

def Forms {σ : Type} (m : Mutation σ) : Prop := m.pre.Forms ∧ m.post.Forms

variable {σ : Type} {p : Path} {s : State σ}

abbrev Gives (x : Mutate σ Node) (s : State σ) : Prop :=
  Leaves x s (fun n _ => n.WellFormed) fun e _ => Stops e

theorem call_gives {h : Hook σ} (forms : h.Forms) (wellFormed : ∀ n ∈ p.node :: p.above, n.WellFormed) :
    Gives (call h p) s := by
  have given := forms p s.supply wellFormed
  unfold Gives Leaves call
  cases called : h p s.supply with
  | ok n supply =>
    rw [called] at given
    exact given
  | error e supply =>
    rw [called] at given
    obtain ⟨node, complaint, rfl⟩ := given
    exact .inr ⟨node, complaint, rfl⟩

theorem find_part {k : Kind} {s : Slot} (member : s ∈ k.parts) : k.parts.find? (·.field == s.field) = some s := by
  have distinct := k.parts_nodup
  rw [List.find?_eq_some_iff_append]
  obtain ⟨before, after, split⟩ := List.append_of_mem member
  refine ⟨beq_self_eq_true _, before, after, split, ?_⟩
  intro t earlier
  rw [split, List.map_append, List.nodup_append] at distinct
  have other := distinct.2.2 t.field (List.mem_map_of_mem earlier) s.field (by simp)
  simpa using other

/-- A node that may come to stand in a field is one that the field takes. -/
theorem isIn_of_fits {k : Kind} {f : Field} {n : Node} (h : fits k f n = true) :
    ∀ s ∈ k.slots, s.field = f → n.isIn s.takes = true := by
  rintro s member rfl
  obtain ⟨part, listed, agrees⟩ := Kind.exists_part member
  rw [fits, ← agrees.field, find_part listed] at h
  rwa [← agrees.takes]

def Replaces (k : Kind) (c d : Field × Node) : Prop :=
  d.1 = c.1 ∧ d.2.WellFormed ∧ fits k c.1 d.2 = true

/-- The fields stay, and every rebuilt child fits its field. -/
theorem replaces_all {k : Kind} {cs ds : List (Field × Node)} (h : List.Forall₂ (Replaces k) cs ds) :
    ds.map (·.1) = cs.map (·.1) ∧ ∀ d ∈ ds, d.2.WellFormed ∧ fits k d.1 d.2 = true := by
  refine ⟨fields_eq_iff.mpr (h.imp fun _ _ replaces => replaces.1), ?_⟩
  induction h with
  | nil => exact fun d member => absurd member (List.not_mem_nil)
  | @cons c d cs ds first _ ih =>
    obtain ⟨same, formed, fit⟩ := first
    rw [← same] at fit
    exact List.forall_mem_cons.mpr ⟨⟨formed, fit⟩, ih⟩

theorem visitChild_replaces {visit : Path → Mutate σ Rebuilt} {k : Kind} {c : Field × Node}
    (visited : Leaves (visit (p.down c.2)) s (fun r _ => r.node.WellFormed) fun e _ => Stops e) :
    Leaves (visitChild visit p k c) s (fun r _ => Replaces k c (r.1, r.2.node)) fun e _ => Stops e := by
  refine visited.bind fun r after formed => .ite (fun fit => .pure ⟨rfl, formed, fit⟩) fun _ => ?_
  exact .throw (.inr ⟨_, _, rfl⟩)

theorem remake_gives {k : Kind} {old : Node} {children : List (Field × Node)} (obeys : old.Obeys k)
    (fields : children.map (·.1) = old.fields) (below : ∀ c ∈ children, c.2.WellFormed)
    (fit : ∀ c ∈ children, fits k c.1 c.2 = true) : Gives (remake old k children) s := by
  refine .bind (R := fun _ _ => True) (.note trivial) fun _ s₁ _ => ?_
  refine .bind (R := fun _ _ => True) (.get trivial) fun s₂ _ _ => ?_
  refine .bind (R := fun _ _ => True) (.set trivial) fun _ s₃ _ => ?_
  cases made : Node.make s₂.supply.nextId k old.scalars children with
  | ok n =>
    exact .pure (.make obeys fields (fun c member => isIn_of_fits (fit c member)) below made)
  | error e =>
    refine .throw (.inr ?_)
    unfold Node.make Node.checked at made
    split at made <;> cases made
    exact ⟨_, _, rfl⟩

/-- The children of a well-formed node are rebuilt one by one, and the node over them. -/
theorem rebuild_gives {visit : Path → Mutate σ Rebuilt} (wellFormed : p.node.WellFormed)
    (visits : ∀ c ∈ p.node.children, ∀ s,
      Leaves (visit (p.down c.2)) s (fun r _ => r.node.WellFormed) fun e _ => Stops e) :
    Gives (rebuild visit p) s := by
  obtain ⟨⟨k, obeys⟩, _⟩ := Node.wellFormed_iff.mp wellFormed
  have kind : p.node.kind? = some k := by simp [Node.kind?, obeys.kind]
  simp only [Gives, rebuild, kind]
  have parts : Leaves ((gather k.parts p.node.children).mapM (visitChild visit p k)) s
      (fun rs _ => List.Forall₂ (fun c r => Replaces k c (r.1, r.2.node)) (gather k.parts p.node.children) rs ∧ True)
      fun e _ => Stops e := by
    refine .mapM (fun _ => True) _ (fun c taken s _ => ?_) s trivial
    have visited := visitChild_replaces (k := k) (visits c (mem_gather.mp taken).1 s)
    exact visited.mono (fun _ _ made => ⟨made, trivial⟩) fun _ _ stops => stops
  refine parts.bind ?_
  rintro rs after ⟨replaced, _⟩
  refine .ite (fun _ => ?_) fun _ => .pure wellFormed
  -- every child of an obedient node stands in a field that is rebuilt
  have inPlace := forall₂_putBack k.parts_nodup (fun c d replaces => replaces.1)
    (List.forall₂_map_right_iff.mpr replaced) fun c member left => absurd (obeys.mem_gather member) left
  obtain ⟨fields, made⟩ := replaces_all inPlace
  exact remake_gives obeys fields (fun c member => (made c member).1) fun c member => (made c member).2

theorem moveExtras_leaves {source target : Node} {Q : Unit → State σ → Prop} {E : MutationError → State σ → Prop}
    (h : ∀ after, Q () after) : Leaves (moveExtras source target) s Q E := by
  refine .bind (R := fun _ _ => True) (.get trivial) fun s₁ _ _ => ?_
  split
  · exact .ite (fun _ => .bind (R := fun _ _ => True) (.note trivial) fun _ _ _ => h _) fun _ => h _
  · exact h _

theorem visit_gives {m : Mutation σ} (forms : m.Forms) (depth : Nat) (p : Path)
    (wellFormed : ∀ n ∈ p.node :: p.above, n.WellFormed) (s : State σ) :
    Leaves (m.visit depth p) s (fun r _ => r.node.WellFormed) fun e _ => Stops e := by
  induction depth generalizing p s with
  | zero => exact .throw (.inl rfl)
  | succ depth ih =>
    have above : ∀ n ∈ p.above, n.WellFormed := fun n member => wellFormed n (List.mem_cons_of_mem _ member)
    have replaced (n : Node) (formed : n.WellFormed) : ∀ x ∈ n :: p.above, x.WellFormed := by
      intro x member
      rcases List.mem_cons.mp member with rfl | member
      · exact formed
      · exact above x member
    refine (call_gives forms.1 wellFormed).bind fun before s₁ formed => ?_
    have rebuilt : Gives (rebuild (m.visit depth) (p.withNode before)) s₁ := by
      refine rebuild_gives formed fun c member s => ih ((p.withNode before).down c.2) ?_ s
      intro n inside
      rcases List.mem_cons.mp inside with rfl | inside
      · exact (Node.wellFormed_iff.mp formed).2 c member
      · exact replaced before formed n inside
    refine rebuilt.bind fun n s₂ formed => ?_
    refine (call_gives forms.2 (replaced n formed)).bind fun after s₃ formed => ?_
    refine .ite (fun _ => .pure (wellFormed _ (List.mem_cons_self ..))) fun _ => ?_
    exact .bind (moveExtras_leaves (Q := fun _ _ => True) fun _ => trivial) fun _ _ _ => .pure formed

/-- How a run of the mutation ends for well-formed trees. -/
theorem Gives.ends {x : Mutate σ Node} (h : Gives x s) : match x s with
    | .ok n _ => n.WellFormed
    | .error (.node e) _ => ∃ node complaint, e = .invariant node complaint
    | .error .exhausted _ => True := by
  unfold Gives Leaves at h
  split at h
  · rename_i n after ran
    rw [ran]
    exact h
  · rename_i e after failed
    rw [failed]
    rcases h with rfl | ⟨node, complaint, rfl⟩
    · trivial
    · exact ⟨node, complaint, rfl⟩

/-- If a mutation ends whose hooks give well-formed nodes, then with a well-formed tree or at a node that breaks a
rule, however deep it may go. It never meets a node of an unknown kind. -/
theorem mutation_keeps_wellFormed (m : Mutation σ) (root : Node) (s : State σ) (forms : m.Forms)
    (formed : root.WellFormed) :
    (∀ depth, match ((·.node) <$> m.visit depth (.ofRoot root) : Mutate σ Node) s with
      | .ok n _ => n.WellFormed
      | .error (.node e) _ => ∃ node complaint, e = .invariant node complaint
      | .error .exhausted _ => True) ∧
    match m.traverse root s with
      | .ok n _ => n.WellFormed
      | .error (.node e) _ => ∃ node complaint, e = .invariant node complaint
      | .error .exhausted _ => True := by
  have here : ∀ n ∈ (Path.ofRoot root).node :: (Path.ofRoot root).above, n.WellFormed := by
    intro n member
    rw [List.mem_singleton.mp member]
    exact formed
  have visited (depth : Nat) : Gives ((·.node) <$> m.visit depth (.ofRoot root)) s :=
    .bind (visit_gives forms depth (.ofRoot root) here s) fun _ _ formed => .pure formed
  exact ⟨fun depth => (visited depth).ends, (visited (root.height + growth)).ends⟩

def renamed : Mutation Unit where
  post p s :=
    if p.node.isKind .nameExpression then
      .ok (.mk s.nextId (.kind .nameExpression) [(.text, .text "b")] []) { s with nextId := s.nextId + 1 }
    else .ok p.node s

theorem renamed_forms : renamed.Forms := by
  refine ⟨fun p s formed => formed _ (List.mem_cons_self ..), fun p s formed => ?_⟩
  unfold renamed
  by_cases name : p.node.isKind .nameExpression = true
  · simp only [name, if_true]
    refine Node.wellFormed_iff.mpr ⟨⟨.nameExpression, rfl, rfl, ?_, ?_, rfl⟩, ?_⟩ <;> intro c member <;> cases member
  · simp only [name]
    exact formed _ (List.mem_cons_self ..)

theorem operation_wellFormed : (operation .nameExpression).WellFormed := by
  intro m member
  simp only [operation, Node.preorder, Node.preorderAll, List.append_nil, List.cons_append, List.nil_append,
    List.mem_cons, List.not_mem_nil, or_false] at member
  rcases member with rfl | rfl | rfl | rfl
  · refine ⟨.binaryExpression, rfl, rfl, by decide, ?_, rfl⟩
    decide
  · exact ⟨.nameExpression, rfl, rfl, by decide, by decide, rfl⟩
  · exact ⟨.keyword, rfl, rfl, by decide, by decide, rfl⟩
  · exact ⟨.nameExpression, rfl, rfl, by decide, by decide, rfl⟩

theorem renamed_sum_wellFormed : renamed.Forms ∧ (operation .nameExpression).WellFormed ∧
    ∃ n after, renamed.traverse (operation .nameExpression) ⟨⟨4, ()⟩, none, []⟩ = .ok n after ∧ n.WellFormed ∧
      n.preorder.map (·.text) = ["", "b", "+", "b"] := by
  have ends := (mutation_keeps_wellFormed renamed (operation .nameExpression) ⟨⟨4, ()⟩, none, []⟩ renamed_forms
    operation_wellFormed).2
  obtain ⟨n, after, ran, texts⟩ : ∃ n after, renamed.traverse (operation .nameExpression) ⟨⟨4, ()⟩, none, []⟩ =
      .ok n after ∧ n.preorder.map (·.text) = ["", "b", "+", "b"] := ⟨_, _, rfl, rfl⟩
  rw [ran] at ends
  exact ⟨renamed_forms, operation_wellFormed, n, after, ran, ends, texts⟩

end Mutation

end KotlinSyntax
