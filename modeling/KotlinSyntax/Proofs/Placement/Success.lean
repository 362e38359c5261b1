import KotlinSyntax.Proofs.Lexing.Lines
import KotlinSyntax.Proofs.Placement
import KotlinSyntax.Proofs.Plan.Kind

/-! Placing succeeds wherever the root has a node and each leaf of trivia has an extra to become. -/
namespace KotlinSyntax

namespace Placement

variable {s s' : State} {α β : Type}

theorem bind_of_ok {c : Place α} {f : α → Place β} {a : α} (h : c s = .ok (a, s')) : (c >>= f) s = f a s' := by
  change Except.bind (c s) (fun answer => f answer.1 answer.2) = f a s'
  rw [h]
  rfl

def Quiet (c : Place Unit) : Prop := ∀ s, ∃ s', c s = .ok ((), s') ∧ s'.pending = s.pending

namespace Quiet

variable {c d : Place Unit}

theorem seq (h : Quiet c) (k : Quiet d) : Quiet (do c; d) := by
  intro s
  obtain ⟨s₁, first, same⟩ := h s
  obtain ⟨s₂, second, same'⟩ := k s₁
  exact ⟨s₂, (bind_of_ok first).trans second, same'.trans same⟩

theorem append {n : Node} {p : Position} {es : List Extra} : Quiet (append n p es) := by
  intro s
  cases es with
  | nil => exact ⟨s, rfl, rfl⟩
  | cons e es => exact ⟨_, rfl, rfl⟩

theorem place {run : Run} {prev next : Option Node} {closing : Bool} {owner : Node} :
    Quiet (place run prev next closing owner) := by
  unfold Placement.place
  cases prev with
  | none => cases next <;> exact append
  | some p =>
    cases next with
    | none =>
      simp only
      split
      · exact append.seq append
      · exact append
    | some n =>
      simp only
      split
      · exact append.seq append
      · exact append

theorem flush {run : Run} {prev next : Option Node} {closing : Bool} {owner : Node} :
    Quiet (flush run prev next closing owner) := by
  cases run with
  | nil => exact fun s => ⟨s, rfl, rfl⟩
  | cons first more => exact place

end Quiet

def Offered (l : Leaf) (offer : Except PlacementError Extra) : Prop := l.trivia = true → ∃ x, offer = .ok x

def Runs (c : Place Unit) (ls : List Leaf) : Prop :=
  ∀ s offers left, List.Forall₂ Offered ls offers → s.pending = offers ++ left →
    ∃ s', c s = .ok ((), s') ∧ s'.pending = left

namespace Runs

variable {c d : Place Unit} {l : Leaf} {ls ms : List Leaf}

theorem ofQuiet (h : Quiet c) : Runs c [] := by
  intro s offers left offered pending
  cases offered
  obtain ⟨s', ran, same⟩ := h s
  exact ⟨s', ran, same.trans pending⟩

theorem seq (h : Runs c ls) (k : Runs d ms) : Runs (do c; d) (ls ++ ms) := by
  intro s offers left offered pending
  have front := List.forall₂_take ls.length offered
  have back := List.forall₂_drop ls.length offered
  rw [List.take_left] at front
  rw [List.drop_left] at back
  rw [← List.take_append_drop ls.length offers, List.append_assoc] at pending
  obtain ⟨s₁, first, pending₁⟩ := h s _ _ front pending
  obtain ⟨s₂, second, pending₂⟩ := k s₁ _ left back pending₁
  exact ⟨s₂, (bind_of_ok first).trans second, pending₂⟩

theorem skip (h : Runs d ls) : Runs (do let _ ← nextExtra; d) (l :: ls) := by
  intro s offers left offered pending
  cases offered with
  | @cons _ offer _ offers _ offered =>
    exact h { s with pending := s.pending.tail } offers left offered (by simp [pending])

/-- A leaf of trivia becomes what is offered for it. -/
theorem take {d : Extra → Place Unit} (trivia : l.trivia = true) (h : ∀ x, Runs (d x) ls) : Runs (do
    match ← nextExtra with
    | some (.ok x) => d x
    | some (.error e) => throw e
    | none => return) (l :: ls) := by
  intro s offers left offered pending
  cases offered with
  | @cons _ offer _ offers is offered =>
    obtain ⟨x, rfl⟩ := is trivia
    obtain ⟨s', ran, pending'⟩ := h x { s with pending := s.pending.tail } offers left offered (by simp [pending])
    have next : nextExtra s = .ok (some (.ok x), { s with pending := s.pending.tail }) := by
      change Except.ok (s.pending.head?, { s with pending := s.pending.tail }) = _
      rw [pending]
      rfl
    exact ⟨s', (bind_of_ok next).trans ran, pending'⟩

end Runs

variable {produced : Produced}

mutual

theorem walk_runs (number : Nat) (owner : Node) (kind : RawKind) (role : Option String) (children : List RawElement) :
    Runs (walk produced number owner (.node kind role children)) (RawElement.leavesAll children) := by
  rw [walk]
  exact walkAll_runs (number + 1) _ none [] children
termination_by (sizeOf children, 1)

/-- The walk takes all leaves of the parts, and stops at none of them. -/
theorem walkAll_runs (number : Nat) (owner : Node) (prev : Option Node) (run : Run) : (es : List RawElement) →
    Runs (walkAll produced number owner prev run es) (RawElement.leavesAll es)
  | [] => by
    rw [walkAll]
    exact .ofQuiet .flush
  | .leaf l :: es => by
    simp only [walkAll, RawElement.leavesAll, RawElement.leaves, List.cons_append, List.nil_append]
    by_cases trivia : l.trivia = true
    · rw [if_pos trivia]
      exact .take trivia fun x => walkAll_runs (number + 1) owner prev (run ++ [(l, x)]) es
    · rw [if_neg trivia]
      exact (Runs.ofQuiet .flush).seq (.skip (walkAll_runs (number + 1) owner (nodeAt produced number) [] es))
  | .node kind role children :: es => by
    simp only [walkAll, RawElement.leavesAll, RawElement.leaves]
    have inside := walk_runs number owner kind role children
    have next := walkAll_runs (number + (RawElement.node kind role children).size) owner (nodeAt produced number) [] es
    exact ((Runs.ofQuiet .flush).seq (inside.seq next) :)
termination_by es => (sizeOf es, 0)

end

theorem collect_succeeds {kind : RawKind} {role : Option String} {children : List RawElement} {root : Node}
    (made : nodeAt produced 0 = some root)
    (offered : List.Forall₂ Offered (RawElement.leavesAll children) (extrasFor (RawElement.leavesAll children))) :
    ∃ m, collect produced (.node kind role children) = .ok m := by
  have runs : Runs (walk produced 0 root (.node kind role children)) (RawElement.leavesAll children) :=
    walk_runs 0 root kind role children
  obtain ⟨s, ran, -⟩ := runs
    { pending := extrasFor (RawElement.leavesAll children) } _ [] offered (List.append_nil _).symm
  refine ⟨s.extras, ?_⟩
  unfold collect
  rw [made]
  change Except.bind (walk produced 0 root (.node kind role children)
    { pending := extrasFor (RawElement.leavesAll children) }) (fun answer => .ok answer.2.extras) = .ok s.extras
  rw [ran]
  rfl

/-! What a leaf of trivia becomes. -/

/-- A run of blanks holds some, and nothing else. -/
def Clear (l : Leaf) : Prop :=
  l.token.kind = .whitespace → l.token.text ≠ "" ∧ l.token.text.toList.all Text.isBlank = true

theorem whitespace_checked {text : String} (filled : text ≠ "") (blank : text.toList.all Text.isBlank = true) :
    (Extra.whitespace text).checked = .ok (.whitespace text) := by
  have free : (Node.mk 0 (.kind .whitespace) [(.text, .text text)] []).broken? = none := by
    simpa [Node.broken?, Node.kind?, Node.tag, Kind.demands, Node.text, Node.textOf, Node.scalars, filled] using blank
  simp only [Extra.checked, Extra.kind, Extra.scalars, Extra.text, Node.make, Node.checked, free]
  rfl

theorem extraFor_ok {l : Leaf} (sorted : l.Sorted) (clear : Clear l) (trivia : l.trivia = true) (starts ends : Bool) :
    ∃ x, extraFor l starts ends = .ok x := by
  unfold extraFor
  split
  · rename_i kind
    obtain ⟨filled, blank⟩ := clear kind
    exact ⟨_, by rw [whitespace_checked filled blank]; rfl⟩
  · exact ⟨_, rfl⟩
  · exact ⟨_, rfl⟩
  · exact ⟨_, rfl⟩
  · rename_i noBlank noLine noBlock noSemicolon
    have comma : l.token.text = "," := by
      refine (sorted trivia).resolve_left fun kind => ?_
      cases is : l.token.kind <;> simp_all [TokenKind.isTrivia]
    exact ⟨_, by rw [comma]; rfl⟩

theorem extrasFor_offered {ls : List Leaf} (sorted : ∀ l ∈ ls, l.Sorted) (clear : ∀ l ∈ ls, Clear l) :
    List.Forall₂ Offered ls (extrasFor ls) :=
  extrasFor_related fun l member starts ends trivia => extraFor_ok (sorted l member) (clear l member) trivia starts ends

/-! The node for the root. -/

theorem size_producedBy (events : List Event) (count : Nat) : (producedBy events count).size = count := by
  induction events with
  | nil => simp [producedBy]
  | cons e rest ih =>
    cases origin : e.origin with
    | none =>
      have same : producedBy (e :: rest) count = producedBy rest count := by simp [producedBy, origin]
      rw [same, ih]
    | some o =>
      have step : producedBy (e :: rest) count = (producedBy rest count).setIfInBounds o.number (some e.node) := by
        simp [producedBy, origin]
      rw [step, Array.size_setIfInBounds, ih]

/-- The newest event decides about its element. -/
theorem nodeAt_newest {n : Node} {o : Origin} {rest : List Event} {count : Nat} (inside : o.number < count) :
    nodeAt (producedBy (⟨n, some o⟩ :: rest) count) o.number = some n := by
  have step : producedBy (⟨n, some o⟩ :: rest) count =
      (producedBy rest count).setIfInBounds o.number (some n) := rfl
  simp [nodeAt, step, size_producedBy, inside]

end Placement

namespace Conversion

variable {α : Type} {o : Owner}

/-- What the rule gives, it records last, for the owner. -/
def Closes (r : Reading Node) (o : Owner) : Prop :=
  ∀ items s, match r o items s with
    | .ok answer s' => s'.events.head? = some ⟨answer.1, some o.origin⟩
    | .error _ _ => True

theorem build_closes {k : Kind} {scalars : List (Field × Scalar)} {children : List (Field × Node)} :
    Closes (build k scalars children) o := by
  intro items s
  have same : build k scalars children o =
      (do let n ← make k scalars children; emit o.origin n : Reading Node) o := rfl
  have run : (liftM (make k scalars children >>= emit o.origin) : Reading Node) o items s =
      EStateM.bind (make k scalars children >>= emit o.origin) (fun n => EStateM.pure (n, items)) s := rfl
  rw [same, liftM_bind_liftM, run, EStateM.bind, make_emit_run]
  cases Node.make s.nextId k scalars children with
  | ok n => rfl
  | error e => trivial

theorem Closes.bind {r : Reading α} {f : α → Reading Node} (last : ∀ a, Closes (f a) o) : Closes (r >>= f) o := by
  intro items s
  have run : (r >>= f) o items s = EStateM.bind (r o items) (fun answer => f answer.1 o answer.2) s := rfl
  rw [run, EStateM.bind]
  cases r o items s with
  | ok answer s' => exact last answer.1 answer.2 s'
  | error e s' => trivial

theorem rootRule_closes (form : Form) : Closes (rootRule form) o := by
  cases form with
  | file => exact .bind fun _ => .bind fun _ => build_closes
  | script => exact .bind fun _ => .bind fun _ => build_closes

/-- The tree of a source stands for the root of its raw tree. -/
theorem convertSource_closes {form : Form} {root : RawElement} {s s' : State} {n : Node}
    (ran : convertSource form root s = .ok n s') : ∃ rest, s'.events = ⟨n, some ⟨0, root⟩⟩ :: rest := by
  cases root with
  | leaf l => cases ran
  | node kind role children =>
    simp only [convertSource] at ran
    split at ran
    · have closes := rootRule_closes form (o := ⟨0, kind, role, children⟩) (parts 1 children) s
      have run : apply ⟨0, kind, role, children⟩ (items 1 children) (rootRule form) s =
          EStateM.bind (rootRule form ⟨0, kind, role, children⟩ (parts 1 children))
            (fun answer => EStateM.pure answer.1) s := rfl
      rw [run, EStateM.bind] at ran
      split at ran
      · rename_i answer s₁ read
        cases ran
        rw [read] at closes
        exact List.head?_eq_some_iff.mp closes
      · cases ran
    · cases ran

end Conversion

end KotlinSyntax
