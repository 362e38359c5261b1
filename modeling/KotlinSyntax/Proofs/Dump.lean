import KotlinSyntax.Proofs.Dump.Line
import KotlinSyntax.Proofs.Traversal

/-! What a dump tells. The lines of a verbose dump are told apart by the line feeds, each of them tells what its node
holds itself, and the children of a node are the lines that follow it one step deeper, up to the first line that is no
deeper than the node. So two trees with one dump differ in nothing but their numbers and the fields of their
children. -/
namespace KotlinSyntax

/-- A tree without its numbers and without the fields that the children stand in. -/
inductive Content
  | mk (tag : Tag) (scalars : List (Field × Scalar)) (children : List Content)
  deriving Repr, Inhabited

namespace Node

mutual

def content : Node → Content
  | mk _ tag scalars children => .mk tag scalars (contentAll children)

def contentAll : List (Field × Node) → List Content
  | [] => []
  | (_, n) :: rest => content n :: contentAll rest

end

def AllTyped (n : Node) : Prop := ∀ m ∈ n.preorder, m.Typed

variable {id : Nat} {tag : Tag} {scalars : List (Field × Scalar)} {children : List (Field × Node)} {n m : Node}

theorem AllTyped.self (h : n.AllTyped) : n.Typed := h n (mem_preorder_self n)

theorem AllTyped.child (h : (mk id tag scalars children).AllTyped) : ∀ c ∈ children, c.2.AllTyped :=
  fun _ member _ below => h _ (mem_preorder_child member below)

theorem AllTyped.known (h : n.AllTyped) : n.Known := by
  intro m member
  obtain ⟨k, kind, -⟩ := (h m member).kind
  rw [kind?, kind]
  rfl

end Node

namespace Dump

variable {id : Nat} {tag : Tag} {scalars : List (Field × Scalar)} {children cs ds : List (Field × Node)} {n m : Node}
  {depth : Nat} {r s : List String}

abbrev rows (depth : Nat) (n : Node) : List String := lines { verbose := true } depth n

abbrev rowsAll (depth : Nat) (cs : List (Field × Node)) : List String := linesAll { verbose := true } depth cs

theorem rows_mk (depth : Nat) (id : Nat) (tag : Tag) (scalars : List (Field × Scalar))
    (children : List (Field × Node)) :
    rows depth (.mk id tag scalars children) =
      row depth (.mk id tag scalars children) :: rowsAll (depth + 1) children := by
  simp [rows, rowsAll, lines, extraLines, row, Node.tag, Node.scalars]

theorem rowsAll_cons (depth : Nat) (c : Field × Node) (cs : List (Field × Node)) :
    rowsAll depth (c :: cs) = rows depth c.2 ++ rowsAll depth cs := by
  cases c
  rfl

theorem mem_rowsAll {l : String} : l ∈ rowsAll depth cs ↔ ∃ c ∈ cs, l ∈ rows depth c.2 := by
  induction cs with
  | nil => simp [rowsAll, linesAll]
  | cons c cs ih => rw [rowsAll_cons, List.mem_append, ih, List.exists_mem_cons_iff]

theorem rows_oneLine (typed : n.AllTyped) (depth : Nat) : ∀ l ∈ rows depth n, '\n' ∉ l.toList := by
  induction n using Node.induct generalizing depth with
  | mk id tag scalars children ih =>
    rw [rows_mk]
    refine List.forall_mem_cons.mpr ⟨row_oneLine typed.self depth, fun l member => ?_⟩
    obtain ⟨c, inside, below⟩ := mem_rowsAll.mp member
    exact ih c inside (typed.child c inside) (depth + 1) l below

/-- The lines go on no deeper than at the depth, if they go on. -/
def Outside (depth : Nat) (ls : List String) : Prop := ∀ l ∈ ls.head?, ∃ d ≤ depth, Indented d l

theorem Outside.deeper (h : Outside depth r) : Outside (depth + 1) r := fun l next => by
  obtain ⟨d, bound, indented⟩ := h l next
  exact ⟨d, Nat.le_succ_of_le bound, indented⟩

theorem outside_rowsAll (depth : Nat) (cs : List (Field × Node)) (h : Outside depth r) :
    Outside (depth + 1) (rowsAll (depth + 1) cs ++ r) := by
  cases cs with
  | nil => exact h.deeper
  | cons c cs =>
    obtain ⟨f, n⟩ := c
    cases n with
    | mk id tag scalars children =>
      rw [rowsAll_cons, rows_mk]
      rintro l ⟨⟩
      exact ⟨depth + 1, Nat.le_refl _, row_indented (depth + 1) _⟩

/-- The lines of a deeper tree do not begin where lines that are no deeper go on. -/
theorem outside_ne (h : Outside depth r) (n : Node) (s : List String) : r ≠ rows (depth + 1) n ++ s := by
  cases n with
  | mk id tag scalars children =>
    rw [rows_mk]
    rintro rfl
    obtain ⟨d, bound, indented⟩ := h _ rfl
    have same := indented.unique (row_indented (depth + 1) _)
    omega

/-- The lines of the tree end where no deeper lines follow, and tell its content. -/
def Decodes (n : Node) : Prop :=
  ∀ (depth : Nat) (m : Node) (r s : List String), m.AllTyped → Outside depth r → Outside depth s →
    rows depth n ++ r = rows depth m ++ s → n.content = m.content ∧ r = s

/-- So do the lines of trees side by side, if those of each tree do. -/
theorem rowsAll_decode (each : ∀ c ∈ cs, Decodes c.2) (typed : ∀ d ∈ ds, d.2.AllTyped) (ends : Outside depth r)
    (ends' : Outside depth s) (h : rowsAll (depth + 1) cs ++ r = rowsAll (depth + 1) ds ++ s) :
    Node.contentAll cs = Node.contentAll ds ∧ r = s := by
  induction cs generalizing ds with
  | nil =>
    cases ds with
    | nil => exact ⟨rfl, h⟩
    | cons d ds =>
      rw [rowsAll_cons, List.append_assoc] at h
      exact absurd h (outside_ne ends d.2 _)
  | cons c cs ih =>
    cases ds with
    | nil =>
      rw [rowsAll_cons, List.append_assoc] at h
      exact absurd h.symm (outside_ne ends' c.2 _)
    | cons d ds =>
      rw [rowsAll_cons, rowsAll_cons, List.append_assoc, List.append_assoc] at h
      obtain ⟨first, rest⟩ := each c (List.mem_cons_self ..) (depth + 1) d.2 _ _ (typed d (List.mem_cons_self ..))
        (outside_rowsAll depth cs ends) (outside_rowsAll depth ds ends') h
      obtain ⟨others, same⟩ := ih (fun e member => each e (List.mem_cons_of_mem c member))
        (fun e member => typed e (List.mem_cons_of_mem d member)) rest
      rw [Node.contentAll, Node.contentAll, first, others]
      exact ⟨rfl, same⟩

/-- By induction on the tree: its line tells what it holds itself, and behind it stand the lines of its children. -/
theorem rows_decode (typed : n.AllTyped) : Decodes n := by
  induction n using Node.induct with
  | mk id tag scalars children ih =>
    rintro depth ⟨id', tag', scalars', children'⟩ r s typed' ends ends' h
    rw [rows_mk, rows_mk, List.cons_append, List.cons_append] at h
    obtain ⟨line, below⟩ := List.cons.inj h
    obtain ⟨rfl, rfl⟩ : tag = tag' ∧ scalars = scalars' := row_inj typed.self typed'.self line
    obtain ⟨contents, rest⟩ := rowsAll_decode (fun c member => ih c member (typed.child c member)) typed'.child ends
      ends' below
    rw [Node.content, Node.content, contents]
    exact ⟨rfl, rest⟩

theorem rowsAll_congr (each : ∀ c ∈ cs, ∀ m : Node, c.2.content = m.content → rows depth c.2 = rows depth m)
    (h : Node.contentAll cs = Node.contentAll ds) : rowsAll depth cs = rowsAll depth ds := by
  induction cs generalizing ds with
  | nil =>
    cases ds with
    | nil => rfl
    | cons d ds => cases h
  | cons c cs ih =>
    cases ds with
    | nil => cases h
    | cons d ds =>
      rw [Node.contentAll, Node.contentAll, List.cons.injEq] at h
      rw [rowsAll_cons, rowsAll_cons, each c (List.mem_cons_self ..) d.2 h.1,
        ih (fun e member => each e (List.mem_cons_of_mem c member)) h.2]

/-- Numbers and the fields of children leave no trace in the lines. -/
theorem rows_congr (depth : Nat) (m : Node) (h : n.content = m.content) : rows depth n = rows depth m := by
  induction n using Node.induct generalizing m depth with
  | mk id tag scalars children ih =>
    obtain ⟨id', tag', scalars', children'⟩ := m
    rw [Node.content, Node.content, Content.mk.injEq] at h
    obtain ⟨rfl, rfl, contents⟩ := h
    rw [rows_mk, rows_mk, rowsAll_congr (fun c member => ih c member (depth + 1)) contents]
    rfl

/-- Lines can be told apart behind each other if none of them holds a line feed. -/
theorem intercalate_inj {as bs : List String} (filled : as ≠ []) (filled' : bs ≠ [])
    (lines : ∀ l ∈ as, '\n' ∉ l.toList) (lines' : ∀ l ∈ bs, '\n' ∉ l.toList)
    (h : String.intercalate "\n" as = String.intercalate "\n" bs) : as = bs := by
  have split {ls : List String} (filled : ls ≠ []) (lines : ∀ l ∈ ls, '\n' ∉ l.toList) :
      (String.intercalate "\n" ls).toList.splitOn '\n' = ls.map String.toList := by
    rw [String.toList_intercalate]
    exact List.splitOn_intercalate '\n' (List.forall_mem_map.mpr lines) (by simpa using filled)
  refine List.map_injective_iff.mpr (fun _ _ => String.toList_inj.mp) ?_
  rw [← split filled lines, h, split filled' lines']

end Dump

namespace Node

variable {n m : Node}

theorem AllTyped.dump (h : n.AllTyped) :
    n.dump { verbose := true } = .ok (String.intercalate "\n" (Dump.rows 0 n)) := by
  rw [Node.dump, h.known.recognized]
  rfl

/-- A verbose dump determines the labelled ordered tree: two typed trees have one dump just where they have the same
kind, the same text and flags, and the same children in the same order, these compared likewise. -/
theorem dump_determines_content (n m : Node) (typed : n.AllTyped) (typed' : m.AllTyped) :
    (∃ text, n.dump { verbose := true } = .ok text) ∧
      (n.dump { verbose := true } = m.dump { verbose := true } ↔ n.content = m.content) := by
  refine ⟨⟨_, typed.dump⟩, ?_⟩
  rw [typed.dump, typed'.dump, Except.ok.injEq]
  constructor
  · intro h
    have filled (n : Node) : Dump.rows 0 n ≠ [] := by
      cases n
      simp [Dump.rows_mk]
    have same : Dump.rows 0 n ++ [] = Dump.rows 0 m ++ [] := by
      rw [Dump.intercalate_inj (filled n) (filled m) (Dump.rows_oneLine typed 0) (Dump.rows_oneLine typed' 0) h]
    have ended : Dump.Outside 0 [] := by simp [Dump.Outside]
    exact (Dump.rows_decode typed 0 m [] [] typed' ended ended same).1
  · intro h
    rw [Dump.rows_congr 0 m h]

/-- One name whose text looks like the rest of its line and the line of another one, against two names. -/
theorem dump_determines_content_of_names :
    let one := mk 1 (.kind .blockExpression) [] [(.statements, mk 0 (.kind .nameExpression)
      [(.text, .text "x\"\x7d\n  Node.Expression.NameExpression\x7btext=\"y")] [])]
    let two := mk 2 (.kind .blockExpression) [] [(.statements, mk 0 (.kind .nameExpression) [(.text, .text "x")] []),
      (.statements, mk 1 (.kind .nameExpression) [(.text, .text "y")] [])]
    one.AllTyped ∧ two.AllTyped ∧ one.dump { verbose := true } ≠ two.dump { verbose := true } := by
  intro one two
  have name (id : Nat) (text : String) : (mk id (.kind .nameExpression) [(.text, .text text)] []).Typed :=
    ⟨⟨_, rfl, by simp⟩, by simp [scalars, Scalar.isFlag, Field.isFlag]⟩
  have block (id : Nat) (children : List (Field × Node)) : (mk id (.kind .blockExpression) [] children).Typed :=
    ⟨⟨_, rfl, by simp⟩, by simp [scalars]⟩
  have typed : one.AllTyped := by simp [one, AllTyped, preorder, preorderAll, name, block]
  have typed' : two.AllTyped := by simp [two, AllTyped, preorder, preorderAll, name, block]
  refine ⟨typed, typed', fun same => ?_⟩
  have contents := (dump_determines_content one two typed typed').2.mp same
  simp [one, two, content, contentAll] at contents

end Node

end KotlinSyntax
