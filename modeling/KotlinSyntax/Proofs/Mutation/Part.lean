import Mathlib.Data.List.Forall2
import Mathlib.Data.List.Perm.Basic
import KotlinSyntax.Mutation.Part
import KotlinSyntax.Node.Draft

/-! A mutation lists the fields of each kind on its own. It names the fields that the kind has, in their order and
with the nodes that each of them takes, and what it rebuilt comes back to where it was taken from. -/
namespace KotlinSyntax

/-- Two entries for a field that say the same of it, with the spellings of a keyword in any order. -/
structure Slot.Agrees (s t : Slot) : Prop where
  field : s.field = t.field
  arity : s.arity = t.arity
  takes : ∀ n : Node, n.isIn s.takes = n.isIn t.takes

theorem Slot.Agrees.refl (s : Slot) : s.Agrees s := ⟨rfl, rfl, fun _ => rfl⟩

theorem Node.isIn_keyword_perm {xs ys : List String} (perm : xs.Perm ys) (n : Node) :
    n.isIn (.keyword xs) = n.isIn (.keyword ys) := by
  unfold isIn
  split
  · rw [Category.keyword, Category.keyword, perm.contains_eq]
  · rfl

/-- Both lists name the same fields in the same order, with the same nodes for each. -/
theorem Kind.parts_agree (k : Kind) : List.Forall₂ Slot.Agrees k.parts k.slots := by
  have almost : k.parts = k.slots ∨ k = .whenCondition := by
    cases k <;> first | exact .inl rfl | exact .inr rfl
  rcases almost with same | rfl
  · exact same ▸ List.forall₂_same.mpr fun s _ => .refl s
  · -- the operators of a condition are listed in another order
    have perm : ["is", "!is", "in", "!in"].Perm Keyword.conditionOperators := by decide
    exact .cons ⟨rfl, rfl, Node.isIn_keyword_perm perm⟩ (.cons (.refl _) (.cons (.refl _) .nil))

theorem Kind.exists_part {k : Kind} {t : Slot} (member : t ∈ k.slots) : ∃ s ∈ k.parts, s.Agrees t := by
  have agree := k.parts_agree
  generalize k.parts = parts, k.slots = slots at agree member
  induction agree with
  | nil => cases member
  | @cons s u _ _ first _ ih =>
    rcases List.mem_cons.mp member with rfl | member
    · exact ⟨s, List.mem_cons_self .., first⟩
    · obtain ⟨part, listed, agrees⟩ := ih member
      exact ⟨part, List.mem_cons_of_mem _ listed, agrees⟩

theorem Kind.parts_nodup (k : Kind) : (k.parts.map (·.field)).Nodup := by
  cases k <;> decide

namespace Mutation

section Gather

variable {α : Type} {parts : List Slot} {x : Field × α} {xs : List (Field × α)}

theorem gather_cons (s : Slot) : gather (s :: parts) xs = xs.filter (·.1 == s.field) ++ gather parts xs :=
  List.flatMap_cons

theorem gather_congr {slots : List Slot} (agree : List.Forall₂ Slot.Agrees parts slots) :
    gather parts xs = gather slots xs := by
  induction agree with
  | nil => rfl
  | cons first _ ih => rw [gather_cons, gather_cons, first.field, ih]

/-- A mutation turns to the children in the order in which building arranges them. -/
theorem gather_eq_arrange (k : Kind) (cs : List (Field × Node)) : gather k.parts cs = Node.arrange k cs :=
  gather_congr k.parts_agree

theorem mem_gather : x ∈ gather parts xs ↔ x ∈ xs ∧ ∃ s ∈ parts, s.field = x.1 := by
  simp only [gather, List.mem_flatMap, List.mem_filter, beq_iff_eq]
  constructor
  · rintro ⟨s, among, member, is⟩
    exact ⟨member, s, among, is.symm⟩
  · rintro ⟨member, s, among, is⟩
    exact ⟨s, among, member, is.symm⟩

theorem gather_nil : gather parts ([] : List (Field × α)) = [] := by
  simp [gather]

theorem filter_gather_of_not_mem {f : Field} (absent : f ∉ parts.map (·.field)) :
    (gather parts xs).filter (·.1 == f) = [] := by
  rw [List.filter_eq_nil_iff]
  intro x member is
  obtain ⟨_, s, among, same⟩ := mem_gather.mp member
  exact absent (beq_iff_eq.mp is ▸ same ▸ List.mem_map_of_mem among)

/-- The nodes of a field that is rebuilt keep their order. -/
theorem filter_gather (distinct : (parts.map (·.field)).Nodup) {s : Slot} (member : s ∈ parts) :
    (gather parts xs).filter (·.1 == s.field) = xs.filter (·.1 == s.field) := by
  induction parts with
  | nil => cases member
  | cons t rest ih =>
    rw [List.map_cons, List.nodup_cons] at distinct
    rw [gather_cons, List.filter_append, List.filter_filter]
    rcases List.mem_cons.mp member with rfl | member
    · have none : (gather rest xs).filter (·.1 == s.field) = [] := filter_gather_of_not_mem distinct.1
      simp only [none, List.append_nil, Bool.and_self]
    · have here : xs.filter (fun x => x.1 == s.field && x.1 == t.field) = [] := by
        rw [List.filter_eq_nil_iff]
        intro x _ both
        simp only [Bool.and_eq_true, beq_iff_eq] at both
        exact distinct.1 (both.2 ▸ both.1 ▸ List.mem_map_of_mem member)
      rw [here, List.nil_append]
      exact ih distinct.2 member

theorem gather_perm (distinct : (parts.map (·.field)).Nodup) :
    (gather parts xs).Perm (xs.filter fun x => parts.any (·.field == x.1)) := by
  induction parts with
  | nil => simp [gather]
  | cons s rest ih =>
    rw [List.map_cons, List.nodup_cons] at distinct
    have split := List.filter_append_perm (fun x : Field × α => x.1 == s.field)
      (xs.filter fun x => (s :: rest).any (·.field == x.1))
    rw [List.filter_filter, List.filter_filter] at split
    refine .trans ?_ split
    rw [gather_cons]
    refine .append (.of_eq (List.filter_congr fun x _ => ?_))
      ((ih distinct.2).trans (.of_eq (List.filter_congr fun x _ => ?_)))
    · by_cases is : x.1 = s.field <;> simp [is]
    · have apart : x.1 = s.field → rest.any (·.field == x.1) = false := by
        intro is
        rw [List.any_eq_false]
        intro t member same
        exact distinct.1 (is ▸ beq_iff_eq.mp same ▸ List.mem_map_of_mem member)
      by_cases is : x.1 = s.field
      · simp [is, is ▸ apart is]
      · have other : (s.field == x.1) = false := by simpa using Ne.symm is
        simp [is, other]

end Gather

section PutBack

variable {R : Field × Node → Field × Node → Prop} {parts : List Slot} {cs new : List (Field × Node)}

theorem fields_eq_iff {ds : List (Field × Node)} :
    ds.map (·.1) = cs.map (·.1) ↔ List.Forall₂ (fun c d => d.1 = c.1) cs ds := by
  rw [← List.forall₂_eq_eq_eq, List.forall₂_map_left_iff, List.forall₂_map_right_iff]
  exact ⟨.flip, .flip⟩

theorem filter_eraseP (f g : Field) (xs : List (Field × Node)) :
    (xs.eraseP (·.1 == g)).filter (·.1 == f) =
      if f = g then (xs.filter (·.1 == f)).tail else xs.filter (·.1 == f) := by
  induction xs with
  | nil => simp
  | cons x rest ih =>
    by_cases here : x.1 = g
    · rw [List.eraseP_cons_of_pos (by simpa using here)]
      by_cases same : f = g
      · simp [same, here]
      · simp [same, here, Ne.symm same]
    · rw [List.eraseP_cons_of_neg (by simpa using here), List.filter_cons, List.filter_cons, ih]
      by_cases same : f = g
      · simp [same, here]
      · simp [same]

theorem mem_putBack {d : Field × Node} (member : d ∈ putBack cs new) : d ∈ cs ∨ d ∈ new := by
  induction cs generalizing new with
  | nil => cases member
  | cons c rest ih =>
    rw [putBack] at member
    split at member
    · rename_i e found
      rcases List.mem_cons.mp member with rfl | member
      · exact .inr (List.mem_of_find?_eq_some found)
      · exact (ih member).imp (List.mem_cons_of_mem _) List.mem_of_mem_eraseP
    · rcases List.mem_cons.mp member with rfl | member
      · exact .inl (List.mem_cons_self ..)
      · exact (ih member).imp_left (List.mem_cons_of_mem _)

/-- Field by field, the new children come in the order of those in whose places they are put. -/
theorem forall₂_putBack_of_fields (each : ∀ f, List.Forall₂ R (cs.filter (·.1 == f)) (new.filter (·.1 == f)) ∨
      new.filter (·.1 == f) = [] ∧ ∀ c ∈ cs, c.1 = f → R c c) : List.Forall₂ R cs (putBack cs new) := by
  induction cs generalizing new with
  | nil => exact .nil
  | cons c rest ih =>
    have others (f : Field) (apart : f ≠ c.1) : List.Forall₂ R (rest.filter (·.1 == f)) (new.filter (·.1 == f)) ∨
        new.filter (·.1 == f) = [] ∧ ∀ c ∈ rest, c.1 = f → R c c := by
      have here := each f
      rw [List.filter_cons_of_neg (by simpa using Ne.symm apart)] at here
      exact here.imp_right fun ⟨nothing, stay⟩ => ⟨nothing, fun c member => stay c (List.mem_cons_of_mem _ member)⟩
    rcases each c.1 with matched | ⟨nothing, kept⟩
    · rw [List.filter_cons_of_pos (by simp)] at matched
      obtain ⟨d, later, first, following, news⟩ := List.forall₂_cons_left_iff.mp matched
      have found : new.find? (·.1 == c.1) = some d := by rw [← List.head?_filter, news, List.head?_cons]
      rw [putBack, found]
      refine .cons first (ih fun f => ?_)
      by_cases same : f = c.1
      · subst same
        rw [filter_eraseP, if_pos rfl, news]
        exact .inl following
      · rw [filter_eraseP, if_neg same]
        exact others f same
    · have missing : new.find? (·.1 == c.1) = none := by rw [← List.head?_filter, nothing, List.head?_nil]
      rw [putBack, missing]
      refine .cons (kept c (List.mem_cons_self ..) rfl) (ih fun f => ?_)
      by_cases same : f = c.1
      · subst same
        exact .inr ⟨nothing, fun c member => kept c (List.mem_cons_of_mem _ member)⟩
      · exact others f same

/-- What holds between the children that are rebuilt and what comes of them holds in place, provided that it holds
between a child that is not rebuilt and itself. -/
theorem forall₂_putBack (distinct : (parts.map (·.field)).Nodup) (field : ∀ c d, R c d → d.1 = c.1)
    (rebuilt : List.Forall₂ R (gather parts cs) new) (kept : ∀ c ∈ cs, c ∉ gather parts cs → R c c) :
    List.Forall₂ R cs (putBack cs new) := by
  refine forall₂_putBack_of_fields fun f => ?_
  have filtered : List.Forall₂ R ((gather parts cs).filter (·.1 == f)) (new.filter (·.1 == f)) := by
    refine List.rel_filter ?_ rebuilt
    intro c d related
    change (c.1 == f) = true ↔ (d.1 == f) = true
    rw [field c d related]
  by_cases listed : ∃ s ∈ parts, s.field = f
  · obtain ⟨s, member, rfl⟩ := listed
    rw [filter_gather distinct member] at filtered
    exact .inl filtered
  · have absent : f ∉ parts.map (·.field) := fun member => listed (List.mem_map.mp member)
    rw [filter_gather_of_not_mem absent, List.forall₂_nil_left_iff] at filtered
    refine .inr ⟨filtered, fun c member is => kept c member fun taken => listed ?_⟩
    exact is ▸ (mem_gather.mp taken).2

theorem putBack_gather (distinct : (parts.map (·.field)).Nodup) (cs : List (Field × Node)) :
    putBack cs (gather parts cs) = cs := by
  have same : List.Forall₂ Eq cs (putBack cs (gather parts cs)) :=
    forall₂_putBack distinct (fun _ _ is => congrArg Prod.fst is.symm) (List.forall₂_same.mpr fun _ _ => rfl)
      fun _ _ _ => rfl
  rw [List.forall₂_eq_eq_eq] at same
  exact same.symm

end PutBack

end Mutation

end KotlinSyntax
