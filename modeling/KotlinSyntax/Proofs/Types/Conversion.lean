import KotlinSyntax.Proofs.Types.Reading

/-! Nodes that are read back. A raw node becomes the node that it was made for if the rule of its kind obtains that
from its parts; lists are the rule that many kinds share. -/
namespace KotlinSyntax

open Conversion RawElement

variable {n : Node} {kind : RawKind} {role : Option String} {es : List RawElement}

/-! The parts of a raw node. -/

theorem Node.raw_plain (n : Node) : n.raw.isTrivia = false := by
  cases n with
  | mk id tag scalars children =>
    unfold Node.raw
    split <;> rfl

theorem mem_intersperse {α : Type} {x separator : α} {xs : List α} (member : x ∈ xs.intersperse separator) :
    x ∈ xs ∨ x = separator := by
  induction xs with
  | nil => cases member
  | cons y xs ih =>
    cases xs with
    | nil => exact .inl member
    | cons z zs =>
      rw [List.intersperse_cons_cons] at member
      rcases List.mem_cons.mp member with rfl | member
      · exact .inl (List.mem_cons_self ..)
      · rcases List.mem_cons.mp member with rfl | member
        · exact .inr rfl
        · exact (ih member).imp_left (List.mem_cons_of_mem y)

/-- Trivia has no place in the raw tree of a node. -/
theorem Node.plain_of_raw (is : n.raw = .node kind role es) : ∀ e ∈ es, e.isTrivia = false := by
  have held (children : List (Field × Node)) (f : Field) : ∀ e ∈ under f (Node.rawAll children), e.isTrivia = false := by
    intro e member
    simp only [under, Node.rawAll_eq, List.mem_map, List.mem_filter] at member
    obtain ⟨_, ⟨⟨c, _, rfl⟩, _⟩, rfl⟩ := member
    exact c.2.raw_plain
  cases n with
  | mk id tag scalars children =>
    unfold Node.raw at is
    split at is
    · cases is
    · cases is
    · cases is
      intro e member
      obtain ⟨piece, _, inside⟩ := List.mem_flatMap.mp member
      cases piece with
      | token text | glued text | close text => rw [List.mem_singleton.mp inside]; rfl
      | child f => exact held children f e inside
      | list f separator =>
        rcases mem_intersperse inside with inside | rfl
        · exact held children f e inside
        · rfl
      | each f terminator =>
        obtain ⟨x, among, inside⟩ := List.mem_flatMap.mp inside
        rcases List.mem_pair.mp inside with rfl | rfl
        · exact held children f e among
        · rfl
      | entriesEnd | gap => cases inside
    · cases is
      simp

namespace Conversion

variable {g : Goal} {rule : Reading Node} {items : List Item} {o : Owner}

theorem parts_along {children : List RawElement} (bare : bareAll children = es) (plain : ∀ e ∈ es, e.isTrivia = false)
    (known : ∀ l ∈ leavesAll children, l.token.kind.isTrivia = true → l.trivia = true) (number : Nat) :
    Along (parts number children) es := by
  induction children generalizing number es with
  | nil => subst bare; exact .nil
  | cons e children ih =>
    have own : ∀ l ∈ e.leaves, l.token.kind.isTrivia = true → l.trivia = true := fun l member =>
      known l (by rw [leavesAll]; exact List.mem_append_left _ member)
    have later : ∀ l ∈ leavesAll children, l.token.kind.isTrivia = true → l.trivia = true := fun l member =>
      known l (by rw [leavesAll]; exact List.mem_append_right _ member)
    rw [bareAll] at bare
    split at bare
    · rename_i blank
      cases e with
      | node => cases blank
      | leaf l =>
        have trivia : l.trivia = true := own l (List.mem_singleton.mpr rfl) blank
        rw [parts, Conversion.items, List.filter_cons_of_neg (by simp [isTrivia, trivia])]
        exact ih bare plain later _
    · subst bare
      obtain ⟨first, behind⟩ := List.forall_mem_cons.mp plain
      have part : e.isTrivia = false := by
        cases e with
        | leaf l => exact first
        | node => rfl
      rw [parts, Conversion.items, List.filter_cons_of_pos (by simp [part])]
      exact .cons ⟨rfl, own, rfl⟩ (ih rfl behind later _)

theorem apply_succeeds {number : Nat} {children : List RawElement} {Q : Node → Prop}
    (h : Obtains rule o (parts number children) fun n _ => Q n) :
    Succeeds (apply o (Conversion.items number children) rule) Q :=
  Succeeds.bind h fun _ holds => .pure holds

/-- A raw node is read as the rule of its kind obtains it from the parts. -/
theorem isReadAs_of_rule {Q : Node → Prop} (plain : ∀ e ∈ es, e.isTrivia = false)
    (table : ∀ number children items, convertNode ⟨number, kind, none, children⟩ items g =
      apply ⟨number, kind, none, children⟩ items rule)
    (obtains : ∀ o items, Along items es → Obtains rule o items fun m _ => Q m) : IsReadAs g (.node kind none es) Q := by
  intro i h
  have bare := h.bare
  have known := h.known
  rw [h.converts]
  cases element : i.origin.element with
  | leaf l => rw [element] at bare; cases bare
  | node kind' role children =>
    rw [element] at bare known
    obtain ⟨rfl, rfl, inside⟩ := RawElement.node.inj bare
    rw [convert, table]
    exact apply_succeeds (obtains _ _ (parts_along inside plain known _))

/-- A node is read back if the rule of its kind obtains it from the parts that it stands for. -/
theorem becomes_of_rule (is : n.raw = .node kind none es)
    (table : ∀ number children items, convertNode ⟨number, kind, none, children⟩ items g =
      apply ⟨number, kind, none, children⟩ items rule)
    (obtains : ∀ o items, Along items es → Obtains rule o items fun m _ => m.unnumbered = n.unnumbered) : Becomes g n := by
  have read := isReadAs_of_rule (Node.plain_of_raw is) table obtains
  rwa [← is] at read

/-- A name is read as an expression on its own. -/
theorem isReadAs_name {text : String} (is : Lexer.isIdentifier text = true) :
    IsReadAs .expression (.leaf ⟨⟨.identifier, 0, 0, text⟩, false⟩) fun m =>
      ∃ id, m = .mk id (.kind .nameExpression) [(.text, .text text)] [] := by
  intro i h
  obtain ⟨l, leaf, rfl, identifier⟩ := h.token
  have made : makeToken ⟨i.origin.number, .leaf l⟩ l.token = make .nameExpression [(.text, .text l.token.text)] [] := by
    simp [makeToken, constantForm?, identifier]
  rw [h.converts, leaf, convert, convertLeaf, convertToken, made]
  refine .bind (make_succeeds (name_sound is)) ?_
  rintro n ⟨id, rfl⟩
  refine emit_succeeds.mono ?_
  rintro n rfl
  exact ⟨id, rfl⟩

/-! Lists. -/

variable {element : RawKind} {opening closing : String} {ns : List Node} {k : Kind}

theorem listEnds_of_word (h : Along items (wordLeaf closing :: es)) : listEnds (some closing) items = true := by
  have seen : seesToken closing 0 items = true := h.sees.trans (beq_self_eq_true closing)
  simp [listEnds, seen]

theorem listEnds_of_part {e : RawElement} (h : Along items (e :: es)) (is : nodeKind? e = some kind) :
    listEnds (some closing) items = false := by
  have unseen : seesToken closing 0 items = false := h.seesNone is
  obtain ⟨i, items', rfl, _⟩ := h.head
  simp [listEnds, unseen]

theorem listEnds_of_comma (h : Along items (wordLeaf "," :: es)) (other : closing ≠ ",") :
    listEnds (some closing) items = false := by
  have unseen : seesToken closing 0 items = false := h.sees.trans (beq_eq_false_iff_ne.mpr other.symm)
  obtain ⟨i, items', rfl, _⟩ := h.head
  simp [listEnds, unseen]

def Listed (ns : List Node) (es : List RawElement) (got : List Node × Option Node) (items : List Item) : Prop :=
  got.1.map Node.unnumbered = ns.map Node.unnumbered ∧ got.2 = none ∧ Along items es

/-- A round takes a node. -/
theorem Along.nodeRound {fs : List RawElement} {rounds : Nat} (h : Along items (n.raw :: fs))
    (is : nodeKind? n.raw = some element) (reads : Becomes .part n)
    (next : ∀ items', Along items' fs →
      Obtains (separated.rounds (some closing) (Conversion.part element) rounds) o items' (Listed ns es)) :
    Obtains (separated.rounds (some closing) (Conversion.part element) (rounds + 1)) o items (Listed (n :: ns) es) := by
  refine .rest (.no (by simp [listEnds_of_part h is]) (.no (by simp [h.seesNone is]) ?_))
  refine .bind (h.part is reads) ?_
  rintro m items' ⟨same, behind⟩
  refine .bind (next items' behind) ?_
  rintro ⟨ms, comma⟩ items'' ⟨sames, none, behind⟩
  exact .pure ⟨congrArg₂ List.cons same sames, none, behind⟩

/-- A round takes the comma in front of a node. -/
theorem Along.commaRound {Q : List Node × Option Node → List Item → Prop} {e : RawElement} {fs : List RawElement}
    {rounds : Nat} (h : Along items (wordLeaf "," :: e :: fs)) (other : closing ≠ ",") (is : nodeKind? e = some kind)
    (next : ∀ items', Along items' (e :: fs) →
      Obtains (separated.rounds (some closing) (Conversion.part element) rounds) o items' Q) :
    Obtains (separated.rounds (some closing) (Conversion.part element) (rounds + 1)) o items Q := by
  refine .rest (.no (by simp [listEnds_of_comma h other]) (.yes (h.sees.trans rfl) ?_))
  refine .bind h.token ?_
  rintro _ items' ⟨_, behind⟩
  exact .rest (.no (by simp [listEnds_of_part behind is]) (next items' behind))

theorem Along.separatedRounds (other : closing ≠ ",")
    (each : ∀ n ∈ ns, nodeKind? n.raw = some element ∧ Becomes .part n) {rounds : Nat}
    (enough : ((ns.map Node.raw).intersperse (wordLeaf ",")).length < rounds)
    (h : Along items ((ns.map Node.raw).intersperse (wordLeaf ",") ++ wordLeaf closing :: es)) :
    Obtains (separated.rounds (some closing) (Conversion.part element) rounds) o items
      (Listed ns (wordLeaf closing :: es)) := by
  induction ns generalizing items rounds with
  | nil =>
    obtain ⟨rounds, rfl⟩ : ∃ r, rounds = r + 1 := ⟨rounds - 1, by omega⟩
    exact .rest (.yes (listEnds_of_word h) (.pure ⟨rfl, rfl, h⟩))
  | cons n ns ih =>
    obtain ⟨⟨is, reads⟩, later⟩ := List.forall_mem_cons.mp each
    obtain ⟨rounds, rfl⟩ : ∃ r, rounds = r + 1 := ⟨rounds - 1, by omega⟩
    cases ns with
    | nil =>
      have some : 0 < rounds := by simpa using enough
      exact Along.nodeRound h is reads fun items' behind => ih later some behind
    | cons n' ns =>
      have split : ((n :: n' :: ns).map Node.raw).intersperse (wordLeaf ",") =
          n.raw :: wordLeaf "," :: ((n' :: ns).map Node.raw).intersperse (wordLeaf ",") := List.intersperse_cons_cons ..
      rw [split, List.length_cons, List.length_cons] at enough
      rw [split] at h
      obtain ⟨rounds, rfl⟩ : ∃ r, rounds = r + 1 := ⟨rounds - 1, by omega⟩
      apply Along.nodeRound h is reads
      intro items' behind
      have next := (later n' (List.mem_cons_self ..)).1
      cases ns with
      | nil => exact Along.commaRound behind other next fun _ behind => ih later (by omega) behind
      | cons => exact Along.commaRound behind other next fun _ behind => ih later (by omega) behind

theorem list_obtains (sound : ∀ id children, (Node.mk id (.kind k) [] children).broken? = none) (other : closing ≠ ",")
    (each : ∀ n ∈ ns, nodeKind? n.raw = some element ∧ Becomes .part n)
    (h : Along items (wordLeaf opening :: (ns.map Node.raw).intersperse (wordLeaf ",") ++ [wordLeaf closing])) :
    Obtains (list k opening closing element) o items fun m _ =>
      m.unnumbered = (Node.mk 0 (.kind k) [] (many .elements ns)).unnumbered := by
  have bracketed : Obtains (bracketed opening closing (Conversion.part element)) o items (Listed ns []) := by
    refine .bind h.token ?_
    rintro _ items ⟨_, h⟩
    have enough : ((ns.map Node.raw).intersperse (wordLeaf ",")).length < items.length + 1 := by
      rw [h.length_eq, List.append_eq, List.length_append]
      omega
    refine .bind (.rest (Along.separatedRounds other each enough h)) ?_
    rintro got items ⟨same, none, h⟩
    refine .bind h.token ?_
    rintro _ items ⟨_, h⟩
    exact .pure ⟨same, none, h⟩
  refine .bind bracketed ?_
  rintro ⟨ms, comma⟩ items ⟨same, none, h⟩
  simp only at same none
  rw [h.eq_nil, none]
  refine finish_obtains (fun id => sound id _) fun id => ?_
  simp [Node.unnumbered, same, opt]

end Conversion

end KotlinSyntax
