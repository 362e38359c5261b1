import KotlinSyntax.Proofs.Plan.Reading.Type

/-! The rules of files and declarations read along the plans of their kinds. -/
namespace KotlinSyntax.Conversion

attribute [local simp] Kind.demands Kind.overlooked Demand.filled Demand.pairedParentheses Demand.paired Demand.needs
  Demand.excludes Demand.bodyForEquals

variable {o : Owner} {items : List Item} {p : Plan}

theorem header_accepts (h : On (.many [Plan.node .annotationSet] :: Plan.opt [Plan.node .packageDirective] ::
      Plan.opt [Plan.node .importList] :: p) items) (noSet : Plan.mayBegin (.node .annotationSet) p = false)
    (noPackage : Plan.mayBegin (.node .packageDirective) p = false)
    (noImports : Plan.mayBegin (.node .importList) p = false) : Accepts header o items fun _ items' => On p items' := by
  refine .bind (h.annotationSets ?_) fun _ _ on => .bind (on.optionalPart ?_ rfl) fun _ _ on => ?_
  · simp [Plan.mayBegin, Plan.Term.mayBegin, Cell.mayMeet, Plan.nodesCell, noSet]
  · simp [Plan.mayBegin, Plan.Term.mayBegin, Cell.mayMeet, Plan.nodesCell, noPackage]
  · exact .bind (on.optionalPart noImports rfl) fun _ _ on => .pure on

theorem file_accepts (h : On (Plan.ofKind .file) items) : Accepts file o items fun _ _ => True :=
  .bind (header_accepts h rfl rfl rfl) fun _ _ on =>
  .bind (on.untilEnd (.nextAs rfl)) fun _ _ _ => build_accepts (.free rfl) fun _ => trivial

theorem script_accepts (h : On (Plan.ofKind .script) items) : Accepts script o items fun _ _ => True :=
  .bind (header_accepts h rfl rfl rfl) fun _ _ on =>
  .bind (on.untilEnd (.nextAs rfl)) fun _ _ _ => build_accepts (.free rfl) fun _ => trivial

theorem packageDirective_accepts (h : On (Plan.ofKind .packageDirective) items) :
    Accepts packageDirective o items fun _ _ => True :=
  .past (On.keyword h) fun _ _ on =>
  .past on.name fun _ _ on =>
  .bind (on.leds rfl .name) fun _ _ on => on.finish (.free rfl)

theorem importList_accepts (h : On (Plan.ofKind .importList) items) :
    Accepts importList o items fun _ _ => True :=
  .bind (On.untilEnd h (.part rfl)) fun _ _ _ => build_accepts (.free rfl) fun _ => trivial

/-- A dot goes on with a name or ends with a star. -/
theorem importDirective_accepts (h : On (Plan.ofKind .importDirective) items) :
    Accepts importDirective o items fun _ _ => True := by
  refine .past (On.keyword h) fun _ _ on => .past on.name fun _ _ on => ?_
  refine .bind (on.repeated (fun items on => ?_) fun items on => ⟨?_, ?_⟩) fun _ _ on => ?_
  · rcases on.choose with star | absent
    · simp [star.seenSecond]
    · have noDot : seesToken "." 0 items = false := absent.unseenToken rfl
      simp [noDot]
  · have noStar : seesToken "*" 1 items = false := on.unseenSecond rfl
    simp [on.seenToken, noStar]
  · exact on.tokenThen .name
  · exact .bind (on.skipToken rfl) fun _ _ on =>
      .bind (On.tokenIf on) fun _ _ on =>
      .bind (on.optionalPart rfl rfl) fun _ _ on => on.finish fun _ => by simp

theorem importAlias_accepts (h : On (Plan.ofKind .importAlias) items) : Accepts importAlias o items fun _ _ => True :=
  .past (On.token h) fun _ _ on =>
  .past on.name fun _ _ on => on.finish (.free rfl)

theorem classDeclaration_accepts (h : On (Plan.ofKind .classDeclaration) items) :
    Accepts classDeclaration o items fun _ _ => True :=
  .bind (On.modifiers h rfl) fun _ _ on =>
  .past (Takes.keywordOf (by decide) _ _ on) fun _ _ on =>
  .bind (on.optionalName rfl) fun _ _ on =>
  .bind (on.optionalPart rfl rfl) fun _ _ on =>
  .bind (on.optionalPart rfl rfl) fun _ _ on =>
  .bind (on.optionalPart rfl rfl) fun _ _ on =>
  .bind (on.optionalPart rfl rfl) fun _ _ on =>
  .bind (on.optionalPart rfl rfl) fun _ _ on => on.finish (.free rfl)

theorem primaryConstructor_accepts (h : On (Plan.ofKind .primaryConstructor) items) :
    Accepts primaryConstructor o items fun _ _ => True :=
  .bind (On.modifiers h rfl) fun _ _ on =>
  .bind (on.optionalWord rfl) fun _ _ on =>
  .past (on.part rfl) fun _ _ on =>
  .bind (build_accepts (Q := fun _ items' => On [] items') (.free rfl) fun _ => on) fun _ _ on =>
  .bind on.close fun _ _ _ => .pure trivial

theorem superTypeList_accepts (h : On (Plan.ofKind .superTypeList) items) :
    Accepts superTypeList o items fun _ _ => True :=
  .past (On.token h) fun _ _ on =>
  .past (on.nextAs rfl) fun _ _ on =>
  .bind (on.leds rfl (.nextAs rfl)) fun _ _ on => on.finish (.free rfl)

/-- What is behind the type of a parent depends on the kind of the owner. -/
theorem classParent_accepts (h : On (Plan.ofKind o.kind) items) (parent : Goal.classParent.reads o.kind = true) :
    Accepts classParent o items fun _ _ => True := by
  cases kind : o.kind <;> rw [kind] at h parent <;> try cases parent
  all_goals
    refine .past (On.part h rfl) fun _ _ on => .read ?_
    rw [kind]
  case superTypeCall => exact .past (on.part rfl) fun _ _ on => on.finish (.free rfl)
  case delegatedSuperType =>
    exact .past on.keyword fun _ _ on =>
      .past (on.nextAs rfl) fun _ _ on => on.finish (.free rfl)
  case superType => exact on.finish (.free rfl)

/-- The entries of a class and the commas behind them. The last one needs no comma. -/
theorem entries_accepts (h : On (.many [Plan.node .enumEntry, Plan.word ","] ::
      Plan.opt [Plan.node .enumEntry] :: p) items) (noEntry : Plan.mayBegin (.node .enumEntry) p = false)
    (noComma : Plan.mayBegin (.text ",") p = false) :
    Accepts (whileSees (seesNode .enumEntry) do
      let entry ← part .enumEntry
      let _ ← skipToken ","
      return entry) o items fun _ items' => On p items' := by
  refine (On.whileSees (I := fun items => On (.many [Plan.node .enumEntry, Plan.word ","] ::
    Plan.opt [Plan.node .enumEntry] :: p) items ∨ On p items) (.inl h) ?_).mono ?_
  · rintro items (on | on) sees
    · rcases on.again with again | stop
      · refine .bind (again.part rfl) ?_
        rintro _ items' ⟨on, shorter⟩
        refine .bind (On.skipsToken on) ?_
        rintro _ _ ⟨on, shorter'⟩
        exact .pure ⟨.inl on, by omega⟩
      · rcases stop.choose with last | absent
        · refine .bind (last.part rfl) ?_
          rintro _ items' ⟨on, shorter⟩
          refine .bind (On.skipsNothing on noComma) ?_
          rintro _ _ rfl
          exact .pure ⟨.inr on, shorter⟩
        · rw [On.unseenNode absent noEntry] at sees
          cases sees
    · rw [on.unseenNode noEntry] at sees
      cases sees
  · rintro _ items' ⟨on | on, ends⟩
    · rcases on.again with again | stop
      · rw [again.seenNode] at ends
        cases ends
      · rcases stop.choose with there | absent
        · rw [there.seenNode] at ends
          cases ends
        · exact absent
    · exact on

theorem classBody_accepts (h : On (Plan.ofKind .classBody) items) : Accepts classBody o items fun _ _ => True :=
  .past (On.token h) fun _ _ on =>
  .bind (entries_accepts on rfl rfl) fun _ _ on =>
  .bind (on.untilToken rfl (.nextAs rfl)) fun _ _ on =>
  .past on.token fun _ _ on => on.finish (.free rfl)

theorem enumEntry_accepts (h : On (Plan.ofKind .enumEntry) items) : Accepts enumEntry o items fun _ _ => True :=
  .bind (On.modifiers h rfl) fun _ _ on =>
  .past on.name fun _ _ on =>
  .bind (on.optionalPart rfl rfl) fun _ _ on =>
  .bind (on.optionalPart rfl rfl) fun _ _ on => on.finish (.free rfl)

theorem classInitializer_accepts (h : On (Plan.ofKind .classInitializer) items) :
    Accepts classInitializer o items fun _ _ => True :=
  .bind (On.modifiers h rfl) fun _ _ on =>
  .past on.token fun _ _ on =>
  .past (on.part rfl) fun _ _ on => on.finish (.free rfl)

theorem secondaryConstructor_accepts (h : On (Plan.ofKind .secondaryConstructor) items) :
    Accepts secondaryConstructor o items fun _ _ => True :=
  .bind (On.modifiers h rfl) fun _ _ on =>
  .past on.keyword fun _ _ on =>
  .past (on.part rfl) fun _ _ on =>
  .bind (on.skipToken rfl) fun _ _ on =>
  .bind (On.due on (.part rfl)) fun _ _ after =>
  .bind (after.2.optionalPart rfl rfl) fun _ _ on => on.finish (.free rfl)

theorem delegationCall_accepts (h : On (Plan.ofKind .delegationCall) items) :
    Accepts delegationCall o items fun _ _ => True :=
  .past (Takes.keywordOf (by decide) _ _ h) fun _ _ on =>
  .past (on.part rfl) fun _ _ on => on.finish (.free rfl)

theorem receiverType_accepts (h : On (Plan.extended :: p) items)
    (other : Plan.mayBegin (.node .typeReference) p = false) :
    Accepts receiverType o items fun _ items' => On p items' := by
  refine .bind (h.optionally (fun on => ⟨on.seenNode, (on.part rfl).mono fun _ _ past => past.1⟩)
    (·.unseenNode other)) ?_
  rintro (_ | type) items' (⟨is, on⟩ | ⟨is, on⟩)
  · cases is
  · exact .pure on
  · exact .past (On.token on) fun _ _ on => .pure on
  · cases is

/-- The parts of a body, behind an equals sign or on its own, or no parts where none is due. -/
inductive Bodied : Bool → List (Field × Node) → Prop
  | assigned (equals value : Node) : Bodied true (one .equals equals ++ one .body value)
  | block (body : Option Node) : Bodied body.isSome (opt .body body)

namespace Bodied

variable {due : Bool} {parts : List (Field × Node)}

theorem filled (h : Bodied due parts) : parts.any (·.1 == .body) = due := by
  cases h <;> simp

theorem nothing (h : Bodied false parts) : parts = [] := by
  generalize undue : false = due at h
  cases h with
  | assigned equals value => cases undue
  | block body =>
    cases body with
    | none => rfl
    | some body => cases undue

end Bodied

theorem body_accepts {due : Bool} (h : due = true ∧ On [Plan.bodied] items ∨ due = false ∧ On [] items) :
    Accepts body o items fun parts items' => Bodied due parts ∧ On [] items' := by
  rcases h with ⟨rfl, on⟩ | ⟨rfl, on⟩
  · refine .bind (on.optionalKeyword rfl) ?_
    rintro (_ | equals) items' (⟨is, on⟩ | ⟨is, on⟩)
    · cases is
    · refine .bind (on.presentPart rfl) ?_
      rintro body items' ⟨is, on⟩
      exact .pure ⟨is ▸ .block body, on⟩
    · exact .past (on.nextAs rfl) fun _ _ on => .pure ⟨.assigned .., on⟩
    · cases is
  · refine .bind (on.absentKeyword rfl) ?_
    rintro (_ | equals) items' ⟨is, on⟩
    · refine .bind (on.absentPart rfl) ?_
      rintro body items' ⟨is, on⟩
      exact .pure ⟨is ▸ .block body, on⟩
    · cases is

/-- Nodes of two kinds. -/
theorem nodesOf_accepts {first second : RawKind} (h : On (.many [.cell (Plan.nodesCell [first, second])] :: p) items)
    (noFirst : Plan.mayBegin (.node first) p = false) (noSecond : Plan.mayBegin (.node second) p = false)
    (suits : Goal.part.suitsCell (Plan.nodesCell [first, second]) = true) :
    Accepts (whileSees (fun items => seesNode first items || seesNode second items) (nextAs .part)) o items
      fun _ items' => On p items' := by
  refine h.repeated (fun items on => ?_) fun items on => ⟨?_, on.nextAs suits⟩
  · rw [on.unseenNode noFirst, on.unseenNode noSecond]
    rfl
  · obtain ⟨kind, member, seen⟩ := on.seenNodes
    rcases List.mem_cons.mp member with rfl | member
    · simp [seen]
    · obtain rfl := List.mem_singleton.mp member
      simp [seen]

theorem function_accepts (h : On (Plan.ofKind .function) items) : Accepts function o items fun _ _ => True := by
  refine .bind (On.modifiers h rfl) fun _ _ on => .past on.keyword fun _ _ on =>
    .bind (on.optionalPart rfl rfl) fun _ _ on => .bind (receiverType_accepts on rfl) fun _ _ on =>
    .bind (on.optionalName rfl) fun _ _ on => .bind ((On.left on).optionalPart rfl rfl) fun _ _ on =>
    .bind (on.optionalType rfl) fun _ _ on => .bind (nodesOf_accepts on rfl rfl rfl) fun _ items' on => ?_
  obtain ⟨due, on⟩ : ∃ due, due = true ∧ On [Plan.bodied] items' ∨ due = false ∧ On [] items' := by
    rcases on.choose with assigned | other
    · exact ⟨true, .inl ⟨rfl, On.left assigned⟩⟩
    · rcases On.choose other with block | absent
      · exact ⟨true, .inl ⟨rfl, On.right block⟩⟩
      · exact ⟨false, .inr ⟨rfl, absent⟩⟩
  refine .bind (body_accepts on) ?_
  rintro parts items' ⟨bodied, on⟩
  refine on.finish fun _ => ?_
  cases due with
  | true => simp [bodied.filled]
  | false =>
    obtain rfl := bodied.nothing
    simp

theorem contract_accepts (h : On (Plan.ofKind .contract) items) : Accepts contract o items fun _ _ => True :=
  .past (On.keyword h) fun _ _ on =>
  .bind on.node fun _ _ after =>
  .bind after.1.1.close fun _ _ _ =>
  .bind (.lift (after.2 .part rfl)) fun _ _ _ => build_accepts (.free rfl) fun _ => trivial

theorem contractEffect_accepts (h : On (Plan.ofKind .contractEffect) items) :
    Accepts contractEffect o items fun _ _ => True :=
  .past (On.nextAs h rfl) fun _ _ on => on.finish (.free rfl)

theorem valueParameter_accepts (h : On (Plan.ofKind .valueParameter) items) :
    Accepts valueParameter o items fun _ _ => True := by
  refine .bind (On.modifiers h rfl) fun _ items on => .rest ?_
  have word : Accepts (onlyIf (seesToken "val" 0 items || seesToken "var" 0 items) (keywordOf Keyword.valOrVar)) o
      items fun _ items' => On [Plan.name, Plan.type, Plan.opt Plan.assigned] items' := by
    rcases on.choose with there | absent
    · refine .due ?_ ((Takes.keywordOf (by decide) _ _ there).mono fun _ _ past => past.1)
      obtain ⟨text, member, seen⟩ := there.seenWords
      rcases List.mem_cons.mp member with rfl | member
      · simp [seen]
      · obtain rfl := List.mem_singleton.mp member
        simp [seen]
    · refine .notDue ?_ absent
      rw [absent.unseenToken rfl, absent.unseenToken rfl]
      rfl
  exact .bind word fun _ _ on =>
    .past on.name fun _ _ on =>
    .bind (on.optionalType rfl) fun _ _ on =>
    .bind (on.optionalKeyword rfl) fun _ _ on =>
    .bind (On.due on (.nextAs rfl)) fun _ _ after =>
    after.2.finish fun _ => by simp [after.1]

/-! The variables of a property. Those in parentheses are as many as there are entries among its parts. -/

def entryCount (items : List Item) : Nat :=
  items.countP fun i => nodeKind? i.origin.element == some .destructuringEntry

theorem entryCount_token {i : Item} (leaf : (tokenText? i.origin.element).isSome = true) :
    entryCount (i :: items) = entryCount items := by
  refine List.countP_cons_of_neg ?_
  cases element : i.origin.element with
  | leaf l => simp [nodeKind?]
  | node kind role children => simp [tokenText?, element] at leaf

def Spares {α : Type} (r : Reading α) (o : Owner) : Prop :=
  ∀ items, Reads r o items fun _ items' => entryCount items' = entryCount items

namespace Spares

variable {α β : Type} {r : Reading α}

theorem pure {a : α} : Spares (Pure.pure a) o := fun _ => .pure rfl

theorem bind {f : α → Reading β} (h : Spares r o) (next : ∀ a, Spares (f a) o) : Spares (r >>= f) o :=
  fun items => (h items).bind fun a items' same => (next a items').mono fun _ _ same' => same'.trans same

theorem onlyIf {due : Bool} (h : Spares r o) : Spares (onlyIf due r) o :=
  fun items => .ite (fun _ => .map (h items)) fun _ => .pure rfl

theorem lift {c : Convert α} : Spares (liftM c) o := by
  intro items
  refine (Reads.lift (P := fun _ => True) fun s => ?_).mono ?_
  · cases c s <;> trivial
  · rintro _ _ ⟨_, rfl⟩
    rfl

theorem token {text : String} : Spares (token text) o := by
  refine fun items => .rest ?_
  cases items with
  | nil => exact .mismatch
  | cons i is =>
    refine .ite (fun seen => .set (.pure ?_)) fun _ => .mismatch
    obtain ⟨j, first, spelled⟩ := token_of_sees seen
    cases first
    rw [entryCount_token (by rw [spelled]; rfl)]

theorem anyToken : Spares anyToken o := by
  refine fun items => .rest ?_
  cases items with
  | nil => exact .mismatch
  | cons i is => exact .ite (fun leaf => .set (.pure (entryCount_token leaf).symm)) fun _ => .mismatch

theorem keywordFor {text : String} {i : Item} : Spares (keywordFor text i) o := .bind .lift fun _ => .lift

theorem keywordOf {spellings : List String} : Spares (keywordOf spellings) o :=
  .bind .anyToken fun _ items => .ite (fun _ => keywordFor items) fun _ => .mismatch

theorem keyword {text : String} : Spares (keyword text) o := .bind .token fun _ => .keywordFor

end Spares

/-- An entry is one, and a part of another kind is none. -/
theorem part_counts {kind : RawKind} : Reads (part kind) o items fun _ items' =>
    entryCount items = entryCount items' + if kind = .destructuringEntry then 1 else 0 := by
  refine .bind (R := fun _ items' =>
    entryCount items = entryCount items' + if kind = .destructuringEntry then 1 else 0) (.rest ?_) ?_
  · cases items with
    | nil => exact .mismatch
    | cons i is =>
      refine .ite (fun seen => .set (.pure ?_)) fun _ => .mismatch
      have is : nodeKind? i.origin.element = some kind := by simpa [seesNode] using seen
      simp [entryCount, List.countP_cons, is]
  · intro i items' counted
    exact (Spares.lift items').mono fun _ _ same => by rw [counted, same]

namespace Spares

theorem optionalPart {kind : RawKind} (other : kind ≠ .destructuringEntry) : Spares (optionalPart kind) o :=
  fun items => .rest <| onlyIf (fun _ => part_counts.mono fun _ _ counted => by
    rw [counted, if_neg other, Nat.add_zero]) items

theorem receiverType : Spares receiverType o := by
  refine .bind (.optionalPart (by decide)) ?_
  rintro (_ | type)
  · exact .pure
  · exact .bind .token fun _ => .pure

end Spares

/-- The nodes of a list are as many as the entries that were taken for them. -/
theorem separated_counts {closing : Option String} :
    Reads (separated closing (part .destructuringEntry)) o items fun list items' =>
      entryCount items = list.1.length + entryCount items' := by
  have rounds (n : Nat) : ∀ items, Reads (separated.rounds closing (part .destructuringEntry) n) o items
      fun list items' => entryCount items = list.1.length + entryCount items' := by
    induction n with
    | zero => exact fun items => .pure (Nat.zero_add _).symm
    | succ n ih =>
      refine fun items => .rest (.ite (fun _ => .pure (Nat.zero_add _).symm) fun _ => .ite (fun _ => ?_) fun _ => ?_)
      · refine .bind (Spares.token items) fun comma items₁ same => .rest (.ite (fun _ => ?_) fun _ => ?_)
        · exact .bind (Spares.keywordFor items₁) fun _ _ same' => .pure (by simp [same', same])
        · exact (ih items₁).mono fun _ _ counted => by rw [← same, counted]
      · refine .bind part_counts fun n items₁ counted => .bind (ih items₁) fun list items₂ counted' => .pure ?_
        rw [counted, counted', if_pos rfl, List.length_cons]
        omega
  exact .rest (rounds _ items)

/-- The entries among the parts of the owner that count. -/
theorem entryCount_eq (whole : elements items = RawElement.significant o.children) :
    entryCount items = o.children.countP (nodeKind? · == some .destructuringEntry) := by
  have counted : entryCount items = (elements items).countP (nodeKind? · == some .destructuringEntry) := by
    rw [elements, List.countP_map]
    rfl
  rw [counted, whole, RawElement.significant, List.countP_filter]
  refine List.countP_congr fun e _ => ?_
  cases e with
  | leaf l => simp [nodeKind?]
  | node kind role children => simp [nodeKind?, RawElement.isTrivia]

/-- A single variable in parentheses is refused. -/
theorem refuseSingle_passes :
    Passes (refuseSingle o) fun _ => o.children.countP (nodeKind? · == some .destructuringEntry) ≠ 1 := by
  refine .ite (fun _ => ?_) fun several => .pure ?_
  · exact .bind (R := fun _ => True) (fun _ => trivial) fun _ _ => .throw (.unsupported ..)
  · simpa [List.countP_eq_length_filter] using several

theorem implied_accepts {k : Kind} {children : List (Field × Node)} {Q : Node → List Item → Prop}
    (none : k.demands = []) (h : ∀ n, Q n items) : Accepts (implied k children) o items Q :=
  made_accepts (.free none) fun _ => h _

/-- The parts of one variable, or of several in parentheses. None at all are several as well. -/
inductive Bindings : List (Field × Node) → Prop
  | single (n : Node) : Bindings (one .bindings n)
  | several (left right : Node) (ns : List Node) (comma : Option Node) (more : ns.length ≠ 1) :
      Bindings (one .lPar left ++ many .bindings ns ++ opt .trailingComma comma ++ one .rPar right)

theorem bindings_accepts (h : On (.either [Plan.word "(", Plan.items (Plan.nodesCell [.destructuringEntry]),
      Plan.word ")"] [Plan.name, Plan.type] :: p) items) (noColon : Plan.mayBegin (.text ":") p = false)
    (noEntry : Plan.mayHold (.node .destructuringEntry) p = false)
    (all : entryCount items = o.children.countP (nodeKind? · == some .destructuringEntry)) :
    Accepts bindings o items fun parts items' => Bindings parts ∧ On p items' := by
  refine .rest ?_
  rcases h.choose with several | one
  · rw [if_pos several.seenToken]
    refine .read (.bind (.lift refuseSingle_passes) ?_)
    rintro _ _ ⟨notOne, rfl⟩
    refine .bind (several.keyword.and (Spares.keyword _)) fun left _ opened => ?_
    refine .bind ((opened.1.1.separatedUpTo rfl rfl (.part rfl)).and separated_counts) fun list items₂ read => ?_
    refine .past read.1.2.keyword fun right _ on => .pure ⟨.several left right list.1 list.2 ?_, on⟩
    have none : entryCount items₂ = 0 := by
      refine List.countP_eq_zero.mpr fun i member is => ?_
      have held := read.1.2.follows.mayHold (s := .node .destructuringEntry)
        (List.mem_map_of_mem (f := (·.origin.element)) member) ?_
      · simp [Plan.mayHold, Plan.Term.mayHold, Cell.mayMeet, Plan.wordsCell, noEntry] at held
      · cases element : i.origin.element with
        | leaf l => simp [nodeKind?, element] at is
        | node kind role children => simpa [nodeKind?, element, Sight.meets] using is
    rw [← all, ← opened.2, read.2, none] at notOne
    exact notOne
  · rw [if_neg (by rw [one.unseenToken rfl]; exact Bool.false_ne_true)]
    exact .past one.name fun _ _ on =>
      .bind (on.optionalType noColon) fun _ _ on =>
      .bind (implied_accepts rfl fun _ => on) fun _ _ on => .pure ⟨.single _, on⟩

/-- A property has a value or a delegate. What stands in its parentheses is counted among all its parts. -/
theorem property_accepts (h : On (Plan.ofKind .property) items)
    (whole : elements items = RawElement.significant o.children) : Accepts property o items fun _ _ => True := by
  refine .bind ((On.modifiers h rfl).and (Spares.optionalPart (by decide) _)) fun _ _ one => ?_
  refine .bind ((Takes.keywordOf (by decide) _ _ one.1).and (Spares.keywordOf _)) fun _ _ two => ?_
  refine .bind ((two.1.1.optionalPart rfl rfl).and (Spares.optionalPart (by decide) _)) fun _ _ three => ?_
  refine .bind ((receiverType_accepts three.1 rfl).and (Spares.receiverType _)) fun _ items' four => ?_
  have all : entryCount items' =
      o.children.countP (nodeKind? · == some .destructuringEntry) := by
    rw [four.2, three.2, two.2, one.2, entryCount_eq whole]
  refine .bind (bindings_accepts four.1 rfl rfl all) fun parts _ bound => ?_
  refine .bind (bound.2.optionalPart rfl rfl) fun _ _ on => .bind (on.optionalKeyword rfl) fun equals _ on => ?_
  refine .bind (On.dueWhere on (.nextAs rfl)) fun value items' after => ?_
  have delegated : Accepts (optionalPart .propertyDelegate) o items' fun delegate items' =>
      (delegate.isSome = false ∨ equals.isSome = false) ∧
        On [.many [.cell (Plan.nodesCell [.propertyGetter, .propertySetter])]] items' := by
    rcases after.2 with ⟨is, on⟩ | ⟨is, on⟩
    · exact (on.absentPart rfl).mono fun _ _ absent => ⟨.inl absent.1, absent.2⟩
    · exact (on.optionalPart rfl rfl).mono fun _ _ on => ⟨.inr is, on⟩
  refine .bind delegated fun delegate _ either => .bind (nodesOf_accepts either.2 rfl rfl rfl) fun _ _ on => ?_
  refine on.finish fun _ => ?_
  have single : delegate = none ∨ equals = none := by simpa using either.1
  cases bound.1 with
  | single n => simp [after.1, single]
  | several left right ns comma more => simp [after.1, single, more]

theorem destructuringEntry_accepts (h : On (Plan.ofKind .destructuringEntry) items) :
    Accepts destructuringEntry o items fun _ _ => True :=
  .past (On.name h) fun _ _ on =>
  .bind (on.optionalType rfl) fun _ _ on => on.finish (.free rfl)

theorem propertyDelegate_accepts (h : On (Plan.ofKind .propertyDelegate) items) :
    Accepts propertyDelegate o items fun _ _ => True :=
  .past (On.keyword h) fun _ _ on =>
  .past (on.nextAs rfl) fun _ _ on => on.finish (.free rfl)

/-- The parentheses of a getter, its type and its body come together. -/
theorem propertyGetter_accepts (h : On (Plan.ofKind .propertyGetter) items) :
    Accepts propertyGetter o items fun _ _ => True := by
  refine .bind (On.modifiers h rfl) fun _ _ on => .past on.keyword fun _ items on => ?_
  rcases on.choose with there | absent
  · refine .bind (On.presentKeyword there) fun left _ opened => .bind opened.2.presentKeyword fun right _ closed => ?_
    refine .bind (closed.2.optionalType rfl) fun _ _ on => .bind (body_accepts (.inl ⟨rfl, on⟩)) ?_
    rintro parts _ ⟨bodied, on⟩
    exact on.finish fun _ => by simp [opened.1, closed.1, bodied.filled]
  · refine .bind (On.absentKeyword absent rfl) fun left _ none => .bind (none.2.absentKeyword rfl) fun right _ none' => ?_
    refine .bind (On.optionalType (On.right none'.2) rfl) fun _ _ on => .bind (body_accepts (.inr ⟨rfl, on⟩)) ?_
    rintro parts _ ⟨bodied, on⟩
    obtain rfl := bodied.nothing
    exact on.finish fun _ => by simp [none.1, none'.1]

/-- So do the parameter of a setter and its body. -/
theorem propertySetter_accepts (h : On (Plan.ofKind .propertySetter) items) :
    Accepts propertySetter o items fun _ _ => True := by
  refine .bind (On.modifiers h rfl) fun _ _ on => .past on.keyword fun _ items on => ?_
  rcases on.choose with there | absent
  · refine .bind (On.presentPart there rfl) fun params _ read => .bind (body_accepts (.inl ⟨rfl, read.2⟩)) ?_
    rintro parts _ ⟨bodied, on⟩
    exact on.finish fun _ => by simp [read.1, bodied.filled]
  · refine .bind (On.absentPart absent rfl) fun params _ none => .bind (body_accepts (.inr ⟨rfl, none.2⟩)) ?_
    rintro parts _ ⟨bodied, on⟩
    obtain rfl := bodied.nothing
    exact on.finish fun _ => by simp [none.1]

theorem typeAlias_accepts (h : On (Plan.ofKind .typeAlias) items) : Accepts typeAlias o items fun _ _ => True :=
  .bind (On.modifiers h rfl) fun _ _ on =>
  .past on.token fun _ _ on =>
  .past on.name fun _ _ on =>
  .bind (on.optionalPart rfl rfl) fun _ _ on =>
  .past on.token fun _ _ on =>
  .past (on.part rfl) fun _ _ on => on.finish (.free rfl)

end KotlinSyntax.Conversion
