import KotlinSyntax.Conversion.Declaration
import KotlinSyntax.Proofs.Conversion.Type

/-! Files and declarations. -/
namespace KotlinSyntax.Conversion

variable {all items : List Item} {ws : List String} {o : Owner}

/-! Whole sources. -/

theorem header_reads (h : Taking all ws items) :
    Reads header o items fun children items' => ∃ sets package imports,
      children = many .annotationSets sets ++ opt .packageDirective package ++ opt .importDirectives imports ∧
        AllKnown children ∧
          Taking all (ws ++ manyWords sets ++ optWords package ++ optWords imports) items' := by
  refine .bind h.annotationSets ?_
  rintro sets items₁ ⟨h, known₁⟩
  refine .bind h.optionalPart ?_
  rintro package items₂ ⟨⟨h, known₂⟩, _⟩
  refine .bind h.optionalPart ?_
  rintro imports items₃ ⟨⟨h, known₃⟩, _⟩
  refine .pure ⟨sets, package, imports, rfl, ?_, h⟩
  simp only [allKnown_append, allKnown_opt, allKnown_many]
  exact ⟨⟨known₁, known₂⟩, known₃⟩

/-- Parts up to the end. -/
theorem Taking.whileAny {rule : Reading Node} (h : Taking all ws items)
    (each : ∀ ws items, Taking all ws items → Reads rule o items (Adds all ws items)) :
    Reads (Conversion.whileSees (!·.isEmpty) rule) o items fun ns items' => AddsMany all ws ns [] ∧ items' = [] := by
  refine (h.whileSees each).mono ?_
  rintro ns items' ⟨adds, ended⟩
  have none : items' = [] := by simpa using ended
  subst none
  exact ⟨adds, rfl⟩

theorem file_spells (faithful : ∀ i ∈ all, Faithful i) : Spelling file o all := by
  refine .bind (header_reads (.start faithful)) ?_
  rintro _ items₁ ⟨sets, package, imports, rfl, known₁, h⟩
  refine .bind (h.whileAny fun _ _ h => h.addsNext nofun) ?_
  rintro declarations _ ⟨⟨h, known₂⟩, rfl⟩
  refine h.build ?_ ?_
  · intro id
    simp [Node.layout, Piece.words]
  · rw [allKnown_append, allKnown_many]
    exact ⟨known₁, known₂⟩

theorem script_spells (faithful : ∀ i ∈ all, Faithful i) : Spelling script o all := by
  refine .bind (header_reads (.start faithful)) ?_
  rintro _ items₁ ⟨sets, package, imports, rfl, known₁, h⟩
  refine .bind (h.whileAny fun _ _ h => h.addsNext nofun) ?_
  rintro statements _ ⟨⟨h, known₂⟩, rfl⟩
  refine h.build ?_ ?_
  · intro id
    simp [Node.layout, Piece.words]
  · rw [allKnown_append, allKnown_many]
    exact ⟨known₁, known₂⟩

theorem packageDirective_spells (faithful : ∀ i ∈ all, Faithful i) : Spelling packageDirective o all := by
  refine .bind (Taking.start faithful).keyword ?_
  rintro word items₁ ⟨⟨⟨h, _⟩, known₁⟩, _⟩
  refine .bind h.name ?_
  rintro first items₂ ⟨⟨h, _⟩, known₂⟩
  refine .bind (h.whileLed fun _ _ h => h.name) ?_
  rintro others items₃ ⟨h, known₃⟩
  refine h.finish ?_ ?_
  · intro id
    simp [Node.layout, Piece.words, joinWords_led]
  · simp only [allKnown_append, allKnown_one, allKnown_many, List.forall_mem_cons]
    exact ⟨known₁, known₂, known₃⟩

theorem importList_spells (faithful : ∀ i ∈ all, Faithful i) : Spelling importList o all := by
  refine .bind ((Taking.start faithful).whileAny fun _ _ h => h.addsPart) ?_
  rintro elements _ ⟨⟨h, known⟩, rfl⟩
  refine h.build ?_ (by simpa using known)
  intro id
  simp [Node.layout, Piece.words]

theorem importDirective_spells (faithful : ∀ i ∈ all, Faithful i) : Spelling importDirective o all := by
  refine .bind (Taking.start faithful).keyword ?_
  rintro word items₁ ⟨⟨⟨h, _⟩, known₁⟩, _⟩
  refine .bind h.name ?_
  rintro first items₂ ⟨⟨h, _⟩, known₂⟩
  refine .bind (h.whileLed fun _ _ h => h.name) ?_
  rintro others items₃ ⟨h, known₃⟩
  refine .bind h.skipToken ?_
  rintro wildcard items₄ ⟨h, _⟩
  refine .bind h.tokenIf ?_
  intro _ items₅ h
  refine .bind h.optionalPart ?_
  rintro aliased items₆ ⟨⟨h, known₆⟩, _⟩
  refine h.finish ?_ ?_
  · intro id
    cases wildcard <;> simp [Node.layout, Piece.words, Node.flag, Node.scalars, tokenWords, joinWords_led]
  · simp only [allKnown_append, allKnown_one, allKnown_opt, allKnown_many, List.forall_mem_cons]
    exact ⟨⟨known₁, known₂, known₃⟩, known₆⟩

theorem importAlias_spells (faithful : ∀ i ∈ all, Faithful i) : Spelling importAlias o all := by
  refine .bind (Taking.start faithful).token ?_
  rintro _ items₁ ⟨⟨h, _⟩, _⟩
  refine .bind h.name ?_
  rintro n items₂ ⟨⟨h, _⟩, known⟩
  refine h.finish ?_ (by simpa using known)
  intro id
  simp [Node.layout, Piece.words, tokenWords]

/-! Classes. -/

theorem classDeclaration_spells (faithful : ∀ i ∈ all, Faithful i) : Spelling classDeclaration o all := by
  refine .bind (Taking.start faithful).modifiers ?_
  rintro mods items₁ ⟨h, known₁⟩
  refine .bind h.keywordOf ?_
  rintro word items₂ ⟨⟨h, _⟩, known₂⟩
  refine .bind h.optionalName ?_
  rintro n items₃ ⟨h, known₃⟩
  refine .bind h.optionalPart ?_
  rintro params items₄ ⟨⟨h, known₄⟩, _⟩
  refine .bind h.optionalPart ?_
  rintro primary items₅ ⟨⟨h, known₅⟩, _⟩
  refine .bind h.optionalPart ?_
  rintro parents items₆ ⟨⟨h, known₆⟩, _⟩
  refine .bind h.optionalPart ?_
  rintro constraints items₇ ⟨⟨h, known₇⟩, _⟩
  refine .bind h.optionalPart ?_
  rintro body items₈ ⟨⟨h, known₈⟩, _⟩
  refine h.finish ?_ ?_
  · intro id
    simp [Node.layout, Piece.words]
  · simp only [allKnown_append, allKnown_one, allKnown_opt]
    exact ⟨⟨⟨⟨⟨⟨⟨known₁, known₂⟩, known₃⟩, known₄⟩, known₅⟩, known₆⟩, known₇⟩, known₈⟩

theorem primaryConstructor_spells (faithful : ∀ i ∈ all, Faithful i) : Spelling primaryConstructor o all := by
  refine .bind (Taking.start faithful).modifiers ?_
  rintro mods items₁ ⟨h, known₁⟩
  refine .bind h.optionalKeyword ?_
  rintro word items₂ ⟨⟨h, known₂⟩, _⟩
  refine .bind h.addsPart ?_
  rintro params items₃ ⟨⟨h, _⟩, known₃⟩
  refine .bind build_reads ?_
  rintro n _ ⟨made, rfl⟩
  refine .bind close_reads ?_
  rintro _ _ ⟨rfl, rfl⟩
  refine .pure (h.spells (made.words ?_) (made.known ?_))
  · intro id
    simp [Node.layout, Piece.words]
  · simp only [allKnown_append, allKnown_one, allKnown_opt]
    exact ⟨⟨known₁, known₂⟩, known₃⟩

theorem superTypeList_spells (faithful : ∀ i ∈ all, Faithful i) : Spelling superTypeList o all := by
  refine .bind (Taking.start faithful).token ?_
  rintro _ items₁ ⟨⟨h, _⟩, _⟩
  refine .bind (h.addsNext nofun) ?_
  rintro first items₂ ⟨⟨h, _⟩, known₂⟩
  refine .bind (h.whileLed fun _ _ h => h.addsNext nofun) ?_
  rintro others items₃ ⟨h, known₃⟩
  refine h.finish ?_ ?_
  · intro id
    simp [Node.layout, Piece.words, tokenWords, joinWords_led]
  · simp only [allKnown_many, List.forall_mem_cons]
    exact ⟨known₂, known₃⟩

theorem classParent_spells (faithful : ∀ i ∈ all, Faithful i) : Spelling classParent o all := by
  refine .bind (Taking.start faithful).addsPart ?_
  rintro type items₁ ⟨⟨h, _⟩, known₁⟩
  refine .read ?_
  split
  · refine .bind h.addsPart ?_
    rintro args items₂ ⟨⟨h, _⟩, known₂⟩
    refine h.finish ?_ (by simpa using ⟨known₁, known₂⟩)
    intro id
    simp [Node.layout, Piece.words]
  · refine .bind h.keyword ?_
    rintro word items₂ ⟨⟨⟨h, _⟩, known₂⟩, _⟩
    refine .bind (h.addsNext nofun) ?_
    rintro e items₃ ⟨⟨h, _⟩, known₃⟩
    refine h.finish ?_ ?_
    · intro id
      simp [Node.layout, Piece.words]
    · simp only [allKnown_append, allKnown_one]
      exact ⟨⟨known₁, known₂⟩, known₃⟩
  · refine h.finish ?_ (by simpa using known₁)
    intro id
    simp [Node.layout, Piece.words]
  · exact .mismatch

theorem joinWords_concat (ns : List Node) (n : Node) :
    joinWords "," ((ns ++ [n]).map Node.words) =
      joinWords "," (ns.map Node.words) ++ commaBefore ns ++ n.words := by
  induction ns with
  | nil => simp [joinWords, commaBefore]
  | cons m ns ih =>
    rw [List.cons_append, joinWords_cons, ih, joinWords_cons]
    cases ns with
    | nil => simp [joinWords, commaBefore]
    | cons => simp [commaBefore]

/-- The entries that were read, with a comma behind them if one was taken already. -/
structure EntriesRead (all : List Item) (ws : List String) (entries : List Node) (items : List Item)
    (pending : Bool) : Prop where
  taken : Taking all (ws ++ joinWords "," (entries.map Node.words) ++ wordIf pending ",") items
  known : ∀ n ∈ entries, n.Known
  filled : pending = true → entries ≠ []
  more : pending = true → seesNode .enumEntry items = true
  last : pending = false → entries ≠ [] → seesNode .enumEntry items = false

theorem seesNode_cons (kind : RawKind) (i : Item) (items : List Item) :
    seesNode kind (i :: items) = i.origin.element.isOf kind := by
  cases element : i.origin.element with
  | leaf l => simp [seesNode, nodeKind?, element, RawElement.isOf]
  | node k role children => simp [seesNode, nodeKind?, element, RawElement.isOf]

/-- The next entry, with the comma behind it. -/
theorem EntriesRead.next {entries : List Node} {pending : Bool} (h : EntriesRead all ws entries items pending)
    (spaced : Spaced (RawElement.isOf .enumEntry) (elements all)) (framed : Framed .classBody (elements all))
    (entry : seesNode .enumEntry items = true) :
    Reads (do let entry ← part .enumEntry; let _ ← skipToken ","; return entry) o items fun n items' =>
      (∃ pending', EntriesRead all ws (entries ++ [n]) items' pending') ∧ items'.length < items.length := by
  have before : wordIf pending "," = commaBefore entries := by
    cases pending with
    | true => simp [commaBefore, h.filled rfl]
    | false =>
      cases entries with
      | nil => rfl
      | cons n ns =>
        have none := h.last rfl (by simp)
        rw [entry] at none
        cases none
  have follow := h.taken.chain spaced
  refine .bind h.taken.part ?_
  rintro n items₁ ⟨i, rfl, stands, is⟩
  have took := h.taken.cons stands.clean
  rw [← stands.words, before] at took
  refine .bind took.1.skipToken ?_
  rintro pending' items₂ ⟨taken, seen, left⟩
  have shorter : items₂.length ≤ items₁.length := by
    rw [left]
    split <;> simp
  refine .pure ⟨⟨pending', ?_, known_append h.known stands.known, by simp, ?_, ?_⟩, ?_⟩
  · rw [joinWords_concat]
    simpa using taken
  · rintro rfl
    cases items₁ with
    | nil => cases seen
    | cons j items₁ =>
      have comma : j.origin.element.spells "," = true := by rw [← seesToken_cons, ← seen]
      obtain ⟨k, rest, rfl, behind⟩ := took.1.followed framed.1 framed.2 comma
      rw [left, if_pos rfl, List.tail_cons, seesNode_cons]
      exact behind comma
  · rintro rfl _
    have rest : items₂ = items₁ := by simpa using left
    subst rest
    cases items₂ with
    | nil => rfl
    | cons j items₂ =>
      rw [seesNode_cons]
      have next : Follows _ i.origin.element j.origin.element := follow.rel
      exact next.2 is
  · simpa using Nat.lt_succ_of_le shorter

theorem classBody_spells (faithful : ∀ i ∈ all, Faithful i)
    (spaced : Spaced (RawElement.isOf .enumEntry) (elements all)) (framed : Framed .classBody (elements all)) :
    Spelling classBody o all := by
  refine .bind (Taking.start faithful).token ?_
  rintro _ items₁ ⟨⟨h, _⟩, _⟩
  refine .bind (whileSees_reads (fun entries items' => ∃ pending, EntriesRead all ([] ++ ["\x7b"]) entries items' pending)
    ?_ ⟨false, by simpa [joinWords] using h, by simp, nofun, nofun, by simp⟩) ?_
  · rintro entries items₂ ⟨pending, h⟩ entry
    exact h.next spaced framed entry
  · rintro entries items₂ ⟨⟨pending, h⟩, ended⟩
    have none : pending = false := by
      cases pending with
      | false => rfl
      | true => exact absurd (h.more rfl) (by simp [ended])
    subst none
    refine .bind (h.taken.whileSees fun _ _ h => h.addsNext (by decide)) ?_
    rintro declarations items₃ ⟨⟨taken, known⟩, _⟩
    refine .bind taken.token ?_
    rintro _ items₄ ⟨⟨taken, _⟩, _⟩
    refine taken.finish ?_ (by simpa using ⟨h.known, known⟩)
    intro id
    simp only [Node.layout, List.flatMap_append]
    split <;> simp [Piece.words, tokenWords]

theorem enumEntry_spells (faithful : ∀ i ∈ all, Faithful i) : Spelling enumEntry o all := by
  refine .bind (Taking.start faithful).modifiers ?_
  rintro mods items₁ ⟨h, known₁⟩
  refine .bind h.name ?_
  rintro n items₂ ⟨⟨h, _⟩, known₂⟩
  refine .bind h.optionalPart ?_
  rintro args items₃ ⟨⟨h, known₃⟩, _⟩
  refine .bind h.optionalPart ?_
  rintro body items₄ ⟨⟨h, known₄⟩, _⟩
  refine h.finish ?_ ?_
  · intro id
    simp [Node.layout, Piece.words]
  · simp only [allKnown_append, allKnown_one, allKnown_opt]
    exact ⟨⟨⟨known₁, known₂⟩, known₃⟩, known₄⟩

theorem classInitializer_spells (faithful : ∀ i ∈ all, Faithful i) : Spelling classInitializer o all := by
  refine .bind (Taking.start faithful).modifiers ?_
  rintro mods items₁ ⟨h, known₁⟩
  refine .bind h.token ?_
  rintro _ items₂ ⟨⟨h, _⟩, _⟩
  refine .bind h.addsPart ?_
  rintro block items₃ ⟨⟨h, _⟩, known₃⟩
  refine h.finish ?_ (by simpa using ⟨known₁, known₃⟩)
  intro id
  simp [Node.layout, Piece.words, tokenWords]

theorem secondaryConstructor_spells (faithful : ∀ i ∈ all, Faithful i) : Spelling secondaryConstructor o all := by
  refine .bind (Taking.start faithful).modifiers ?_
  rintro mods items₁ ⟨h, known₁⟩
  refine .bind h.keyword ?_
  rintro word items₂ ⟨⟨⟨h, _⟩, known₂⟩, _⟩
  refine .bind h.addsPart ?_
  rintro params items₃ ⟨⟨h, _⟩, known₃⟩
  refine .assoc (.bind (h.announced fun _ h => h.addsPart.mono fun _ _ adds => ⟨adds.1.1, adds.2⟩) ?_)
  rintro call items₄ ⟨h, known₄⟩
  refine .bind h.optionalPart ?_
  rintro block items₅ ⟨⟨h, known₅⟩, _⟩
  refine h.finish ?_ ?_
  · intro id
    simp [Node.layout, Piece.words, tokenWords]
  · simp only [allKnown_append, allKnown_one, allKnown_opt]
    exact ⟨⟨⟨⟨known₁, known₂⟩, known₃⟩, known₄⟩, known₅⟩

theorem delegationCall_spells (faithful : ∀ i ∈ all, Faithful i) : Spelling delegationCall o all := by
  refine .bind (Taking.start faithful).keywordOf ?_
  rintro target items₁ ⟨⟨h, _⟩, known₁⟩
  refine .bind h.addsPart ?_
  rintro args items₂ ⟨⟨h, _⟩, known₂⟩
  refine h.finish ?_ (by simpa using ⟨known₁, known₂⟩)
  intro id
  simp [Node.layout, Piece.words]

/-! Functions and properties. -/

theorem receiverType_reads (h : Taking all ws items) :
    Reads receiverType o items fun type items' =>
      Taking all (ws ++ endedWords type ".") items' ∧ ∀ m ∈ type, m.Known := by
  refine .bind h.optionalPart ?_
  rintro (_ | type) items₁ ⟨⟨h, known⟩, _⟩
  · exact .pure ⟨by simpa using h, by simp⟩
  · refine .bind h.token ?_
    rintro _ items₂ ⟨⟨h, _⟩, _⟩
    exact .pure ⟨by simpa using h, known⟩

theorem body_reads (h : Taking all ws items) :
    Reads body o items fun children items' => ∃ equals body,
      children = opt .equals equals ++ opt .body body ∧ AllKnown children ∧
        Taking all (ws ++ optWords equals ++ optWords body) items' := by
  refine .bind h.optionalKeyword ?_
  rintro (_ | equals) items₁ ⟨⟨h, known₁⟩, _⟩
  · refine .bind h.optionalPart ?_
    rintro block items₂ ⟨⟨h, known₂⟩, _⟩
    exact .pure ⟨none, block, rfl, by simpa using known₂, h⟩
  · refine .bind (h.addsNext nofun) ?_
    rintro e items₂ ⟨⟨h, _⟩, known₂⟩
    refine .pure ⟨some equals, some e, rfl, ?_, h⟩
    rw [allKnown_append, allKnown_one, allKnown_one]
    exact ⟨known₁ equals rfl, known₂⟩

theorem function_spells (faithful : ∀ i ∈ all, Faithful i) : Spelling function o all := by
  refine .bind (Taking.start faithful).modifiers ?_
  rintro mods items₁ ⟨h, known₁⟩
  refine .bind h.keyword ?_
  rintro word items₂ ⟨⟨⟨h, _⟩, known₂⟩, _⟩
  refine .bind h.optionalPart ?_
  rintro typeParams items₃ ⟨⟨h, known₃⟩, _⟩
  refine .bind (receiverType_reads h) ?_
  rintro receiver items₄ ⟨h, known₄⟩
  refine .bind h.optionalName ?_
  rintro n items₅ ⟨h, known₅⟩
  refine .bind h.optionalPart ?_
  rintro params items₆ ⟨⟨h, known₆⟩, _⟩
  refine .bind h.optionalType ?_
  rintro type items₇ ⟨h, known₇⟩
  refine .bind (h.whileSees fun _ _ h => h.addsNext nofun) ?_
  rintro posts items₈ ⟨⟨h, known₈⟩, _⟩
  refine .bind (body_reads h) ?_
  rintro _ items₉ ⟨equals, body, rfl, known₉, h⟩
  refine h.finish ?_ ?_
  · intro id
    simp [Node.layout, Piece.words, tokenWords]
  · simp only [allKnown_append, allKnown_one, allKnown_opt, allKnown_many] at known₉ ⊢
    exact ⟨⟨⟨⟨⟨⟨⟨⟨known₁, known₂⟩, known₃⟩, known₄⟩, known₅⟩, known₆⟩, known₇⟩, known₈⟩, known₉⟩

theorem contract_spells (faithful : ∀ i ∈ all, Faithful i) : Spelling contract o all := by
  refine .bind (Taking.start faithful).keyword ?_
  rintro word items₁ ⟨⟨⟨h, _⟩, known₁⟩, _⟩
  refine h.closingPart ?_
  intro effects h known₂
  refine h.build ?_ (by simpa using ⟨known₁, known₂⟩)
  intro id
  simp [Node.layout, Piece.words]

theorem contractEffect_spells (faithful : ∀ i ∈ all, Faithful i) : Spelling contractEffect o all := by
  refine .bind ((Taking.start faithful).addsNext nofun) ?_
  rintro e items₁ ⟨⟨h, _⟩, known⟩
  refine h.finish ?_ (by simpa using known)
  intro id
  simp [Node.layout, Piece.words]

theorem valueParameter_spells (faithful : ∀ i ∈ all, Faithful i) : Spelling valueParameter o all := by
  refine .bind (Taking.start faithful).modifiers ?_
  rintro mods items₁ ⟨h, known₁⟩
  refine .rest (.bind (h.onlyIf fun _ => h.keywordOf.mono fun _ _ adds => ⟨adds.1.1, adds.2⟩) ?_)
  rintro word items₂ ⟨⟨h, known₂⟩, _⟩
  refine .bind h.name ?_
  rintro n items₃ ⟨⟨h, _⟩, known₃⟩
  refine .bind h.optionalType ?_
  rintro type items₄ ⟨h, known₄⟩
  refine .bind h.optionalKeyword ?_
  rintro equals items₅ ⟨⟨h, known₅⟩, _⟩
  refine .bind (h.onlyIf fun _ => (h.addsNext (by nofun)).mono fun _ _ adds => ⟨adds.1.1, adds.2⟩) ?_
  rintro value items₆ ⟨⟨h, known₆⟩, _⟩
  refine h.finish ?_ ?_
  · intro id
    simp [Node.layout, Piece.words, tokenWords]
  · simp only [allKnown_append, allKnown_one, allKnown_opt]
    exact ⟨⟨⟨⟨⟨known₁, known₂⟩, known₃⟩, known₄⟩, known₅⟩, known₆⟩

theorem bindings_reads (h : Taking all ws items)
    (spaced : Spaced (RawElement.isOf .destructuringEntry) (elements all)) :
    Reads bindings o items fun children items' => ∃ left bindings comma right,
      children = opt .lPar left ++ many .bindings bindings ++ opt .trailingComma comma ++ opt .rPar right ∧
        AllKnown children ∧
          Taking all (ws ++ optWords left ++ joinWords "," (bindings.map Node.words) ++ optWords comma ++
            optWords right) items' := by
  refine .rest (.ite ?_ ?_)
  · intro _
    refine .read (.bind (.lift (P := fun _ => True) fun _ => by split <;> trivial) ?_)
    rintro _ _ ⟨_, rfl⟩
    refine .bind h.keyword ?_
    rintro left items₁ ⟨⟨⟨h₁, _⟩, known₁⟩, opens⟩
    refine .bind (opens.separatedParts h spaced h₁) ?_
    rintro ⟨bindings, comma⟩ items₂ lists
    refine .bind lists.taken.keyword ?_
    rintro right items₃ ⟨⟨⟨h, _⟩, known₃⟩, _⟩
    refine .pure ⟨some left, bindings, comma, some right, rfl, ?_, h⟩
    simp only [allKnown_append, allKnown_one, allKnown_opt, allKnown_many]
    exact ⟨⟨⟨known₁, lists.known⟩, lists.comma⟩, known₃⟩
  · intro _
    refine .bind h.name ?_
    rintro n items₁ ⟨⟨h, _⟩, known₁⟩
    refine .bind h.optionalType ?_
    rintro type items₂ ⟨h, known₂⟩
    refine .bind implied_reads ?_
    rintro declared _ ⟨made, rfl⟩
    have words : declared.words = n.words ++ ledWords ":" type :=
      made.words (by intro id; simp [Node.layout, Piece.words, tokenWords])
    have known : declared.Known := made.known (by simpa using ⟨known₁, known₂⟩)
    refine .pure ⟨none, [declared], none, none, rfl, by simpa using known, ?_⟩
    simpa [joinWords, words] using h

theorem property_spells (faithful : ∀ i ∈ all, Faithful i)
    (spaced : Spaced (RawElement.isOf .destructuringEntry) (elements all)) : Spelling property o all := by
  refine .bind (Taking.start faithful).modifiers ?_
  rintro mods items₁ ⟨h, known₁⟩
  refine .bind h.keywordOf ?_
  rintro word items₂ ⟨⟨h, _⟩, known₂⟩
  refine .bind h.optionalPart ?_
  rintro typeParams items₃ ⟨⟨h, known₃⟩, _⟩
  refine .bind (receiverType_reads h) ?_
  rintro receiver items₄ ⟨h, known₄⟩
  refine .bind (bindings_reads h spaced) ?_
  rintro _ items₅ ⟨left, bindings, comma, right, rfl, known₅, h⟩
  refine .bind h.optionalPart ?_
  rintro constraints items₆ ⟨⟨h, known₆⟩, _⟩
  refine .bind h.optionalKeyword ?_
  rintro equals items₇ ⟨⟨h, known₇⟩, _⟩
  refine .bind (h.onlyIf fun _ => (h.addsNext (by nofun)).mono fun _ _ adds => ⟨adds.1.1, adds.2⟩) ?_
  rintro value items₈ ⟨⟨h, known₈⟩, _⟩
  refine .bind h.optionalPart ?_
  rintro delegate items₉ ⟨⟨h, known₉⟩, _⟩
  refine .bind (h.whileSees fun _ _ h => h.addsNext nofun) ?_
  rintro accessors items₁₀ ⟨⟨h, known₁₀⟩, _⟩
  refine h.finish ?_ ?_
  · intro id
    simp [Node.layout, Piece.words, tokenWords]
  · simp only [allKnown_append, allKnown_one, allKnown_opt, allKnown_many] at known₅ ⊢
    exact ⟨⟨⟨⟨⟨⟨⟨⟨⟨known₁, known₂⟩, known₃⟩, known₄⟩, known₅⟩, known₆⟩, known₇⟩, known₈⟩, known₉⟩, known₁₀⟩

theorem destructuringEntry_spells (faithful : ∀ i ∈ all, Faithful i) : Spelling destructuringEntry o all := by
  refine .bind (Taking.start faithful).name ?_
  rintro n items₁ ⟨⟨h, _⟩, known₁⟩
  refine .bind h.optionalType ?_
  rintro type items₂ ⟨h, known₂⟩
  refine h.finish ?_ (by simpa using ⟨known₁, known₂⟩)
  intro id
  simp [Node.layout, Piece.words, tokenWords]

theorem propertyDelegate_spells (faithful : ∀ i ∈ all, Faithful i) : Spelling propertyDelegate o all := by
  refine .bind (Taking.start faithful).keyword ?_
  rintro word items₁ ⟨⟨⟨h, _⟩, known₁⟩, _⟩
  refine .bind (h.addsNext nofun) ?_
  rintro e items₂ ⟨⟨h, _⟩, known₂⟩
  refine h.finish ?_ (by simpa using ⟨known₁, known₂⟩)
  intro id
  simp [Node.layout, Piece.words]

theorem propertyGetter_spells (faithful : ∀ i ∈ all, Faithful i) : Spelling propertyGetter o all := by
  refine .bind (Taking.start faithful).modifiers ?_
  rintro mods items₁ ⟨h, known₁⟩
  refine .bind h.keyword ?_
  rintro word items₂ ⟨⟨⟨h, _⟩, known₂⟩, _⟩
  refine .bind h.optionalKeyword ?_
  rintro left items₃ ⟨⟨h, known₃⟩, _⟩
  refine .bind h.optionalKeyword ?_
  rintro right items₄ ⟨⟨h, known₄⟩, _⟩
  refine .bind h.optionalType ?_
  rintro type items₅ ⟨h, known₅⟩
  refine .bind (body_reads h) ?_
  rintro _ items₆ ⟨equals, body, rfl, known₆, h⟩
  refine h.finish ?_ ?_
  · intro id
    simp [Node.layout, Piece.words, tokenWords]
  · simp only [allKnown_append, allKnown_one, allKnown_opt] at known₆ ⊢
    exact ⟨⟨⟨⟨⟨known₁, known₂⟩, known₃⟩, known₄⟩, known₅⟩, known₆⟩

theorem propertySetter_spells (faithful : ∀ i ∈ all, Faithful i) : Spelling propertySetter o all := by
  refine .bind (Taking.start faithful).modifiers ?_
  rintro mods items₁ ⟨h, known₁⟩
  refine .bind h.keyword ?_
  rintro word items₂ ⟨⟨⟨h, _⟩, known₂⟩, _⟩
  refine .bind h.optionalPart ?_
  rintro params items₃ ⟨⟨h, known₃⟩, _⟩
  refine .bind (body_reads h) ?_
  rintro _ items₄ ⟨equals, body, rfl, known₄, h⟩
  refine h.finish ?_ ?_
  · intro id
    simp [Node.layout, Piece.words]
  · simp only [allKnown_append, allKnown_one, allKnown_opt] at known₄ ⊢
    exact ⟨⟨⟨known₁, known₂⟩, known₃⟩, known₄⟩

theorem typeAlias_spells (faithful : ∀ i ∈ all, Faithful i) : Spelling typeAlias o all := by
  refine .bind (Taking.start faithful).modifiers ?_
  rintro mods items₁ ⟨h, known₁⟩
  refine .bind h.token ?_
  rintro _ items₂ ⟨⟨h, _⟩, _⟩
  refine .bind h.name ?_
  rintro n items₃ ⟨⟨h, _⟩, known₃⟩
  refine .bind h.optionalPart ?_
  rintro params items₄ ⟨⟨h, known₄⟩, _⟩
  refine .bind h.token ?_
  rintro _ items₅ ⟨⟨h, _⟩, _⟩
  refine .bind h.addsPart ?_
  rintro type items₆ ⟨⟨h, _⟩, known₆⟩
  refine h.finish ?_ ?_
  · intro id
    simp [Node.layout, Piece.words, tokenWords]
  · simp only [allKnown_append, allKnown_one, allKnown_opt]
    exact ⟨⟨⟨known₁, known₃⟩, known₄⟩, known₆⟩

end KotlinSyntax.Conversion
