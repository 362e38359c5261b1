import KotlinSyntax.Conversion.Type
import KotlinSyntax.Proofs.Conversion.Reading

/-! Types, modifiers, annotations and arguments. -/
namespace KotlinSyntax.Conversion

variable {all items : List Item} {ws : List String} {o : Owner} {kind : RawKind}

def Spelling (rule : Reading Node) (o : Owner) (all : List Item) : Prop := Reads rule o all fun n _ => Spells all n

theorem list_spells {k : Kind} {opening closing : String} (h : Taking all ws items)
    (spaced : Spaced (RawElement.isOf kind) (elements all))
    (spelled : ∀ (elements : List Node) (comma : Option Node),
      Implies k [] (many .elements elements ++ opt .trailingComma comma)
        (ws ++ [opening] ++ joinWords "," (elements.map Node.words) ++ optWords comma ++ [closing])) :
    Reads (list k opening closing kind) o items fun n _ => Spells all n := by
  refine .bind (h.bracketed spaced) ?_
  rintro ⟨elements, comma⟩ items₁ ⟨h, known, known'⟩
  exact h.finish (spelled elements comma) (by simpa using ⟨known, known'⟩)

/-- A list that begins with its bracket. -/
theorem bracketedList_spells {k : Kind} {opening closing : String} (faithful : ∀ i ∈ all, Faithful i)
    (spaced : Spaced (RawElement.isOf kind) (elements all))
    (laid : ∀ n : Node, n.layout none k = Node.bracketed opening closing .elements) (plain : k ≠ .importDirective) :
    Spelling (list k opening closing kind) o all := by
  refine list_spells (.start faithful) spaced ?_
  intro elements comma id
  simp [laid, tokenWords_of_ne plain]

theorem modifierList_spells (faithful : ∀ i ∈ all, Faithful i) : Spelling modifierList o all := by
  refine .bind ((Taking.start faithful).whileSees ?_) ?_
  · intro ws items h
    exact .rest (.ite (fun _ => h.addsPart) fun _ => h.keywordOf)
  · rintro elements items₁ ⟨⟨h, known⟩, _⟩
    refine h.finish ?_ (by simpa using known)
    intro id
    simp [Node.layout, Piece.words]

theorem annotationSet_spells (faithful : ∀ i ∈ all, Faithful i) : Spelling annotationSet o all := by
  refine .bind (Taking.start faithful).keyword ?_
  rintro sign items₁ ⟨⟨⟨h, _⟩, known₁⟩, _⟩
  refine .rest (.bind (h.onlyIf fun _ => h.keywordOf.mono fun _ _ adds => ⟨adds.1.1, adds.2⟩) ?_)
  rintro target items₂ ⟨⟨h, known₂⟩, _⟩
  refine .bind (h.onlyIf fun _ => h.keyword.mono fun _ _ adds => ⟨adds.1.1.1, adds.1.2⟩) ?_
  rintro colon items₃ ⟨⟨h, known₃⟩, _⟩
  refine .bind h.optionalKeyword ?_
  rintro left items₄ ⟨⟨h, known₄⟩, _⟩
  refine .bind (h.whileSees fun _ _ h => h.addsPart) ?_
  rintro entries items₅ ⟨⟨h, known₅⟩, _⟩
  refine .bind h.optionalKeyword ?_
  rintro right items₆ ⟨⟨h, known₆⟩, _⟩
  refine h.finish ?_ ?_
  · intro id
    simp [Node.layout, Piece.words]
  · simp only [allKnown_append, allKnown_one, allKnown_opt, allKnown_many]
    exact ⟨⟨⟨⟨⟨known₁, known₂⟩, known₃⟩, known₄⟩, known₅⟩, known₆⟩

theorem annotationEntry_spells (faithful : ∀ i ∈ all, Faithful i) : Spelling annotationEntry o all := by
  refine .bind (Taking.start faithful).addsPart ?_
  rintro type items₁ ⟨⟨h, _⟩, known₁⟩
  refine .bind h.optionalPart ?_
  rintro args items₂ ⟨⟨h, known₂⟩, _⟩
  refine h.finish ?_ (by simpa using ⟨known₁, known₂⟩)
  intro id
  simp [Node.layout, Piece.words]

/-- What a type in parentheses, if they are there, is made of. -/
theorem groupedType_reads (h : Taking all ws items) :
    Reads groupedType o items fun children items' => ∃ left mods type right,
      children = opt .lPar left ++ opt .modifiers mods ++ one .type type ++ opt .rPar right ∧ AllKnown children ∧
        Taking all (ws ++ optWords left ++ optWords mods ++ type.words ++ optWords right) items' := by
  refine .bind h.optionalKeyword ?_
  rintro left items₁ ⟨⟨h, known₁⟩, _⟩
  refine .bind h.modifiers ?_
  rintro mods items₂ ⟨h, known₂⟩
  refine .bind (h.addsNext nofun) ?_
  rintro type items₃ ⟨⟨h, _⟩, known₃⟩
  refine .bind h.optionalKeyword ?_
  rintro right items₄ ⟨⟨h, known₄⟩, _⟩
  refine .pure ⟨left, mods, type, right, rfl, ?_, h⟩
  simp only [allKnown_append, allKnown_one, allKnown_opt]
  exact ⟨⟨⟨known₁, known₂⟩, known₃⟩, known₄⟩

theorem typeReference_spells (faithful : ∀ i ∈ all, Faithful i) : Spelling typeReference o all := by
  refine .bind (groupedType_reads (.start faithful)) ?_
  rintro _ items₁ ⟨left, mods, type, right, rfl, known, h⟩
  refine h.finish ?_ known
  intro id
  simp [Node.layout, Piece.words]

theorem nullableType_spells (faithful : ∀ i ∈ all, Faithful i) : Spelling nullableType o all := by
  refine .bind (groupedType_reads (.start faithful)) ?_
  rintro _ items₁ ⟨left, mods, type, right, rfl, known, h⟩
  refine .bind h.token ?_
  rintro _ items₂ ⟨⟨h, _⟩, _⟩
  refine h.finish ?_ known
  intro id
  simp [Node.layout, Piece.words, tokenWords]

theorem typeQualifier_spells (faithful : ∀ i ∈ all, Faithful i) : Spelling typeQualifier o all := by
  refine .bind (Taking.start faithful).name ?_
  rintro n items₁ ⟨⟨h, _⟩, known₁⟩
  refine .bind h.optionalPart ?_
  rintro args items₂ ⟨⟨h, known₂⟩, _⟩
  refine h.finish ?_ (by simpa using ⟨known₁, known₂⟩)
  intro id
  simp [Node.layout, Piece.words]

theorem userType_spells (faithful : ∀ i ∈ all, Faithful i) : Spelling userType o all := by
  have qualified : Reads (whileSees (seesNode .typeQualifier) do
      let qualifier ← part .typeQualifier
      let _ ← token "."
      return qualifier) o all fun qualifiers items' =>
        (Taking all (qualifiers.flatMap fun q => q.words ++ ["."]) items' ∧ ∀ n ∈ qualifiers, n.Known) ∧
          seesNode .typeQualifier items' = false := by
    refine whileSees_reads (fun (qualifiers : List Node) items' =>
      Taking all (qualifiers.flatMap fun q => q.words ++ ["."]) items' ∧ ∀ n ∈ qualifiers, n.Known) ?_
      ⟨.start faithful, by simp⟩
    rintro qualifiers items₁ ⟨h, known⟩ _
    refine .bind h.addsPart ?_
    rintro qualifier items₂ ⟨⟨h, less⟩, known'⟩
    refine .bind h.token ?_
    rintro _ items₃ ⟨⟨h, less'⟩, _⟩
    exact .pure ⟨⟨by simpa using h, known_append known known'⟩, by omega⟩
  refine .bind qualified ?_
  rintro qualifiers items₁ ⟨⟨h, known₁⟩, _⟩
  refine .bind h.name ?_
  rintro n items₂ ⟨⟨h, _⟩, known₂⟩
  refine .bind h.optionalPart ?_
  rintro args items₃ ⟨⟨h, known₃⟩, _⟩
  refine h.finish ?_ ?_
  · intro id
    simp [Node.layout, Piece.words, List.flatMap_map]
  · simp only [allKnown_append, allKnown_one, allKnown_opt, allKnown_many]
    exact ⟨⟨known₁, known₂⟩, known₃⟩

theorem typeProjection_spells (faithful : ∀ i ∈ all, Faithful i) : Spelling typeProjection o all := by
  refine .bind (Taking.start faithful).skipToken ?_
  rintro star items₁ ⟨h, _⟩
  refine .ite ?_ ?_
  · rintro rfl
    refine h.finish ?_ (by simp)
    intro id
    simp [Node.layout, Piece.words, Node.flag, Node.scalars, tokenWords, Node.wordsAll]
  · intro none
    have is : star = false := by simpa using none
    subst is
    refine .bind h.modifiers ?_
    rintro mods items₂ ⟨h, known₁⟩
    refine .bind h.addsPart ?_
    rintro type items₃ ⟨⟨h, _⟩, known₂⟩
    refine h.finish ?_ (by simpa using ⟨known₁, known₂⟩)
    intro id
    simp [Node.layout, Piece.words, Node.flag, Node.scalars]

theorem contextReceiverList_spells (faithful : ∀ i ∈ all, Faithful i)
    (spaced : Spaced (RawElement.isOf .contextReceiver) (elements all)) : Spelling contextReceiverList o all := by
  refine .bind (Taking.start faithful).token ?_
  rintro _ items₁ ⟨⟨h, _⟩, _⟩
  refine list_spells h spaced ?_
  intro elements comma id
  simp [Node.layout, Piece.words, tokenWords]

theorem contextReceiver_spells (faithful : ∀ i ∈ all, Faithful i) : Spelling contextReceiver o all := by
  refine .bind (Taking.start faithful).addsPart ?_
  rintro type items₁ ⟨⟨h, _⟩, known⟩
  refine h.finish ?_ (by simpa using known)
  intro id
  simp [Node.layout, Piece.words]

theorem functionTypeReceiver_spells (faithful : ∀ i ∈ all, Faithful i) : Spelling functionTypeReceiver o all := by
  refine .bind (Taking.start faithful).addsPart ?_
  rintro type items₁ ⟨⟨h, _⟩, known⟩
  refine .bind h.token ?_
  rintro _ items₂ ⟨⟨h, _⟩, _⟩
  refine h.finish ?_ (by simpa using known)
  intro id
  simp [Node.layout, Piece.words, tokenWords]

/-- A name with a token behind it, or neither. -/
theorem Taking.namedBefore {named : Bool} {text : String}
    {f : Option Node → Reading Node} (h : Taking all ws items)
    (next : ∀ n items', Taking all (ws ++ endedWords n text) items' → (∀ m ∈ n, m.Known) →
      Reads (f n) o items' fun m _ => Spells all m) :
    Reads (do let n ← Conversion.onlyIf named Conversion.name; Conversion.tokenIf named text; f n) o items
      fun m _ => Spells all m := by
  refine .bind (h.onlyIf fun _ => h.name.mono fun _ _ adds => ⟨adds.1.1, adds.2⟩) ?_
  rintro n items₁ ⟨⟨h, known⟩, same⟩
  refine .bind h.tokenIf ?_
  intro _ items₂ h
  refine next n items₂ ?_ known
  cases n with
  | none =>
    cases same
    simpa using h
  | some n =>
    cases same
    simpa using h

theorem functionTypeParameter_spells (faithful : ∀ i ∈ all, Faithful i) : Spelling functionTypeParameter o all := by
  refine .rest ((Taking.start faithful).namedBefore ?_)
  intro n items₁ h known₁
  refine .bind h.addsPart ?_
  rintro type items₂ ⟨⟨h, _⟩, known₂⟩
  refine h.finish ?_ (by simpa using ⟨known₁, known₂⟩)
  intro id
  simp [Node.layout, Piece.words, tokenWords]

theorem functionType_spells (faithful : ∀ i ∈ all, Faithful i) : Spelling functionType o all := by
  refine .bind (Taking.start faithful).optionalPart ?_
  rintro contexts items₁ ⟨⟨h, known₁⟩, _⟩
  refine .bind h.optionalPart ?_
  rintro receiver items₂ ⟨⟨h, known₂⟩, _⟩
  refine .bind h.addsPart ?_
  rintro params items₃ ⟨⟨h, _⟩, known₃⟩
  refine .bind h.token ?_
  rintro _ items₄ ⟨⟨h, _⟩, _⟩
  refine .bind h.addsPart ?_
  rintro result items₅ ⟨⟨h, _⟩, known₅⟩
  refine h.finish ?_ ?_
  · intro id
    simp [Node.layout, Piece.words, tokenWords]
  · simp only [allKnown_append, allKnown_one, allKnown_opt]
    exact ⟨⟨⟨known₁, known₂⟩, known₃⟩, known₅⟩

theorem valueArgument_spells (faithful : ∀ i ∈ all, Faithful i) : Spelling valueArgument o all := by
  refine .rest ((Taking.start faithful).namedBefore ?_)
  intro n items₁ h known₁
  refine .bind h.skipToken ?_
  rintro spread items₂ ⟨h, _⟩
  refine .bind (h.addsNext nofun) ?_
  rintro e items₃ ⟨⟨h, _⟩, known₃⟩
  refine h.finish ?_ (by simpa using ⟨known₁, known₃⟩)
  intro id
  cases spread <;> simp [Node.layout, Piece.words, Node.flag, Node.scalars, tokenWords]

theorem typeParameter_spells (faithful : ∀ i ∈ all, Faithful i) : Spelling typeParameter o all := by
  refine .bind (Taking.start faithful).modifiers ?_
  rintro mods items₁ ⟨h, known₁⟩
  refine .bind h.name ?_
  rintro n items₂ ⟨⟨h, _⟩, known₂⟩
  refine .bind h.optionalType ?_
  rintro type items₃ ⟨h, known₃⟩
  refine h.finish ?_ ?_
  · intro id
    simp [Node.layout, Piece.words, tokenWords]
  · simp only [allKnown_append, allKnown_one, allKnown_opt]
    exact ⟨⟨known₁, known₂⟩, known₃⟩

theorem typeConstraintSet_spells (faithful : ∀ i ∈ all, Faithful i) : Spelling typeConstraintSet o all := by
  refine .bind (Taking.start faithful).keyword ?_
  rintro word items₁ ⟨⟨⟨h, _⟩, known₁⟩, _⟩
  refine h.closingPart ?_
  intro constraints h known₂
  refine h.build ?_ (by simpa using ⟨known₁, known₂⟩)
  intro id
  simp [Node.layout, Piece.words]

/-- A comma is never the last part, so none is lost. -/
theorem typeConstraintList_spells (faithful : ∀ i ∈ all, Faithful i)
    (spaced : Spaced (RawElement.isOf .typeConstraint) (elements all))
    (framed : Framed .typeConstraintList (elements all)) : Spelling typeConstraintList o all := by
  refine .bind ((Taking.start faithful).separatedParts (x := listStart) rfl spaced) ?_
  rintro ⟨constraints, comma⟩ items₁ lists
  have ended : items₁ = [] := by simpa [listEnds] using lists.ended
  subst ended
  have none : comma = none := by
    cases comma with
    | none => rfl
    | some n =>
      obtain ⟨front, i, split, spelled⟩ := lists.dangling rfl
      have last := framed i.origin.element (by rw [elements_split split]; simp [elements])
      rw [spelled] at last
      cases last
  subst none
  refine lists.taken.finish ?_ (by simpa using lists.known)
  intro id
  simp [Node.layout, Piece.words]

theorem typeConstraint_spells (faithful : ∀ i ∈ all, Faithful i) : Spelling typeConstraint o all := by
  refine .bind (Taking.start faithful).annotationSets ?_
  rintro sets items₁ ⟨h, known₁⟩
  refine .bind h.name ?_
  rintro n items₂ ⟨⟨h, _⟩, known₂⟩
  refine .bind h.token ?_
  rintro _ items₃ ⟨⟨h, _⟩, _⟩
  refine .bind h.addsPart ?_
  rintro type items₄ ⟨⟨h, _⟩, known₄⟩
  refine h.finish ?_ ?_
  · intro id
    simp [Node.layout, Piece.words, tokenWords]
  · simp only [allKnown_append, allKnown_one, allKnown_many]
    exact ⟨⟨known₁, known₂⟩, known₄⟩

end KotlinSyntax.Conversion
