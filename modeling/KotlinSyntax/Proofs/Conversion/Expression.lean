import KotlinSyntax.Conversion.Expression
import KotlinSyntax.Proofs.Conversion.Declaration

/-! Expressions and statements. -/
namespace KotlinSyntax.Conversion

variable {all items : List Item} {ws : List String} {o : Owner}

/-! Control flow. -/

theorem block_spells (faithful : ∀ i ∈ all, Faithful i) : Spelling block o all := by
  refine .bind (Taking.start faithful).token ?_
  rintro _ items₁ ⟨⟨h, _⟩, _⟩
  refine .bind (h.whileSees fun _ _ h => h.addsNext nofun) ?_
  rintro statements items₂ ⟨⟨h, known⟩, _⟩
  refine .bind h.token ?_
  rintro _ items₃ ⟨⟨h, _⟩, _⟩
  refine h.finish ?_ (by simpa using known)
  intro id
  simp [Node.layout, Piece.words, tokenWords]

theorem ifExpression_spells (faithful : ∀ i ∈ all, Faithful i) : Spelling ifExpression o all := by
  refine .bind (Taking.start faithful).keyword ?_
  rintro word items₁ ⟨⟨⟨h, _⟩, known₁⟩, _⟩
  refine .bind h.token ?_
  rintro _ items₂ ⟨⟨h, _⟩, _⟩
  refine .bind (h.addsNext nofun) ?_
  rintro condition items₃ ⟨⟨h, _⟩, known₃⟩
  refine .bind h.token ?_
  rintro _ items₄ ⟨⟨h, _⟩, _⟩
  refine .bind h.container ?_
  rintro body items₅ ⟨⟨h, _⟩, known₅⟩
  refine .assoc (.bind (h.announced fun _ h => h.container.mono fun _ _ adds => ⟨adds.1.1, adds.2⟩) ?_)
  rintro otherwise items₆ ⟨h, known₆⟩
  refine h.finish ?_ ?_
  · intro id
    simp [Node.layout, Piece.words, tokenWords]
  · simp only [allKnown_append, allKnown_one, allKnown_opt]
    exact ⟨⟨⟨known₁, known₃⟩, known₅⟩, known₆⟩

theorem tryExpression_spells (faithful : ∀ i ∈ all, Faithful i) : Spelling tryExpression o all := by
  refine .bind (Taking.start faithful).token ?_
  rintro _ items₁ ⟨⟨h, _⟩, _⟩
  refine .bind h.addsPart ?_
  rintro block items₂ ⟨⟨h, _⟩, known₂⟩
  refine .bind (h.whileSees fun _ _ h => h.addsPart) ?_
  rintro clauses items₃ ⟨⟨h, known₃⟩, _⟩
  refine .assoc (.bind (h.announced fun _ h => h.addsPart.mono fun _ _ adds => ⟨adds.1.1, adds.2⟩) ?_)
  rintro last items₄ ⟨h, known₄⟩
  refine h.finish ?_ ?_
  · intro id
    simp [Node.layout, Piece.words, tokenWords]
  · simp only [allKnown_append, allKnown_one, allKnown_opt, allKnown_many]
    exact ⟨⟨known₂, known₃⟩, known₄⟩

theorem catchClause_spells (faithful : ∀ i ∈ all, Faithful i) : Spelling catchClause o all := by
  refine .bind (Taking.start faithful).keyword ?_
  rintro word items₁ ⟨⟨⟨h, _⟩, known₁⟩, _⟩
  refine .bind h.addsPart ?_
  rintro params items₂ ⟨⟨h, _⟩, known₂⟩
  refine .bind h.addsPart ?_
  rintro block items₃ ⟨⟨h, _⟩, known₃⟩
  refine h.finish ?_ ?_
  · intro id
    simp [Node.layout, Piece.words]
  · simp only [allKnown_append, allKnown_one]
    exact ⟨⟨known₁, known₂⟩, known₃⟩

theorem forLoop_spells (faithful : ∀ i ∈ all, Faithful i) : Spelling forLoop o all := by
  refine .bind (Taking.start faithful).keyword ?_
  rintro word items₁ ⟨⟨⟨h, _⟩, known₁⟩, _⟩
  refine .bind h.token ?_
  rintro _ items₂ ⟨⟨h, _⟩, _⟩
  refine .bind h.addsPart ?_
  rintro param items₃ ⟨⟨h, _⟩, known₃⟩
  refine .bind h.token ?_
  rintro _ items₄ ⟨⟨h, _⟩, _⟩
  refine .bind h.container ?_
  rintro range items₅ ⟨⟨h, _⟩, known₅⟩
  refine .bind h.token ?_
  rintro _ items₆ ⟨⟨h, _⟩, _⟩
  refine .bind h.container ?_
  rintro body items₇ ⟨⟨h, _⟩, known₇⟩
  refine h.finish ?_ ?_
  · intro id
    simp [Node.layout, Piece.words, tokenWords]
  · simp only [allKnown_append, allKnown_one]
    exact ⟨⟨⟨known₁, known₃⟩, known₅⟩, known₇⟩

theorem whileLoop_spells (faithful : ∀ i ∈ all, Faithful i) : Spelling whileLoop o all := by
  refine .bind (Taking.start faithful).keyword ?_
  rintro word items₁ ⟨⟨⟨h, _⟩, known₁⟩, _⟩
  refine .bind h.token ?_
  rintro _ items₂ ⟨⟨h, _⟩, _⟩
  refine .bind h.container ?_
  rintro condition items₃ ⟨⟨h, _⟩, known₃⟩
  refine .bind h.token ?_
  rintro _ items₄ ⟨⟨h, _⟩, _⟩
  refine .bind h.container ?_
  rintro body items₅ ⟨⟨h, _⟩, known₅⟩
  refine h.finish ?_ ?_
  · intro id
    simp [Node.layout, Piece.words, tokenWords]
  · simp only [allKnown_append, allKnown_one]
    exact ⟨⟨known₁, known₃⟩, known₅⟩

theorem doWhileLoop_spells (faithful : ∀ i ∈ all, Faithful i) : Spelling doWhileLoop o all := by
  refine .bind (Taking.start faithful).token ?_
  rintro _ items₁ ⟨⟨h, _⟩, _⟩
  refine .bind h.container ?_
  rintro body items₂ ⟨⟨h, _⟩, known₂⟩
  refine .bind h.keyword ?_
  rintro word items₃ ⟨⟨⟨h, _⟩, known₃⟩, _⟩
  refine .bind h.token ?_
  rintro _ items₄ ⟨⟨h, _⟩, _⟩
  refine .bind h.container ?_
  rintro condition items₅ ⟨⟨h, _⟩, known₅⟩
  refine .bind h.token ?_
  rintro _ items₆ ⟨⟨h, _⟩, _⟩
  refine h.finish ?_ ?_
  · intro id
    simp [Node.layout, Piece.words, tokenWords]
  · simp only [allKnown_append, allKnown_one]
    exact ⟨⟨known₂, known₃⟩, known₅⟩

/-! Operators. -/

theorem operation_spells {k : Kind} {operator rhs : Reading Node} (faithful : ∀ i ∈ all, Faithful i)
    (laid : ∀ n : Node, n.layout none k = [.child .lhs, .child .operator, .child .rhs])
    (middle : ∀ ws items, Taking all ws items → Reads operator o items (Adds all ws items))
    (right : ∀ ws items, Taking all ws items → Reads rhs o items (Adds all ws items)) :
    Spelling (operation k operator rhs) o all := by
  refine .bind ((Taking.start faithful).addsNext nofun) ?_
  rintro l items₁ ⟨⟨h, _⟩, known₁⟩
  refine .bind (middle _ _ h) ?_
  rintro sign items₂ ⟨⟨h, _⟩, known₂⟩
  refine .bind (right _ _ h) ?_
  rintro r items₃ ⟨⟨h, _⟩, known₃⟩
  refine h.finish ?_ ?_
  · intro id
    simp [laid, Piece.words]
  · simp only [allKnown_append, allKnown_one]
    exact ⟨⟨known₁, known₂⟩, known₃⟩

theorem prefixExpression_spells (faithful : ∀ i ∈ all, Faithful i) : Spelling prefixExpression o all := by
  refine .bind (Taking.start faithful).keywordOf ?_
  rintro sign items₁ ⟨⟨h, _⟩, known₁⟩
  refine .bind (h.addsNext nofun) ?_
  rintro e items₂ ⟨⟨h, _⟩, known₂⟩
  refine h.finish ?_ (by simpa using ⟨known₁, known₂⟩)
  intro id
  simp [Node.layout, Piece.words]

theorem postfixExpression_spells (faithful : ∀ i ∈ all, Faithful i) : Spelling postfixExpression o all := by
  refine .bind ((Taking.start faithful).addsNext nofun) ?_
  rintro e items₁ ⟨⟨h, _⟩, known₁⟩
  refine .bind h.keywordOf ?_
  rintro sign items₂ ⟨⟨h, _⟩, known₂⟩
  refine h.finish ?_ (by simpa using ⟨known₁, known₂⟩)
  intro id
  simp [Node.layout, Piece.words]

theorem receiver_reads (h : Taking all ws items) : Reads receiver o items (Adds all ws items) := by
  refine .rest (.ite ?_ ?_)
  · intro _
    refine .bind h.addsPart ?_
    rintro type items₁ ⟨took, known⟩
    refine implied_reads.mono ?_
    rintro n _ ⟨made, rfl⟩
    have words : n.words = type.words := made.words (by intro id; simp [Node.layout, Piece.words])
    rw [Adds, words]
    exact ⟨took, made.known (by simpa using known)⟩
  · intro _
    refine .bind (h.addsNext (by decide)) ?_
    rintro e items₁ ⟨took, known⟩
    refine implied_reads.mono ?_
    rintro n _ ⟨made, rfl⟩
    have words : n.words = e.words := made.words (by intro id; simp [Node.layout, Piece.words])
    rw [Adds, words]
    exact ⟨took, made.known (by simpa using known)⟩

theorem beforeColons_reads (h : Taking all ws items) :
    Reads beforeColons o items fun lhs items' =>
      Taking all (ws ++ optWords lhs ++ ["::"]) items' ∧ ∀ m ∈ lhs, m.Known := by
  refine .rest (.bind (h.onlyIf fun _ => (receiver_reads h).mono fun _ _ adds => ⟨adds.1.1, adds.2⟩) ?_)
  rintro lhs items₁ ⟨⟨h, known⟩, _⟩
  refine .bind h.token ?_
  rintro _ items₂ ⟨⟨h, _⟩, _⟩
  exact .pure ⟨h, known⟩

theorem callableReference_spells (faithful : ∀ i ∈ all, Faithful i) : Spelling callableReference o all := by
  refine .bind (beforeColons_reads (.start faithful)) ?_
  rintro lhs items₁ ⟨h, known₁⟩
  refine .bind h.name ?_
  rintro rhs items₂ ⟨⟨h, _⟩, known₂⟩
  refine h.finish ?_ (by simpa using ⟨known₁, known₂⟩)
  intro id
  simp [Node.layout, Piece.words, tokenWords]

theorem classLiteral_spells (faithful : ∀ i ∈ all, Faithful i) : Spelling classLiteral o all := by
  refine .bind (beforeColons_reads (.start faithful)) ?_
  rintro lhs items₁ ⟨h, known⟩
  refine .bind h.token ?_
  rintro _ items₂ ⟨⟨h, _⟩, _⟩
  refine h.finish ?_ (by simpa using known)
  intro id
  simp [Node.layout, Piece.words, tokenWords]

theorem parenthesized_spells (faithful : ∀ i ∈ all, Faithful i) : Spelling parenthesized o all := by
  refine .bind (Taking.start faithful).token ?_
  rintro _ items₁ ⟨⟨h, _⟩, _⟩
  refine .bind (h.addsNext nofun) ?_
  rintro e items₂ ⟨⟨h, _⟩, known⟩
  refine .bind h.token ?_
  rintro _ items₃ ⟨⟨h, _⟩, _⟩
  refine h.finish ?_ (by simpa using known)
  intro id
  simp [Node.layout, Piece.words, tokenWords]

/-! Strings. -/

theorem Taking.nextEntry (h : Taking all ws items) (fine : ∀ e ∈ elements all, e.isOf .errorElement = false) :
    Reads (Conversion.nextAs .stringEntry) o items (Adds all ws items) := by
  refine .bind next_reads ?_
  rintro i items' rfl
  obtain ⟨front, split, _⟩ := h.split
  have plain := fine i.origin.element (by rw [elements_split split]; simp [elements])
  refine (Reads.lift (h.head.entry plain)).mono ?_
  rintro n _ ⟨stands, rfl⟩
  exact h.adds (P := fun _ => True) ⟨i, rfl, stands, trivial⟩

theorem stringTemplate_spells (faithful : ∀ i ∈ all, Faithful i) (quoted : Quoted (elements all))
    (fine : ∀ e ∈ elements all, e.isOf .errorElement = false) : Spelling stringTemplate o all := by
  refine .bind (Taking.start faithful).anyToken ?_
  rintro opening items₁ ⟨left, ⟨h, _⟩, opens, begins⟩
  refine .bind (h.whileSees fun _ _ h => h.nextEntry fine) ?_
  rintro entries items₂ ⟨⟨h₂, known⟩, _⟩
  refine .bind h₂.anyToken ?_
  rintro closing items₃ ⟨right, ⟨h, _⟩, closes, ends⟩
  refine .bind close_reads ?_
  rintro _ _ ⟨rfl, rfl⟩
  have quotes : right = left ∧ (left = "\"" ∨ left = "\"\"\"") := by
    obtain ⟨first, inner, last, split, quote, same⟩ := quoted
    have head : opening.origin.element = .leaf first := by
      rw [begins] at split
      exact (List.cons.inj split).1
    have tail : closing.origin.element = .leaf last := by
      obtain ⟨front, parts, _⟩ := h₂.split
      rw [elements_split parts, ends] at split
      exact (List.append_inj_right' split rfl |> List.cons.inj).1
    have clean : ∀ e ∈ inner, Clean e := by
      obtain ⟨front, parts, _, clean⟩ := h.split
      intro e member
      have inside : e ∈ elements all := by
        rw [split]
        simp [member]
      obtain ⟨i, belongs, rfl⟩ := List.mem_map.mp inside
      rw [parts, List.append_nil] at belongs
      exact clean i belongs
    rw [head] at opens
    rw [tail] at closes
    cases opens
    cases closes
    exact ⟨same clean, quote⟩
  obtain ⟨rfl, either⟩ := quotes
  refine h.build ?_ (by simpa using known)
  intro id
  rw [opens]
  rcases either with rfl | rfl <;>
    simp [Node.layout, Node.quotes, Node.flag, Node.scalars, Piece.words, tokenWords]

theorem template_spells (faithful : ∀ i ∈ all, Faithful i) : Spelling template o all := by
  refine .read (.bind (Taking.start faithful).token ?_)
  rintro _ items₁ ⟨⟨h, _⟩, _⟩
  refine .bind (h.addsNext nofun) ?_
  rintro e items₂ ⟨⟨h, _⟩, known⟩
  refine .bind h.tokenIf ?_
  intro _ items₃ h
  refine h.finish ?_ (by simpa using known)
  intro id
  cases o.kind == .shortTemplate <;> simp [Node.layout, Node.flag, Node.scalars, Piece.words]

/-! Lambdas. -/

theorem arrowParameters_reads {arrow : Bool} {params : Option Node} (known : ∀ m ∈ params, m.Known) :
    Reads (arrowParameters arrow params) o items fun params' items' =>
      (optWords params' = optWords params ∧ params'.isSome = (arrow || params.isSome) ∧ ∀ m ∈ params', m.Known) ∧
        items' = items := by
  refine .ite ?_ ?_
  · intro alone
    simp only [Bool.and_eq_true, Option.isNone_iff_eq_none] at alone
    obtain ⟨rfl, rfl⟩ := alone
    refine .map (implied_reads.mono ?_)
    rintro n _ ⟨made, rfl⟩
    have words : n.words = [] := made.words (by intro id; simp [Node.layout, Piece.words, Node.wordsAll, joinWords])
    exact ⟨⟨by simpa using words, rfl, by simpa using made.known (by simp)⟩, rfl⟩
  · intro other
    refine .pure ⟨⟨rfl, ?_, known⟩, rfl⟩
    cases arrow <;> cases params <;> simp at other ⊢

theorem lambda_spells (faithful : ∀ i ∈ all, Faithful i) (framed : Framed .lambdaExpression (elements all)) :
    Spelling lambda o all := by
  refine .bind (Taking.start faithful).token ?_
  rintro _ items₁ ⟨⟨h, _⟩, _⟩
  -- Parameters are followed by an arrow.
  have parameters : Reads (optionalPart .lambdaParameterList) o items₁ fun params items' =>
      AddsOpt all ([] ++ ["\x7b"]) params items' ∧ (params.isSome = true → seesToken "->" 0 items' = true) := by
    refine .rest (.ite ?_ ?_)
    · intro _
      refine .map (h.part.mono ?_)
      rintro n items₂ ⟨i, rfl, stands, is⟩
      obtain ⟨j, rest, rfl, behind⟩ := h.followed framed.1 framed.2 is
      have took := h.cons stands.clean
      rw [← stands.words] at took
      exact ⟨⟨took.1, by simpa using stands.known⟩, fun _ => by rw [seesToken_cons]; exact behind is⟩
    · intro _
      exact .pure ⟨⟨by simpa using h, by simp⟩, nofun⟩
  refine .bind parameters ?_
  rintro params items₂ ⟨⟨h, known⟩, followed⟩
  refine .bind h.skipToken ?_
  rintro arrow items₃ ⟨h, seen, _⟩
  refine .bind (arrowParameters_reads known) ?_
  rintro params' _ ⟨⟨words, filled, known₃⟩, rfl⟩
  refine .bind h.optionalPart ?_
  rintro body items₄ ⟨⟨h, known₄⟩, _⟩
  refine .bind h.token ?_
  rintro _ items₅ ⟨⟨h, _⟩, _⟩
  have arrows : optWords params ++ wordIf arrow "->" = endedWords params' "->" := by
    have same : params'.isSome = arrow := by
      rw [filled]
      cases some : params.isSome with
      | false => simp
      | true => simp [seen, followed some]
    rw [← words, ← same]
    cases params' <;> simp
  refine h.finish ?_ (by simpa using ⟨known₃, known₄⟩)
  intro id
  simp [Node.layout, Piece.words, tokenWords, ← arrows]

theorem lambdaParameterList_spells (faithful : ∀ i ∈ all, Faithful i)
    (spaced : Spaced (RawElement.isOf .lambdaParameter) (elements all)) : Spelling lambdaParameterList o all := by
  refine .bind ((Taking.start faithful).separatedParts (x := listStart) rfl spaced) ?_
  rintro ⟨elements, comma⟩ items₁ lists
  refine lists.taken.finish ?_ (by simpa using ⟨lists.known, lists.comma⟩)
  intro id
  simp [Node.layout, Piece.words]

theorem lambdaParameter_spells (faithful : ∀ i ∈ all, Faithful i)
    (spaced : Spaced (RawElement.isOf .lambdaParameterVariable) (elements all)) : Spelling lambdaParameter o all := by
  have start := Taking.start faithful
  refine .bind start.optionalKeyword ?_
  rintro (_ | left) items₁ ⟨⟨h, known₁⟩, opens⟩
  · refine .bind h.addsPart ?_
    rintro binding items₂ ⟨⟨h, _⟩, known⟩
    refine h.finish ?_ (by simpa using known)
    intro id
    simp [Node.layout, Piece.words, joinWords]
  · refine .bind (Opens.separatedParts opens start spaced h) ?_
    rintro ⟨bindings, comma⟩ items₂ lists
    refine .bind lists.taken.keyword ?_
    rintro right items₃ ⟨⟨⟨h, _⟩, known₃⟩, _⟩
    refine .bind h.optionalKeyword ?_
    rintro colon items₄ ⟨⟨h, known₄⟩, _⟩
    refine .bind (h.onlyIf fun _ => h.addsPart.mono fun _ _ adds => ⟨adds.1.1, adds.2⟩) ?_
    rintro type items₅ ⟨⟨h, known₅⟩, _⟩
    refine h.finish ?_ ?_
    · intro id
      simp [Node.layout, Piece.words]
    · simp only [allKnown_append, allKnown_one, allKnown_opt, allKnown_many]
      exact ⟨⟨⟨⟨⟨known₁ left rfl, lists.known⟩, lists.comma⟩, known₃⟩, known₄⟩, known₅⟩

theorem lambdaParameterVariable_spells (faithful : ∀ i ∈ all, Faithful i) : Spelling lambdaParameterVariable o all := by
  refine .bind (Taking.start faithful).modifiers ?_
  rintro mods items₁ ⟨h, known₁⟩
  refine .bind h.name ?_
  rintro n items₂ ⟨⟨h, _⟩, known₂⟩
  refine .bind h.optionalType ?_
  rintro type items₃ ⟨h, known₃⟩
  refine h.finish ?_ ?_
  · intro id
    simp [Node.layout, Piece.words, tokenWords]
  · simp only [allKnown_append, allKnown_one, allKnown_opt]
    exact ⟨⟨known₁, known₂⟩, known₃⟩

theorem lambdaBody_spells (faithful : ∀ i ∈ all, Faithful i) : Spelling lambdaBody o all := by
  refine .bind ((Taking.start faithful).whileAny fun _ _ h => h.addsNext nofun) ?_
  rintro statements _ ⟨⟨h, known⟩, rfl⟩
  refine h.build ?_ (by simpa using known)
  intro id
  simp [Node.layout, Piece.words]

/-! Choices and jumps. -/

theorem thisExpression_spells (faithful : ∀ i ∈ all, Faithful i) : Spelling thisExpression o all := by
  refine .bind (Taking.start faithful).token ?_
  rintro _ items₁ ⟨⟨h, _⟩, _⟩
  refine .bind h.label ?_
  rintro l items₂ ⟨h, known⟩
  refine h.finish ?_ (by simpa using known)
  intro id
  simp [Node.layout, Piece.words, tokenWords]

theorem superExpression_spells (faithful : ∀ i ∈ all, Faithful i) : Spelling superExpression o all := by
  refine .bind (Taking.start faithful).token ?_
  rintro _ items₁ ⟨⟨h, _⟩, _⟩
  have bounded : Reads (do onlyIf (← skipToken "<") superBound) o items₁ fun type items' =>
      Taking all ([] ++ ["super"] ++ (if type.isSome then "<" :: optWords type ++ [">"] else [])) items' ∧
        ∀ m ∈ type, m.Known := by
    refine .bind h.skipToken ?_
    rintro due items₂ ⟨h, _⟩
    refine .ite ?_ ?_
    · rintro rfl
      refine .map (.bind h.addsPart ?_)
      rintro type items₃ ⟨⟨h, _⟩, known⟩
      refine .bind h.token ?_
      rintro _ items₄ ⟨⟨h, _⟩, _⟩
      exact .pure ⟨by simpa using h, by simpa using known⟩
    · intro none
      have is : due = false := by simpa using none
      subst is
      exact .pure ⟨by simpa using h, by simp⟩
  refine .assoc (.bind bounded ?_)
  rintro type items₂ ⟨h, known₂⟩
  refine .bind h.label ?_
  rintro l items₃ ⟨h, known₃⟩
  refine h.finish ?_ (by simpa using ⟨known₂, known₃⟩)
  intro id
  cases type <;> simp [Node.layout, Piece.words, tokenWords]

theorem whenSubject_reads (h : Taking all ws items) :
    Reads whenSubject o items fun children items' => ∃ left e right,
      children = opt .lPar left ++ opt .expression e ++ opt .rPar right ∧ AllKnown children ∧
        Taking all (ws ++ optWords left ++ optWords e ++ optWords right) items' := by
  refine .bind h.optionalKeyword ?_
  rintro (_ | left) items₁ ⟨⟨h, known₁⟩, _⟩
  · exact .pure ⟨none, none, none, rfl, by simp, by simpa using h⟩
  · refine .bind (h.addsNext nofun) ?_
    rintro e items₂ ⟨⟨h, _⟩, known₂⟩
    refine .bind h.keyword ?_
    rintro right items₃ ⟨⟨⟨h, _⟩, known₃⟩, _⟩
    refine .pure ⟨some left, some e, some right, rfl, ?_, h⟩
    simp only [allKnown_append, allKnown_one]
    exact ⟨⟨known₁ left rfl, known₂⟩, known₃⟩

theorem whenExpression_spells (faithful : ∀ i ∈ all, Faithful i) : Spelling whenExpression o all := by
  refine .bind (Taking.start faithful).keyword ?_
  rintro word items₁ ⟨⟨⟨h, _⟩, known₁⟩, _⟩
  refine .bind (whenSubject_reads h) ?_
  rintro _ items₂ ⟨left, e, right, rfl, known₂, h⟩
  refine .bind h.token ?_
  rintro _ items₃ ⟨⟨h, _⟩, _⟩
  refine .bind (h.whileSees fun _ _ h => h.addsPart) ?_
  rintro branches items₄ ⟨⟨h, known₄⟩, _⟩
  refine .bind h.token ?_
  rintro _ items₅ ⟨⟨h, _⟩, _⟩
  refine h.finish ?_ ?_
  · intro id
    simp [Node.layout, Piece.words, tokenWords]
  · simp only [allKnown_append, allKnown_one, allKnown_opt, allKnown_many] at known₂ ⊢
    exact ⟨⟨known₁, known₂⟩, known₄⟩

/-- Either conditions or the word that stands for all others. -/
theorem whenConditions_reads {otherwise : Option Node} (faithful : ∀ i ∈ all, Faithful i)
    (spaced : Spaced (RawElement.isOf .whenCondition) (elements all)) (h : Taking all (optWords otherwise) items)
    (opens : if otherwise.isSome then Opens "else" all items else items = all) :
    Reads (whenConditions otherwise.isSome) o items fun result items' =>
      Taking all (joinWords "," (result.1.map Node.words) ++ optWords result.2 ++ optWords otherwise) items' ∧
        (∀ n ∈ result.1, n.Known) ∧ ∀ n ∈ result.2, n.Known := by
  cases otherwise with
  | some n => exact .pure ⟨by simpa [joinWords] using h, by simp, by simp⟩
  | none =>
    have same : items = all := opens
    subst same
    refine ((Taking.start faithful).separatedParts (x := listStart) rfl spaced).mono ?_
    rintro result items' lists
    exact ⟨by simpa using lists.taken, lists.known, lists.comma⟩

theorem whenEntry_spells (faithful : ∀ i ∈ all, Faithful i)
    (spaced : Spaced (RawElement.isOf .whenCondition) (elements all)) : Spelling whenEntry o all := by
  refine .bind (Taking.start faithful).optionalKeyword ?_
  rintro otherwise items₁ ⟨⟨h, known₁⟩, opens⟩
  refine .bind (whenConditions_reads faithful spaced (by simpa using h) opens) ?_
  rintro ⟨conditions, comma⟩ items₂ ⟨h, known₂, known₃⟩
  refine .bind h.token ?_
  rintro _ items₃ ⟨⟨h, _⟩, _⟩
  refine .bind (h.addsNext nofun) ?_
  rintro body items₄ ⟨⟨h, _⟩, known₄⟩
  refine h.finish ?_ ?_
  · intro id
    simp [Node.layout, Piece.words, tokenWords]
  · simp only [allKnown_append, allKnown_one, allKnown_opt, allKnown_many]
    exact ⟨⟨⟨known₂, known₃⟩, known₁⟩, known₄⟩

theorem whenCondition_spells (faithful : ∀ i ∈ all, Faithful i) : Spelling whenCondition o all := by
  have start := Taking.start faithful
  refine .rest (.bind (start.onlyIf fun _ => start.keywordOf.mono fun _ _ adds => ⟨adds.1.1, adds.2⟩) ?_)
  rintro operator items₁ ⟨⟨h, known₁⟩, _⟩
  refine .ite ?_ ?_
  · intro _
    refine .bind h.addsPart ?_
    rintro type items₂ ⟨⟨h, _⟩, known₂⟩
    refine h.finish ?_ (by simpa using ⟨known₁, known₂⟩)
    intro id
    simp [Node.layout, Piece.words]
  · intro _
    refine .bind (h.addsNext nofun) ?_
    rintro e items₂ ⟨⟨h, _⟩, known₂⟩
    refine h.finish ?_ (by simpa using ⟨known₁, known₂⟩)
    intro id
    simp [Node.layout, Piece.words]

/-- The word in front, where the kind says what it is. -/
theorem headed_reads {text : String} (faithful : ∀ i ∈ all, Faithful i) (headed : Headed text (elements all)) :
    Reads anyToken o all fun _ items' => Taking all ([] ++ [text]) items' := by
  refine (Taking.start faithful).anyToken.mono ?_
  rintro i items₁ ⟨word, ⟨h, _⟩, spelled, begins⟩
  obtain ⟨l, rest, split, rfl⟩ := headed
  have head : i.origin.element = .leaf l := by
    rw [begins] at split
    exact (List.cons.inj split).1
  rw [head] at spelled
  cases spelled
  exact h

theorem throwExpression_spells (faithful : ∀ i ∈ all, Faithful i) (headed : Headed "throw" (elements all)) :
    Spelling throwExpression o all := by
  refine .bind (headed_reads faithful headed) ?_
  intro _ items₁ h
  refine .bind (h.addsNext nofun) ?_
  rintro e items₂ ⟨⟨h, _⟩, known⟩
  refine h.finish ?_ (by simpa using known)
  intro id
  simp [Node.layout, tokenWords]

theorem returnExpression_spells (faithful : ∀ i ∈ all, Faithful i) (headed : Headed "return" (elements all)) :
    Spelling returnExpression o all := by
  refine .bind (headed_reads faithful headed) ?_
  intro _ items₁ h
  refine .bind h.label ?_
  rintro l items₂ ⟨h, known₂⟩
  refine .rest (.bind (h.onlyIf fun _ => (h.addsNext (by nofun)).mono fun _ _ adds => ⟨adds.1.1, adds.2⟩) ?_)
  rintro e items₃ ⟨⟨h, known₃⟩, _⟩
  refine h.finish ?_ (by simpa using ⟨known₂, known₃⟩)
  intro id
  simp [Node.layout, Piece.words, tokenWords]

theorem loopJump_spells {k : Kind} {text : String} (faithful : ∀ i ∈ all, Faithful i)
    (headed : Headed text (elements all)) (laid : ∀ n : Node, n.layout none k = .token text :: n.atLabel)
    (plain : k ≠ .importDirective) : Spelling (loopJump k) o all := by
  refine .bind (headed_reads faithful headed) ?_
  intro _ items₁ h
  refine .bind h.label ?_
  rintro l items₂ ⟨h, known⟩
  refine h.finish ?_ (by simpa using known)
  intro id
  simp [laid, Piece.words, tokenWords_of_ne plain]

/-! Suffixes and what is wrapped. -/

/-- Expressions between brackets. -/
theorem Taking.expressions {opening closing : RawElement} {inner : List RawElement} (h : Taking all ws items)
    (split : elements items = opening :: inner ++ [closing]) (spaced : Spaced (!·.spells ",") inner)
    (closes : closing.spells "]" = true) :
    Reads (Conversion.bracketed "[" "]" (Conversion.nextAs .expression)) o items fun result items' =>
      Taking all (ws ++ ["["] ++ joinWords "," (result.1.map Node.words) ++ optWords result.2 ++ ["]"]) items' ∧
        (∀ n ∈ result.1, n.Known) ∧ ∀ n ∈ result.2, n.Known := by
  refine .bind h.token ?_
  rintro i items₁ ⟨took, _, rfl⟩
  obtain ⟨front, tail, rfl, parts, last⟩ := List.map_eq_append_iff.mp (List.cons.inj split).2
  have ends : listEnds (some "]") tail = true := by
    cases tail with
    | nil => rfl
    | cons j tail =>
      have same : j.origin.element = closing := (List.cons.inj last).1
      rw [← same, ← seesToken_cons "]" j tail] at closes
      simpa [listEnds] using closes
  have each : ∀ ws items, Taking all ws items → seesToken "," 0 items = false →
      Reads (Conversion.nextAs .expression) o items fun n items' =>
        TakesHead items n items' fun e => (!e.spells ",") = true := by
    intro ws items h noComma
    refine (h.nextAs (by decide)).mono ?_
    rintro n items' ⟨i, rfl, stands, _⟩
    rw [seesToken_cons] at noComma
    exact ⟨i, rfl, stands, by simp [noComma]⟩
  refine .bind (took.1.separated (fun e comma => by simp [comma]) each rfl (x := listStart) rfl ?_ ends) ?_
  · rw [elements, parts]
    exact spaced
  · intro result items₂ lists
    refine .bind lists.taken.token ?_
    rintro j items₃ ⟨took, _⟩
    exact .pure ⟨took.1, lists.known, lists.comma⟩

theorem collectionLiteral_spells (faithful : ∀ i ∈ all, Faithful i)
    (framed : Framed .collectionLiteralExpression (elements all)) : Spelling collectionLiteral o all := by
  obtain ⟨opening, inner, closing, split, spaced, closes⟩ := framed
  refine .bind ((Taking.start faithful).expressions split spaced closes) ?_
  rintro ⟨elements, comma⟩ items₁ ⟨h, known₁, known₂⟩
  refine h.finish ?_ (by simpa using ⟨known₁, known₂⟩)
  intro id
  simp [Node.layout, tokenWords]

theorem labeledExpression_spells (faithful : ∀ i ∈ all, Faithful i) : Spelling labeledExpression o all := by
  refine .bind (Taking.start faithful).name ?_
  rintro l items₁ ⟨⟨h, _⟩, known₁⟩
  refine .bind h.token ?_
  rintro _ items₂ ⟨⟨h, _⟩, _⟩
  refine .bind (h.addsNext nofun) ?_
  rintro e items₃ ⟨⟨h, _⟩, known₃⟩
  refine h.finish ?_ (by simpa using ⟨known₁, known₃⟩)
  intro id
  simp [Node.layout, Piece.words]

theorem annotatedExpression_spells (faithful : ∀ i ∈ all, Faithful i) : Spelling annotatedExpression o all := by
  refine .bind (Taking.start faithful).annotationSets ?_
  rintro sets items₁ ⟨h, known₁⟩
  refine .bind (h.addsNext nofun) ?_
  rintro e items₂ ⟨⟨h, _⟩, known₂⟩
  refine h.finish ?_ ?_
  · intro id
    simp [Node.layout, Piece.words]
  · rw [allKnown_append, allKnown_many, allKnown_one]
    exact ⟨known₁, known₂⟩

theorem callExpression_spells (faithful : ∀ i ∈ all, Faithful i) : Spelling callExpression o all := by
  refine .bind ((Taking.start faithful).addsNext nofun) ?_
  rintro e items₁ ⟨⟨h, _⟩, known₁⟩
  refine .bind h.optionalPart ?_
  rintro typeArgs items₂ ⟨⟨h, known₂⟩, _⟩
  refine .bind h.optionalPart ?_
  rintro args items₃ ⟨⟨h, known₃⟩, _⟩
  refine .bind h.optionalPart ?_
  rintro lambda items₄ ⟨⟨h, known₄⟩, _⟩
  refine h.finish ?_ ?_
  · intro id
    simp [Node.layout, Piece.words]
  · simp only [allKnown_append, allKnown_one, allKnown_opt]
    exact ⟨⟨⟨known₁, known₂⟩, known₃⟩, known₄⟩

theorem lambdaArgument_spells (faithful : ∀ i ∈ all, Faithful i) : Spelling lambdaArgument o all := by
  refine .bind (Taking.start faithful).annotationSets ?_
  rintro sets items₁ ⟨h, known₁⟩
  refine .rest (h.namedBefore ?_)
  intro l items₂ h known₂
  refine .bind h.addsPart ?_
  rintro e items₃ ⟨⟨h, _⟩, known₃⟩
  refine h.finish ?_ ?_
  · intro id
    cases l <;> simp [Node.layout, Piece.words]
  · simp only [allKnown_append, allKnown_one, allKnown_opt, allKnown_many]
    exact ⟨⟨known₁, known₂⟩, known₃⟩

theorem arrayAccess_spells (faithful : ∀ i ∈ all, Faithful i)
    (framed : Framed .arrayAccessExpression (elements all)) : Spelling arrayAccess o all := by
  obtain ⟨target, opening, inner, closing, split, spaced, closes⟩ := framed
  refine .bind ((Taking.start faithful).nextAs nofun) ?_
  rintro e items₁ ⟨i, rfl, stands, _⟩
  have took := (Taking.start faithful).cons stands.clean
  rw [← stands.words] at took
  refine .bind (took.1.expressions (List.cons.inj split).2 spaced closes) ?_
  rintro ⟨indices, comma⟩ items₂ ⟨h, known₁, known₂⟩
  refine h.finish ?_ ?_
  · intro id
    simp [Node.layout, Piece.words, tokenWords]
  · simp only [allKnown_append, allKnown_one, allKnown_opt, allKnown_many]
    exact ⟨⟨stands.known, known₁⟩, known₂⟩

theorem wrapped_spells {k : Kind} {f : Field} {rule : Reading Node} (inner : Spelling rule o all)
    (laid : ∀ n : Node, n.layout none k = [.child f]) : Spelling (wrapped k f rule) o all := by
  refine .bind inner ?_
  intro n items₁ spells
  refine build_reads.mono ?_
  rintro m _ ⟨made, _⟩
  refine ⟨(made.words ?_).trans spells.words, made.known (by simpa using spells.known), spells.clean⟩
  intro id
  simp [laid, Piece.words]

/-- The type that is one word. -/
theorem dynamicType_spells (faithful : ∀ i ∈ all, Faithful i) (framed : Framed .dynamicType (elements all)) :
    Spelling (build .dynamicType [] []) o all := by
  refine build_reads.mono ?_
  rintro n _ ⟨made, _⟩
  obtain ⟨l, split, spelled⟩ := framed
  obtain ⟨i, rfl, is⟩ := List.map_eq_singleton_iff.mp split
  have word : tokenText? i.origin.element = some "dynamic" := by rw [is, tokenText?, spelled]
  obtain ⟨words, clean⟩ := leaf_words word (faithful i (by simp)).part
  have laid : n.words = ["dynamic"] := made.words (by intro id; rfl)
  refine ⟨?_, made.known (by simp), by simpa using clean⟩
  rw [laid, itemWords, List.flatMap_singleton, words]

end KotlinSyntax.Conversion
