import KotlinSyntax.Grammar.Declaration
import KotlinSyntax.Proofs.Plan.Building.Statement

/-! The rules of declarations build along the plans of their kinds. -/
namespace KotlinSyntax.Grammar

open Builder

variable {scope : Scope} {b : Builder} {m : Marker} {whole p : Plan} {c : Cell} {x : Parsed} {recur : Recur}

/-! Classes. -/

theorem primaryConstructor_yields (keeps : Keeps recur) : Yields scope (primaryConstructor recur) b fun x _ =>
    ∀ y ∈ x, Fills (Plan.nodesCell [.primaryConstructor]) y := by
  have start := Awaits.new .primaryConstructor
  refine .look (.ite (fun _ => ?_) fun _ => speculate_yields ?_)
  · exact .bind (valueParameters_yields keeps) fun _ _ fills => some_yields ((start.right.right.add fills).done rfl)
  · exact .bind (modified_leads keeps start) fun _ _ on =>
      .bind on.left.expect fun _ _ on =>
      .bind (valueParameters_yields keeps) fun _ _ fills => (on.add fills).done rfl

theorem primaryConstructorInto_leads (keeps : Keeps recur) {isObject : Bool}
    (h : Awaits whole (Plan.opt [Plan.node .primaryConstructor] :: p) m) :
    Leads scope (primaryConstructorInto recur isObject m) b whole p :=
  .ite (fun _ => .pure h.right) fun _ => .bind (primaryConstructor_yields keeps) fun _ _ fills => .pure (h.add? fills)

theorem superType_yields (keeps : Keeps recur) : Produces scope (superType recur) b Plan.classParentCell := by
  refine .bind (userType_yields keeps) fun type _ fills =>
    .look (.ite (fun _ => ?_) fun _ => .ite (fun word => ?_) fun _ => ?_)
  · exact .bind (valueArguments_yields keeps) fun _ _ args =>
      (((Awaits.new .superTypeCall).add fills).add args).done rfl
  · exact .bind (((Awaits.new .delegatedSuperType).add fills).advance (.word word rfl)) fun _ _ on =>
      .bind (.withTrailingLambdas keeps.expression) fun _ _ fills => (on.add fills).done rfl
  · exact ((Awaits.new .superType).add fills).done rfl

theorem superTypes_yields (keeps : Keeps recur) (seen : b.sees ":" = true) :
    Produces scope (superTypes recur) b (Plan.nodesCell [.superTypeList]) :=
  .bind ((Awaits.new .superTypeList).advance (.word seen rfl)) fun _ _ on =>
  .bind (superType_yields keeps) fun _ _ fills =>
  .bind ((on.add fills).iterateWhile fun _ _ on comma =>
    .bind (on.advance (.word comma rfl)) fun _ _ on =>
    .bind (superType_yields keeps) fun _ _ fills => .pure (on.add fills)) fun _ _ after =>
  after.1.done rfl

theorem classDeclaration_yields (keeps : Keeps recur) {isEnum : Bool}
    (h : Awaits (Plan.ofKind .classDeclaration) (Plan.ofKind .classDeclaration).tail m)
    (faces : Faces b 0 (Plan.wordsCell Keyword.classKinds)) (takes : c.nodes.contains .classDeclaration = true) :
    Produces scope (classDeclaration recur m isEnum) b c :=
  .look <|
  .bind (h.advance faces) fun _ _ on =>
  .bind (on.advanceIf fun seen => .name seen rfl) fun _ _ on =>
  .bind (typeParametersInto_leads keeps on) fun _ _ on =>
  .bind (primaryConstructorInto_leads keeps on) fun _ _ on =>
  .bind (on.addIf fun colon => superTypes_yields keeps colon) fun _ _ on =>
  .bind (constraintsInto_leads keeps on) fun _ _ on =>
  .bind (on.addIf fun _ => keeps.classBody) fun _ _ on =>
  .bind on.bindTrailingComment fun _ _ on => on.done takes

theorem initializerBlock_yields (keeps : Keeps recur)
    (h : Awaits (Plan.ofKind .classInitializer) (Plan.ofKind .classInitializer).tail m) (seen : b.sees "init" = true)
    (takes : c.nodes.contains .classInitializer = true) : Produces scope (initializerBlock recur m) b c :=
  .bind (h.advance (.word seen rfl)) fun _ _ on =>
  .bind (block_yields keeps) fun _ _ fills =>
  .bind (on.add fills).bindTrailingComment fun _ _ on => on.done takes

/-! Constructors and functions. -/

theorem delegationInto_leads (keeps : Keeps recur)
    (h : Awaits whole (Plan.opt [Plan.word ":", Plan.node .delegationCall] :: p) m) :
    Leads scope (delegationInto recur m) b whole p := by
  have call {b : Builder} : Produces scope (delegationCall recur) b (Plan.nodesCell [.delegationCall]) :=
    .bind ((Awaits.new .delegationCall).expectAny (by decide)) fun _ _ on =>
    .bind (valueArguments_yields keeps) fun _ _ fills => (on.add fills).done rfl
  refine .look (.ite (fun colon => ?_) fun _ => .pure h.right)
  exact .bind (h.left.advance (.word colon rfl)) fun _ _ on => .bind call fun _ _ fills => .pure (on.add fills)

theorem secondaryConstructor_yields (keeps : Keeps recur)
    (h : Awaits (Plan.ofKind .secondaryConstructor) (Plan.ofKind .secondaryConstructor).tail m)
    (seen : b.sees "constructor" = true) (takes : c.nodes.contains .secondaryConstructor = true) :
    Produces scope (secondaryConstructor recur m) b c :=
  .bind (h.advance (.word seen rfl)) fun _ _ on =>
  .bind (valueParameters_yields keeps) fun _ _ fills =>
  .bind (delegationInto_leads keeps (on.add fills)) fun _ _ on =>
  .bind (on.addIf fun _ => block_yields keeps) fun _ _ on =>
  .bind on.bindTrailingComment fun _ _ on => on.done takes

theorem receiverInto_leads (keeps : Keeps recur) (h : Awaits whole (Plan.extended :: p) m) :
    Leads scope (receiverInto recur m) b whole p := by
  have type : Yields scope (receiverType recur) b (Maybe (fun x b' =>
      Fills (Plan.nodesCell [.typeReference]) x ∧ b'.sees "." = true) (· = b)) :=
    .speculate <| .bind keeps.type fun _ _ fills =>
      .look <| .ite (fun dot => .pure ⟨fills.withRole "receiver", dot⟩) fun _ => .reject
  refine .bind type ?_
  rintro (_ | receiver) b' after
  · exact .pure h.right
  · exact (h.left.add after.1).advance (.word after.2 rfl)

theorem contract_yields (keeps : Keeps recur) (seen : b.sees "contract" = true) :
    Produces scope (contract recur) b (Plan.nodesCell [.contract]) := by
  have effect (b : Builder) : Produces scope (contractEffect recur) b (Plan.nodesCell [.contractEffect]) :=
    .bind keeps.expression fun _ _ fills => ((Awaits.new .contractEffect).add fills).done rfl
  exact .bind ((Awaits.new .contract).advance (.word seen rfl)) fun _ _ on =>
    .bind (bracketed_yields rfl rfl effect) fun _ _ fills => (on.add fills).done rfl

theorem postModifiersInto_leads (keeps : Keeps recur)
    (h : Awaits whole (.many [.cell (Plan.nodesCell [.typeConstraintSet, .contract])] :: p) m) :
    Leads scope (postModifiersInto recur m) b whole p := by
  refine .iterate (I := fun m _ => Awaits whole (.many [.cell (Plan.nodesCell [.typeConstraintSet, .contract])] :: p) m)
    h fun m b on => .look (.ite (fun word => ?_) fun _ => .ite (fun word => ?_) fun _ => .pure on.stop)
  · exact .bind (typeConstraintSet_yields keeps word) fun _ _ fills => .pure (on.more.add (fills.widen (by decide)))
  · exact .bind (contract_yields keeps (Bool.and_eq_true_iff.mp word).1) fun _ _ fills =>
      .pure (on.more.add (fills.widen (by decide)))

theorem functionBodyInto_leads (keeps : Keeps recur) (h : Awaits whole (Plan.body :: p) m) :
    Leads scope (functionBodyInto recur m) b whole p :=
  .look <| .ite (fun equals => assigned_leads keeps h.left equals) fun _ =>
    .ite (fun _ => .bind (block_yields keeps) fun _ _ fills => .pure (h.right.left.add fills)) fun _ =>
    .pure h.right.right

theorem functionNameInto_leads (keeps : Keeps recur) (h : Awaits whole (Plan.extended :: Plan.opt [Plan.name] :: p) m) :
    Leads scope (functionNameInto recur m) b whole p :=
  .look <| .ite (fun _ => .pure h.right.right) fun _ =>
    .bind (receiverInto_leads keeps h) fun _ _ on => on.advanceIf fun seen => .name seen rfl

theorem functionDeclaration_yields (keeps : Keeps recur)
    (h : Awaits (Plan.ofKind .function) (Plan.ofKind .function).tail m) (seen : b.sees "fun" = true)
    (takes : c.nodes.contains .function = true) : Produces scope (functionDeclaration recur m) b c :=
  .bind (h.advance (.word seen rfl)) fun _ _ on =>
  .bind (typeParametersInto_leads keeps on) fun _ _ on =>
  .bind (functionNameInto_leads keeps on) fun _ _ on =>
  .bind (valueParameters_yields keeps) fun _ _ fills =>
  .bind (typeSuffix_leads keeps (on.add fills)) fun _ _ on =>
  .bind (postModifiersInto_leads keeps on) fun _ _ on =>
  .bind (functionBodyInto_leads keeps on) fun _ _ on =>
  .bind on.bindTrailingComment fun _ _ on => on.done takes

/-! Properties. -/

/-- A body that is there. -/
theorem presentBodyInto_leads (keeps : Keeps recur) (h : Awaits whole (Plan.bodied :: p) m)
    (there : b.seesAny ["=", openBrace] = true) : Leads scope (functionBodyInto recur m) b whole p := by
  refine .look (.ite (fun equals => assigned_leads keeps h.left equals) fun none => .ite (fun _ => ?_) fun bare => ?_)
  · exact .bind (block_yields keeps) fun _ _ fills => .pure (h.right.add fills)
  · simp [Builder.seesAny, none, bare] at there

/-- An accessor has parameters and a body, or neither. -/
theorem accessorBodyInto_leads (keeps : Keeps recur) {isGetter : Bool} {params : Plan}
    (h : Awaits whole (Plan.opt params :: p) m)
    (each : b.sees "(" = true → Leads scope (accessorParametersInto recur isGetter m) b whole (Plan.bodied :: p)) :
    Leads scope (accessorBodyInto recur isGetter m) b whole p := by
  refine .look (.ite (fun paren => ?_) fun _ => .ite (fun _ => .reject) fun _ => .pure h.right)
  exact .bind (each paren) fun _ _ on =>
    .look <| .ite (fun there => presentBodyInto_leads keeps on there) fun _ => .reject

theorem getterBody_leads (keeps : Keeps recur)
    (h : Awaits whole (Plan.opt [Plan.word "(", Plan.word ")", Plan.type, Plan.bodied] :: p) m) :
    Leads scope (accessorBodyInto recur true m) b whole p :=
  accessorBodyInto_leads keeps h fun paren =>
    .bind (h.left.advance (.word paren rfl)) fun _ _ on =>
    .bind on.expect fun _ _ on => typeSuffix_leads keeps on

theorem setterBody_leads (keeps : Keeps recur)
    (h : Awaits whole (Plan.opt [Plan.node .valueParameterList, Plan.bodied] :: p) m) :
    Leads scope (accessorBodyInto recur false m) b whole p :=
  accessorBodyInto_leads keeps h fun _ => .bind (valueParameters_yields keeps) fun _ _ fills => .pure (h.left.add fills)

/-- Modifiers may belong to either accessor until its word tells. -/
theorem accessor_yields (keeps : Keeps recur) : Yields scope (accessor recur) b fun x _ =>
    ∀ y ∈ x, Fills (Plan.nodesCell [.propertyGetter, .propertySetter]) y := by
  refine speculate_yields ?_
  refine .bind ((modified_leads keeps (.new .propertyGetter)).and (modified_leads keeps (.new .propertySetter))) ?_
  rintro m b ⟨getter, setter⟩
  refine .look ?_
  cases get : b.sees "get" with
  | true =>
    refine .bind (.look (.ite (fun _ => getter.advance (.word get rfl)) fun _ => .reject)) fun _ _ on => ?_
    exact .bind (getterBody_leads keeps on) fun _ _ on => on.done rfl
  | false =>
    have set (seen : b.seesAny ["get", "set"] = true) : b.sees "set" = true := by
      simpa [Builder.seesAny, get] using seen
    refine .bind (.look (.ite (fun seen => setter.advance (.word (set seen) rfl)) fun _ => .reject)) fun _ _ on => ?_
    exact .bind (setterBody_leads keeps on) fun _ _ on => on.done rfl

theorem accessorsInto_leads (keeps : Keeps recur)
    (h : Awaits whole (.many [.cell (Plan.nodesCell [.propertyGetter, .propertySetter])] :: p) m) :
    Leads scope (accessorsInto recur m) b whole p := by
  refine .bind (accessor_yields keeps) ?_
  rintro (_ | first) b' fills
  · exact .pure h.stop
  · have on := h.more.add (fills first rfl)
    refine .bind (accessor_yields keeps) ?_
    rintro (_ | second) b' fills
    · exact .pure on.stop
    · exact .pure (on.more.add (fills second rfl)).stop

theorem propertyValueInto_leads (keeps : Keeps recur)
    (h : Awaits whole (.either Plan.assigned [Plan.opt [Plan.node .propertyDelegate]] :: p) m) :
    Leads scope (propertyValueInto recur m) b whole p := by
  refine .look (.ite (fun equals => ?_) fun _ => .ite (fun word => ?_) fun _ => .pure h.right.right)
  · exact assigned_leads keeps h.left equals
  · exact .bind ((Awaits.new .propertyDelegate).advance (.word word rfl)) fun _ _ on =>
      .bind keeps.expression fun _ _ fills =>
      .bind ((on.add fills).done rfl) fun _ _ fills => .pure (h.right.left.add fills)

theorem bindingsInto_leads (keeps : Keeps recur) (h : Awaits whole (.either [Plan.word "(",
      Plan.items (Plan.nodesCell [.destructuringEntry]), Plan.word ")"] [Plan.name, Plan.type] :: p) m) :
    Leads scope (bindingsInto recur m) b whole p := by
  have entry (b : Builder) : Produces scope (destructuringEntry recur) b (Plan.nodesCell [.destructuringEntry]) :=
    .bind (Awaits.new .destructuringEntry).expectName fun _ _ on =>
    .bind (typeSuffix_leads keeps on) fun _ _ on => on.done rfl
  refine .look (.ite (fun several => ?_) fun _ => ?_)
  · exact .bind (h.left.advance (.word several rfl)) fun _ _ on =>
      .bind (on.commaList entry) fun _ _ on => on.expect
  · exact .bind h.right.expectName fun _ _ on => typeSuffix_leads keeps on

theorem propertyDeclaration_yields (keeps : Keeps recur)
    (h : Awaits (Plan.ofKind .property) (Plan.ofKind .property).tail m)
    (faces : Faces b 0 (Plan.wordsCell Keyword.valOrVar)) (takes : c.nodes.contains .property = true) :
    Produces scope (propertyDeclaration recur m) b c :=
  .bind (h.advance faces) fun _ _ on =>
  .bind (typeParametersInto_leads keeps on) fun _ _ on =>
  .bind (R := fun m _ => Awaits (Plan.ofKind .property) (Plan.ofKind .property).tail.tail.tail.tail m)
    (.look <| .ite (fun _ => .pure on.right) fun _ => receiverInto_leads keeps on) fun _ _ on =>
  .bind (bindingsInto_leads keeps on) fun _ _ on =>
  .bind (constraintsInto_leads keeps on) fun _ _ on =>
  .bind (propertyValueInto_leads keeps on) fun _ _ on =>
  .bind (accessorsInto_leads keeps on) fun _ _ on =>
  .bind on.bindTrailingComment fun _ _ on => on.done takes

theorem typeAlias_yields (keeps : Keeps recur)
    (h : Awaits (Plan.ofKind .typeAlias) (Plan.ofKind .typeAlias).tail m) (seen : b.sees "typealias" = true)
    (takes : c.nodes.contains .typeAlias = true) : Produces scope (typeAlias recur m) b c :=
  .bind (h.advance (.word seen rfl)) fun _ _ on =>
  .bind on.expectName fun _ _ on =>
  .bind (typeParametersInto_leads keeps on) fun _ _ on =>
  .bind on.expect fun _ _ on =>
  .bind keeps.type fun _ _ fills =>
  .bind (on.add fills).bindTrailingComment fun _ _ on => on.done takes

/-! Declarations of any sort. -/

def DeclarationPlace.cell : DeclarationPlace → Cell
  | .statement => Plan.statementCell
  | .file | .member => Plan.declarationCell

theorem sees_of_peek {t : Token} (seen : b.peek = some t)
    (word : (t.kind == .keyword || t.kind == .identifier) = true) : b.sees t.text = true := by
  simp only [Bool.or_eq_true] at word
  rcases word with word | word <;> simp [Builder.sees, seen, Token.spells, word]

theorem declarationRule?_yields (keeps : Keeps recur) {place : DeclarationPlace} {modifiers : Option Parsed}
    {rule : Grammar Parsed} (fills : ∀ y ∈ modifiers, Fills (Plan.nodesCell [.modifierList]) y)
    (found : declarationRule? recur place b modifiers (Marker.empty.add? modifiers) = some rule) :
    Produces scope rule b place.cell := by
  -- The kinds that every place takes.
  have takes : ∀ k ∈ [RawKind.classDeclaration, .function, .property, .typeAlias],
      place.cell.nodes.contains k = true := by
    cases place <;> decide
  have start (kind : RawKind) {p : Plan} (first : Plan.ofKind kind = Plan.modifiers :: p) :
      Awaits (Plan.ofKind kind) p (Marker.empty.add? modifiers) :=
    Awaits.add? (first ▸ .new kind) fills
  unfold declarationRule? at found
  split at found
  case h_2 => cases found
  rename_i t seen
  split at found
  case isFalse => cases found
  rename_i word
  have sees := sees_of_peek seen word
  split at found <;> rename_i is <;> try rw [is] at sees
  · cases found
    exact classDeclaration_yields keeps (start _ rfl) (.word sees rfl) (takes _ (by decide))
  · cases found
    exact classDeclaration_yields keeps (start _ rfl) (.word sees rfl) (takes _ (by decide))
  · split at found <;> cases found
    exact classDeclaration_yields keeps (start _ rfl) (.word sees rfl) (takes _ (by decide))
  · split at found <;> cases found
    exact functionDeclaration_yields keeps (start _ rfl) sees (takes _ (by decide))
  · split at found <;> cases found
    exact propertyDeclaration_yields keeps (start _ rfl) (.word sees rfl) (takes _ (by decide))
  · split at found <;> cases found
    exact propertyDeclaration_yields keeps (start _ rfl) (.word sees rfl) (takes _ (by decide))
  · cases found
    exact typeAlias_yields keeps (start _ rfl) sees (takes _ (by decide))
  · split at found <;> cases found
    rename_i member
    exact secondaryConstructor_yields keeps (start _ rfl) sees (by rw [beq_iff_eq.mp member]; rfl)
  · split at found <;> cases found
    rename_i member
    simp only [Bool.and_eq_true, beq_iff_eq] at member
    exact initializerBlock_yields keeps (start _ rfl) sees (by rw [member.1]; rfl)
  · cases found

theorem declaration_yields (keeps : Keeps recur) {place : DeclarationPlace} :
    Yields scope (declaration recur place) b fun x _ => ∀ y ∈ x, Fills place.cell y := by
  refine .whenReady fun ready => .look (.bind (modifierList_yields keeps).reached ?_)
  rintro modifiers b' ⟨fills, reached⟩
  refine .look ?_
  cases found : declarationRule? recur place b' modifiers (Marker.empty.add? modifiers) with
  | some rule => exact some_yields (declarationRule?_yields keeps fills found)
  | none =>
    refine .ite (fun _ => .look (.goTo (fun _ => ?_) (.pure nofun))) fun _ => .reject
    rw [restore_snapshot reached.tokens reached.significant]
    exact ⟨ready, reached.tokens.symm, reached.significant.symm⟩

theorem declarationOnly_yields (keeps : Keeps recur) {place : DeclarationPlace} {what : String} :
    Produces scope (declarationOnly recur place what) b place.cell := by
  refine .bind (declaration_yields keeps) ?_
  rintro (_ | x) b' fills
  · exact .reject
  · exact .pure (fills x rfl)

/-! Class bodies. -/

theorem atEnumEntry_yields : Yields scope (atEnumEntry recur) b fun _ b' => b' = b :=
  .look <| .ite (fun _ => .pure rfl) fun _ =>
    .ite (fun _ => Yields.lookahead.mono fun _ _ after => after.1) fun _ => .pure rfl

theorem enumEntry_yields (keeps : Keeps recur) : Produces scope (enumEntry recur) b (Plan.nodesCell [.enumEntry]) :=
  .bind (modified_leads keeps (.new .enumEntry)) fun _ _ on =>
  .bind on.expectName fun _ _ on =>
  .bind (on.addIf fun _ => valueArguments_yields keeps) fun _ _ on =>
  .bind (on.addIf fun _ => keeps.classBody) fun _ _ on => on.done rfl

/-- A comma is a part only where another entry follows. -/
theorem enumEntriesInto_leads (keeps : Keeps recur)
    (h : Awaits whole (.many [Plan.node .enumEntry, Plan.word ","] :: Plan.opt [Plan.node .enumEntry] :: p) m) :
    Leads scope (enumEntriesInto recur m) b whole p := by
  refine .iterate (I := fun m _ => Awaits whole
    (.many [Plan.node .enumEntry, Plan.word ","] :: Plan.opt [Plan.node .enumEntry] :: p) m) h fun m b on => ?_
  refine .bind atEnumEntry_yields fun _ _ _ => .ite (fun _ => ?_) fun _ => .pure on.stop.right
  refine .bind (enumEntry_yields keeps) fun entry b fills => ?_
  have last := on.stop.left.add fills
  refine .look (.ite (fun _ => .pure last) fun comma => ?_)
  have comma : b.sees "," = true := by simpa using comma
  obtain ⟨t, seen, spelled⟩ := peek_of_sees comma
  have spelled := Token.text_of_spells spelled
  refine .ite (fun _ => ?_) fun _ => .bind Yields.lookahead ?_
  · exact .bind (last.advanceAsTrivia seen spelled) fun _ _ on => .pure on
  · rintro follows _ ⟨rfl, _⟩
    refine .ite (fun _ => ?_) fun _ => ?_
    · exact .bind ((on.more.add fills).advance (.word comma rfl)) fun _ _ on => .pure on
    · exact .bind (last.advanceAsTrivia seen spelled) fun _ _ on => .pure on

theorem entriesInto_leads (keeps : Keeps recur) {isEnum : Bool}
    (h : Awaits whole (.many [Plan.node .enumEntry, Plan.word ","] :: Plan.opt [Plan.node .enumEntry] :: p) m) :
    Leads scope (entriesInto recur isEnum m) b whole p :=
  .ite (fun _ => enumEntriesInto_leads keeps h) fun _ => .pure h.stop.right

theorem classBody_yields (keeps : Keeps recur) {isEnum : Bool} :
    Produces scope (classBody recur isEnum) b (Plan.nodesCell [.classBody]) := by
  refine .withTrailingLambdas (.bind (Awaits.new .classBody).expect fun _ _ on => ?_)
  refine .bind (.bind (entriesInto_leads keeps on) fun _ _ on => on.iterateWhile fun _ _ on _ => ?_) fun _ _ after =>
    .bind after.1.expect fun _ _ on => on.done rfl
  exact .recovering ((declarationOnly_yields keeps).mono fun _ _ fills => on.add fills)

end KotlinSyntax.Grammar
