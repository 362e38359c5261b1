import KotlinSyntax.Conversion.Declaration
import KotlinSyntax.Proofs.Record.Type

/-! What the rules for files and declarations record. -/
namespace KotlinSyntax.Conversion

open Node

attribute [local simp] arrange Kind.slots Slot.one Slot.optional Slot.many listed

def IsHeader (head : List (Field × Node)) : Prop :=
  ∃ sets package imports,
    head = many .annotationSets sets ++ opt .packageDirective package ++ opt .importDirectives imports

theorem header_tells {o : Owner} {ns : List Node} {items : List Item} :
    Tells header o ns items fun head ns' _ => ns' = ns ++ head.map (·.2) ∧ IsHeader head := by
  refine .step annotationSets_gives fun sets items => ?_
  refine .step optionalPart_gives fun package items => ?_
  refine .step optionalPart_gives fun imports items => ?_
  exact .pure ⟨by simp, sets, package, imports, rfl⟩

theorem file_gives : Gives ([·]) file := by
  intro o ns items
  refine .bind header_tells ?_
  rintro _ _ items ⟨rfl, sets, package, imports, rfl⟩
  refine .step (whileSees_gives nextAs_gives) fun declarations items => ?_
  exact .build _ (by simp) (by simp)

theorem script_gives : Gives ([·]) script := by
  intro o ns items
  refine .bind header_tells ?_
  rintro _ _ items ⟨rfl, sets, package, imports, rfl⟩
  refine .step (whileSees_gives nextAs_gives) fun statements items => ?_
  exact .build _ (by simp) (by simp)

/-- A rule behind a token. -/
theorem behind_gives {text : String} {rule : Reading Node} (h : Gives ([·]) rule) :
    Gives ([·]) (do let _ ← token text; rule) := by
  intro o ns items
  refine .step token_gives fun _ items => ?_
  rw [List.append_nil]
  exact h o ns items

theorem packageDirective_gives : Gives ([·]) packageDirective := by
  intro o ns items
  refine .step keyword_gives fun word items => ?_
  refine .step name_gives fun first items => ?_
  refine .step (whileSees_gives (behind_gives name_gives)) fun others items => ?_
  exact .finish (by simp) (by simp)

theorem importList_gives : Gives ([·]) importList := by
  intro o ns items
  refine .step (whileSees_gives part_gives) fun elements items => ?_
  exact .build _ (by simp) (by simp)

theorem importDirective_gives : Gives ([·]) importDirective := by
  intro o ns items
  refine .step keyword_gives fun word items => ?_
  refine .step name_gives fun first items => ?_
  refine .step (whileSees_gives (behind_gives name_gives)) fun others items => ?_
  refine .step skipToken_gives fun wildcard items => ?_
  refine .step tokenIf_gives fun _ items => ?_
  refine .step optionalPart_gives fun aliased items => ?_
  exact .finish (by simp) (by simp)

theorem importAlias_gives : Gives ([·]) importAlias := by
  intro o ns items
  refine .step token_gives fun _ items => ?_
  refine .step name_gives fun n items => ?_
  exact .finish (by simp) (by simp)

theorem classDeclaration_gives : Gives ([·]) classDeclaration := by
  intro o ns items
  refine .step modifiers_gives fun mods items => ?_
  refine .step keywordOf_gives fun word items => ?_
  refine .step optionalName_gives fun n items => ?_
  refine .step optionalPart_gives fun params items => ?_
  refine .step optionalPart_gives fun primary items => ?_
  refine .step optionalPart_gives fun parents items => ?_
  refine .step optionalPart_gives fun constraints items => ?_
  refine .step optionalPart_gives fun body items => ?_
  exact .finish (by simp) (by simp)

theorem primaryConstructor_gives : Gives ([·]) primaryConstructor := by
  intro o ns items
  refine .step modifiers_gives fun mods items => ?_
  refine .step optionalKeyword_gives fun word items => ?_
  refine .step part_gives fun params items => ?_
  refine .bind (.build ns (by simp) (by simp)) ?_
  rintro n _ items rfl
  refine .step close_gives fun _ items => .pure ?_
  simp

theorem superTypeList_gives : Gives ([·]) superTypeList := by
  intro o ns items
  refine .step token_gives fun _ items => ?_
  refine .step nextAs_gives fun first items => ?_
  refine .step (whileSees_gives (behind_gives nextAs_gives)) fun others items => ?_
  exact .finish (by simp) (by simp)

theorem classParent_gives : Gives ([·]) classParent := by
  intro o ns items
  refine .step part_gives fun type items => .read ?_
  split
  · refine .step part_gives fun args items => ?_
    exact .finish (by simp) (by simp)
  · refine .step keyword_gives fun word items => ?_
    refine .step nextAs_gives fun e items => ?_
    exact .finish (by simp) (by simp)
  · exact .finish (by simp) (by simp)
  · exact .mismatch

theorem classBody_gives : Gives ([·]) classBody := by
  intro o ns items
  refine .step token_gives fun _ items => ?_
  refine .step (whileSees_gives fun o ns items => ?_) fun entries items => ?_
  · refine .step part_gives fun entry items => ?_
    refine .step skipToken_gives fun _ items => .pure (by simp)
  refine .step (whileSees_gives nextAs_gives) fun declarations items => ?_
  refine .step token_gives fun _ items => ?_
  exact .finish (by simp) (by simp)

theorem enumEntry_gives : Gives ([·]) enumEntry := by
  intro o ns items
  refine .step modifiers_gives fun mods items => ?_
  refine .step name_gives fun n items => ?_
  refine .step optionalPart_gives fun args items => ?_
  refine .step optionalPart_gives fun body items => ?_
  exact .finish (by simp) (by simp)

theorem classInitializer_gives : Gives ([·]) classInitializer := by
  intro o ns items
  refine .step modifiers_gives fun mods items => ?_
  refine .step token_gives fun _ items => ?_
  refine .step part_gives fun block items => ?_
  exact .finish (by simp) (by simp)

theorem secondaryConstructor_gives : Gives ([·]) secondaryConstructor := by
  intro o ns items
  refine .step modifiers_gives fun mods items => ?_
  refine .step keyword_gives fun word items => ?_
  refine .step part_gives fun params items => ?_
  refine .step skipToken_gives fun _ items => ?_
  refine .step (optional_gives part_gives) fun call items => ?_
  refine .step optionalPart_gives fun block items => ?_
  exact .finish (by simp) (by simp)

theorem delegationCall_gives : Gives ([·]) delegationCall := by
  intro o ns items
  refine .step keywordOf_gives fun target items => ?_
  refine .step part_gives fun args items => ?_
  exact .finish (by simp) (by simp)

theorem receiverType_gives : Gives Option.toList receiverType := by
  intro o ns items
  refine .step optionalPart_gives fun type items => ?_
  cases type with
  | none => exact .pure rfl
  | some type => exact .step token_gives fun _ items => .pure (by simp)

def IsBody (parts : List (Field × Node)) : Prop := ∃ equals body, parts = opt .equals equals ++ opt .body body

theorem body_tells {o : Owner} {ns : List Node} {items : List Item} :
    Tells body o ns items fun parts ns' _ => ns' = ns ++ parts.map (·.2) ∧ IsBody parts := by
  refine .step optionalKeyword_gives fun equals items => ?_
  cases equals with
  | none =>
    refine .step optionalPart_gives fun block items => ?_
    exact .pure ⟨by simp, none, block, rfl⟩
  | some equals =>
    refine .step nextAs_gives fun e items => ?_
    exact .pure ⟨by simp, some equals, some e, rfl⟩

theorem function_gives : Gives ([·]) function := by
  intro o ns items
  refine .step modifiers_gives fun mods items => ?_
  refine .step keyword_gives fun word items => ?_
  refine .step optionalPart_gives fun typeParams items => ?_
  refine .step receiverType_gives fun receiver items => ?_
  refine .step optionalName_gives fun n items => ?_
  refine .step optionalPart_gives fun params items => ?_
  refine .step optionalType_gives fun type items => ?_
  refine .step (whileSees_gives nextAs_gives) fun posts items => ?_
  refine .bind body_tells ?_
  rintro _ _ items ⟨rfl, equals, body, rfl⟩
  exact .finish (by simp) (by simp)

theorem contract_gives : Gives ([·]) contract := by
  intro o ns items
  refine .step keyword_gives fun word items => ?_
  refine .bind node_tells ?_
  rintro effects _ items ⟨rfl, recorded⟩
  refine .step close_gives fun _ items => ?_
  refine .bind (.convert recorded) ?_
  rintro list _ items rfl
  exact .build _ (by simp) (by simp)

theorem contractEffect_gives : Gives ([·]) contractEffect := by
  intro o ns items
  refine .step nextAs_gives fun e items => ?_
  exact .finish (by simp) (by simp)

theorem valueParameter_gives : Gives ([·]) valueParameter := by
  intro o ns items
  refine .step modifiers_gives fun mods items => .rest ?_
  refine .step (optional_gives keywordOf_gives) fun word items => ?_
  refine .step name_gives fun n items => ?_
  refine .step optionalType_gives fun type items => ?_
  refine .step optionalKeyword_gives fun equals items => ?_
  refine .step (optional_gives nextAs_gives) fun value items => ?_
  exact .finish (by simp) (by simp)

theorem refuseSingle_gives {p : Owner} : Gives (fun _ => []) (liftM (refuseSingle p) : Reading Unit) := by
  intro o ns items
  refine (Tells.lift (P := fun _ ns' => ns' = ns) ?_).mono fun _ _ _ holds => holds.1.trans (List.append_nil ns).symm
  intro s₀ s waiting
  cases single : (p.children.filter fun e => nodeKind? e == some .destructuringEntry).length == 1 with
  | true =>
    rw [refuseSingle, if_pos single]
    trivial
  | false =>
    rw [refuseSingle, if_neg (by simp [single])]
    exact ⟨ns, waiting, rfl⟩

def IsBindings (parts : List (Field × Node)) : Prop :=
  ∃ left bindings comma right,
    parts = opt .lPar left ++ many .bindings bindings ++ opt .trailingComma comma ++ opt .rPar right

theorem bindings_tells {o : Owner} {ns : List Node} {items : List Item} :
    Tells bindings o ns items fun parts ns' _ => ns' = ns ++ parts.map (·.2) ∧ IsBindings parts := by
  refine .rest (.ite (fun _ => .read ?_) fun _ => ?_)
  · refine .step refuseSingle_gives fun _ items => ?_
    refine .step keyword_gives fun left items => ?_
    refine .step (separated_gives part_gives) fun list items => ?_
    refine .step keyword_gives fun right items => ?_
    exact .pure ⟨by simp, some left, list.1, list.2, some right, rfl⟩
  · refine .step name_gives fun n items => ?_
    refine .step optionalType_gives fun type items => ?_
    refine .bind (.implied ns (by simp) (by simp)) ?_
    rintro binding _ items rfl
    exact .pure ⟨by simp, none, [binding], none, none, by simp [one, opt, many]⟩

theorem property_gives : Gives ([·]) property := by
  intro o ns items
  refine .step modifiers_gives fun mods items => ?_
  refine .step keywordOf_gives fun word items => ?_
  refine .step optionalPart_gives fun typeParams items => ?_
  refine .step receiverType_gives fun receiver items => ?_
  refine .bind bindings_tells ?_
  rintro _ _ items ⟨rfl, left, bindings, comma, right, rfl⟩
  refine .step optionalPart_gives fun constraints items => ?_
  refine .step optionalKeyword_gives fun equals items => ?_
  refine .step (optional_gives nextAs_gives) fun value items => ?_
  refine .step optionalPart_gives fun delegate items => ?_
  refine .step (whileSees_gives nextAs_gives) fun accessors items => ?_
  exact .finish (by simp) (by simp)

theorem destructuringEntry_gives : Gives ([·]) destructuringEntry := by
  intro o ns items
  refine .step name_gives fun n items => ?_
  refine .step optionalType_gives fun type items => ?_
  exact .finish (by simp) (by simp)

theorem propertyDelegate_gives : Gives ([·]) propertyDelegate := by
  intro o ns items
  refine .step keyword_gives fun word items => ?_
  refine .step nextAs_gives fun e items => ?_
  exact .finish (by simp) (by simp)

theorem propertyGetter_gives : Gives ([·]) propertyGetter := by
  intro o ns items
  refine .step modifiers_gives fun mods items => ?_
  refine .step keyword_gives fun word items => ?_
  refine .step optionalKeyword_gives fun left items => ?_
  refine .step optionalKeyword_gives fun right items => ?_
  refine .step optionalType_gives fun type items => ?_
  refine .bind body_tells ?_
  rintro _ _ items ⟨rfl, equals, body, rfl⟩
  exact .finish (by simp) (by simp)

theorem propertySetter_gives : Gives ([·]) propertySetter := by
  intro o ns items
  refine .step modifiers_gives fun mods items => ?_
  refine .step keyword_gives fun word items => ?_
  refine .step optionalPart_gives fun params items => ?_
  refine .bind body_tells ?_
  rintro _ _ items ⟨rfl, equals, body, rfl⟩
  exact .finish (by simp) (by simp)

theorem typeAlias_gives : Gives ([·]) typeAlias := by
  intro o ns items
  refine .step modifiers_gives fun mods items => ?_
  refine .step token_gives fun _ items => ?_
  refine .step name_gives fun n items => ?_
  refine .step optionalPart_gives fun params items => ?_
  refine .step token_gives fun _ items => ?_
  refine .step part_gives fun type items => ?_
  exact .finish (by simp) (by simp)

end KotlinSyntax.Conversion
