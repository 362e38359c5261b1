import KotlinSyntax.Conversion.Type
import KotlinSyntax.Proofs.Record.Reading

/-! What the rules for types, modifiers, annotations and arguments record. -/
namespace KotlinSyntax.Conversion

open Node

attribute [local simp] arrange Kind.slots Slot.one Slot.optional Slot.many listed

theorem list_gives {k : Kind} {opening closing : String} {element : RawKind}
    (order : ∀ (ns : List Node) (comma : Option Node),
      arrange k (many .elements ns ++ opt .trailingComma comma) = many .elements ns ++ opt .trailingComma comma) :
    Gives ([·]) (list k opening closing element) := by
  intro o ns items
  refine .step (bracketed_gives part_gives) fun list items => ?_
  exact .finish (by simp) (order list.1 list.2)

theorem modifierList_gives : Gives ([·]) modifierList := by
  intro o ns items
  refine .step (whileSees_gives fun o ns items => ?_) fun elements items => ?_
  · exact .rest (.ite (fun _ => part_gives o ns items) fun _ => keywordOf_gives o ns items)
  · exact .finish (by simp) (by simp)

theorem annotationSet_gives : Gives ([·]) annotationSet := by
  intro o ns items
  refine .step keyword_gives fun sign items => .rest ?_
  refine .step (optional_gives keywordOf_gives) fun target items => ?_
  refine .step (optional_gives keyword_gives) fun colon items => ?_
  refine .step optionalKeyword_gives fun left items => ?_
  refine .step (whileSees_gives part_gives) fun entries items => ?_
  refine .step optionalKeyword_gives fun right items => ?_
  exact .finish (by simp) (by simp)

theorem annotationEntry_gives : Gives ([·]) annotationEntry := by
  intro o ns items
  refine .step part_gives fun type items => ?_
  refine .step optionalPart_gives fun args items => ?_
  exact .finish (by simp) (by simp)

/-- Parts in the fields that the kinds of grouped types have in this order. -/
theorem groupedType_tells {o : Owner} {ns : List Node} {items : List Item} :
    Tells groupedType o ns items fun parts ns' _ => ns' = ns ++ parts.map (·.2) ∧
      arrange .typeRef parts = parts ∧ arrange .nullableType parts = parts := by
  refine .step optionalKeyword_gives fun left items => ?_
  refine .step modifiers_gives fun mods items => ?_
  refine .step nextAs_gives fun type items => ?_
  refine .step optionalKeyword_gives fun right items => ?_
  exact .pure ⟨by simp, by simp, by simp⟩

theorem typeReference_gives : Gives ([·]) typeReference := by
  intro o ns items
  refine .bind groupedType_tells ?_
  rintro parts _ items ⟨rfl, order, -⟩
  exact .finish rfl order

theorem nullableType_gives : Gives ([·]) nullableType := by
  intro o ns items
  refine .bind groupedType_tells ?_
  rintro parts _ items ⟨rfl, -, order⟩
  refine .step token_gives fun _ items => ?_
  exact .finish (by simp) order

theorem typeQualifier_gives : Gives ([·]) typeQualifier := by
  intro o ns items
  refine .step name_gives fun n items => ?_
  refine .step optionalPart_gives fun args items => ?_
  exact .finish (by simp) (by simp)

theorem userType_gives : Gives ([·]) userType := by
  intro o ns items
  refine .step (whileSees_gives fun o ns items => ?_) fun qualifiers items => ?_
  · refine .step part_gives fun qualifier items => ?_
    refine .step token_gives fun _ items => .pure (by simp)
  refine .step name_gives fun n items => ?_
  refine .step optionalPart_gives fun args items => ?_
  exact .finish (by simp) (by simp)

theorem typeProjection_gives : Gives ([·]) typeProjection := by
  intro o ns items
  refine .step skipToken_gives fun star items => .ite (fun _ => ?_) fun _ => ?_
  · exact .finish (by simp) (by simp)
  · refine .step modifiers_gives fun mods items => ?_
    refine .step part_gives fun type items => ?_
    exact .finish (by simp) (by simp)

theorem contextReceiverList_gives : Gives ([·]) contextReceiverList := by
  intro o ns items
  refine .step token_gives fun _ items => ?_
  rw [List.append_nil]
  exact list_gives (by simp) o ns items

theorem contextReceiver_gives : Gives ([·]) contextReceiver := by
  intro o ns items
  refine .step part_gives fun type items => ?_
  exact .finish (by simp) (by simp)

theorem functionTypeReceiver_gives : Gives ([·]) functionTypeReceiver := by
  intro o ns items
  refine .step part_gives fun type items => ?_
  refine .step token_gives fun _ items => ?_
  exact .finish (by simp) (by simp)

theorem functionTypeParameter_gives : Gives ([·]) functionTypeParameter := by
  intro o ns items
  refine .rest (.step (optional_gives name_gives) fun n items => ?_)
  refine .step tokenIf_gives fun _ items => ?_
  refine .step part_gives fun type items => ?_
  exact .finish (by simp) (by simp)

theorem functionType_gives : Gives ([·]) functionType := by
  intro o ns items
  refine .step optionalPart_gives fun contexts items => ?_
  refine .step optionalPart_gives fun receiver items => ?_
  refine .step part_gives fun params items => ?_
  refine .step token_gives fun _ items => ?_
  refine .step part_gives fun result items => ?_
  exact .finish (by simp) (by simp)

theorem valueArgument_gives : Gives ([·]) valueArgument := by
  intro o ns items
  refine .rest (.step (optional_gives name_gives) fun n items => ?_)
  refine .step tokenIf_gives fun _ items => ?_
  refine .step skipToken_gives fun spread items => ?_
  refine .step nextAs_gives fun e items => ?_
  exact .finish (by simp) (by simp)

theorem typeParameter_gives : Gives ([·]) typeParameter := by
  intro o ns items
  refine .step modifiers_gives fun mods items => ?_
  refine .step name_gives fun n items => ?_
  refine .step optionalType_gives fun type items => ?_
  exact .finish (by simp) (by simp)

theorem typeConstraintSet_gives : Gives ([·]) typeConstraintSet := by
  intro o ns items
  refine .step keyword_gives fun word items => ?_
  refine .bind node_tells ?_
  rintro constraints _ items ⟨rfl, recorded⟩
  refine .step close_gives fun _ items => ?_
  refine .bind (.convert recorded) ?_
  rintro list _ items rfl
  exact .build _ (by simp) (by simp)

/-- The node has no field for a comma at the end, so there must be none. -/
theorem typeConstraintList_tells {o : Owner} {ns : List Node} {items : List Item}
    (last : ∀ i ∈ items.getLast?, i.origin.element.spells "," = false) :
    Tells typeConstraintList o ns items fun n ns' _ => ns' = ns ++ [n] := by
  refine .bind (separated_undangling part_gives last) ?_
  rintro list _ items rfl
  exact .finish (by simp) (by simp)

theorem typeConstraint_gives : Gives ([·]) typeConstraint := by
  intro o ns items
  refine .step annotationSets_gives fun sets items => ?_
  refine .step name_gives fun n items => ?_
  refine .step token_gives fun _ items => ?_
  refine .step part_gives fun type items => ?_
  exact .finish (by simp) (by simp)

end KotlinSyntax.Conversion
