import KotlinSyntax.Conversion.Expression
import KotlinSyntax.Proofs.Record.Declaration

/-! What the rules for expressions and statements record. -/
namespace KotlinSyntax.Conversion

open Node

attribute [local simp] arrange Kind.slots Slot.one Slot.optional Slot.many listed

theorem block_gives : Gives ([·]) block := by
  intro o ns items
  refine .step token_gives fun _ items => ?_
  refine .step (whileSees_gives nextAs_gives) fun statements items => ?_
  refine .step token_gives fun _ items => ?_
  exact .finish (by simp) (by simp)

theorem ifExpression_gives : Gives ([·]) ifExpression := by
  intro o ns items
  refine .step keyword_gives fun word items => ?_
  refine .step token_gives fun _ items => ?_
  refine .step nextAs_gives fun condition items => ?_
  refine .step token_gives fun _ items => ?_
  refine .step container_gives fun body items => ?_
  refine .step skipToken_gives fun _ items => ?_
  refine .step (optional_gives container_gives) fun otherwise items => ?_
  exact .finish (by simp) (by simp)

theorem tryExpression_gives : Gives ([·]) tryExpression := by
  intro o ns items
  refine .step token_gives fun _ items => ?_
  refine .step part_gives fun block items => ?_
  refine .step (whileSees_gives part_gives) fun clauses items => ?_
  refine .step skipToken_gives fun _ items => ?_
  refine .step (optional_gives part_gives) fun last items => ?_
  exact .finish (by simp) (by simp)

theorem catchClause_gives : Gives ([·]) catchClause := by
  intro o ns items
  refine .step keyword_gives fun word items => ?_
  refine .step part_gives fun params items => ?_
  refine .step part_gives fun block items => ?_
  exact .finish (by simp) (by simp)

theorem forLoop_gives : Gives ([·]) forLoop := by
  intro o ns items
  refine .step keyword_gives fun word items => ?_
  refine .step token_gives fun _ items => ?_
  refine .step part_gives fun param items => ?_
  refine .step token_gives fun _ items => ?_
  refine .step container_gives fun range items => ?_
  refine .step token_gives fun _ items => ?_
  refine .step container_gives fun body items => ?_
  exact .finish (by simp) (by simp)

theorem whileLoop_gives : Gives ([·]) whileLoop := by
  intro o ns items
  refine .step keyword_gives fun word items => ?_
  refine .step token_gives fun _ items => ?_
  refine .step container_gives fun condition items => ?_
  refine .step token_gives fun _ items => ?_
  refine .step container_gives fun body items => ?_
  exact .finish (by simp) (by simp)

theorem doWhileLoop_gives : Gives ([·]) doWhileLoop := by
  intro o ns items
  refine .step token_gives fun _ items => ?_
  refine .step container_gives fun body items => ?_
  refine .step keyword_gives fun word items => ?_
  refine .step token_gives fun _ items => ?_
  refine .step container_gives fun condition items => ?_
  refine .step token_gives fun _ items => ?_
  exact .finish (by simp) (by simp)

theorem operation_gives {k : Kind} {operator rhs : Reading Node} (first : Gives ([·]) operator)
    (second : Gives ([·]) rhs)
    (order : ∀ l o r, arrange k (one .lhs l ++ one .operator o ++ one .rhs r) =
      one .lhs l ++ one .operator o ++ one .rhs r) : Gives ([·]) (operation k operator rhs) := by
  intro o ns items
  refine .step nextAs_gives fun l items => ?_
  refine .step first fun sign items => ?_
  refine .step second fun r items => ?_
  exact .finish (by simp) (order l sign r)

theorem prefixExpression_gives : Gives ([·]) prefixExpression := by
  intro o ns items
  refine .step keywordOf_gives fun sign items => ?_
  refine .step nextAs_gives fun e items => ?_
  exact .finish (by simp) (by simp)

theorem postfixExpression_gives : Gives ([·]) postfixExpression := by
  intro o ns items
  refine .step nextAs_gives fun e items => ?_
  refine .step keywordOf_gives fun sign items => ?_
  exact .finish (by simp) (by simp)

theorem receiver_gives : Gives ([·]) receiver := by
  intro o ns items
  refine .rest (.ite (fun _ => ?_) fun _ => ?_)
  · refine .step part_gives fun type items => ?_
    exact .implied _ (by simp) (by simp)
  · refine .step nextAs_gives fun e items => ?_
    exact .implied _ (by simp) (by simp)

theorem beforeColons_gives : Gives Option.toList beforeColons := by
  intro o ns items
  refine .rest (.step (optional_gives receiver_gives) fun lhs items => ?_)
  refine .step token_gives fun _ items => .pure ?_
  simp

theorem callableReference_gives : Gives ([·]) callableReference := by
  intro o ns items
  refine .step beforeColons_gives fun lhs items => ?_
  refine .step name_gives fun rhs items => ?_
  exact .finish (by simp) (by simp)

theorem classLiteral_gives : Gives ([·]) classLiteral := by
  intro o ns items
  refine .step beforeColons_gives fun lhs items => ?_
  refine .step token_gives fun _ items => ?_
  exact .finish (by simp) (by simp)

theorem parenthesized_gives : Gives ([·]) parenthesized := by
  intro o ns items
  refine .step token_gives fun _ items => ?_
  refine .step nextAs_gives fun e items => ?_
  refine .step token_gives fun _ items => ?_
  exact .finish (by simp) (by simp)

theorem stringTemplate_gives : Gives ([·]) stringTemplate := by
  intro o ns items
  refine .step anyToken_gives fun opening items => ?_
  refine .step (whileSees_gives nextAs_gives) fun entries items => ?_
  refine .step anyToken_gives fun _ items => ?_
  exact .finish (by simp) (by simp)

theorem template_gives : Gives ([·]) template := by
  intro o ns items
  refine .read (.step token_gives fun _ items => ?_)
  refine .step nextAs_gives fun e items => ?_
  refine .step tokenIf_gives fun _ items => ?_
  exact .finish (by simp) (by simp)

/-- Parameters that wait already, or implied ones in their place. -/
theorem arrowParameters_tells {arrow : Bool} {params : Option Node} {o : Owner} {ns : List Node} {items : List Item} :
    Tells (arrowParameters arrow params) o (ns ++ params.toList) items fun params' ns' _ =>
      ns' = ns ++ params'.toList := by
  refine .ite (fun implied => ?_) fun _ => .pure rfl
  have none : params = none := by
    simp only [Bool.and_eq_true, Option.isNone_iff_eq_none] at implied
    exact implied.2
  refine .map (.mono (.implied ns (by simp [none]) rfl) ?_)
  rintro n _ _ rfl
  rfl

theorem lambda_gives : Gives ([·]) lambda := by
  intro o ns items
  refine .step token_gives fun _ items => ?_
  refine .step optionalPart_gives fun params items => ?_
  refine .step skipToken_gives fun arrow items => ?_
  simp only [List.append_nil]
  refine .bind arrowParameters_tells ?_
  rintro params' _ items rfl
  refine .step optionalPart_gives fun body items => ?_
  refine .step token_gives fun _ items => ?_
  exact .finish (by simp) (by simp)

theorem lambdaParameterList_gives : Gives ([·]) lambdaParameterList := by
  intro o ns items
  refine .step (separated_gives part_gives) fun list items => ?_
  exact .finish (by simp) (by simp)

theorem lambdaParameter_gives : Gives ([·]) lambdaParameter := by
  intro o ns items
  refine .step optionalKeyword_gives fun left items => ?_
  cases left with
  | some left =>
    refine .step (separated_gives part_gives) fun list items => ?_
    refine .step keyword_gives fun right items => ?_
    refine .step optionalKeyword_gives fun colon items => ?_
    refine .step (optional_gives part_gives) fun type items => ?_
    exact .finish (by simp) (by simp)
  | none =>
    refine .step part_gives fun binding items => ?_
    exact .finish (by simp) (by simp)

theorem lambdaParameterVariable_gives : Gives ([·]) lambdaParameterVariable := by
  intro o ns items
  refine .step modifiers_gives fun mods items => ?_
  refine .step name_gives fun n items => ?_
  refine .step optionalType_gives fun type items => ?_
  exact .finish (by simp) (by simp)

theorem lambdaBody_gives : Gives ([·]) lambdaBody := by
  intro o ns items
  refine .step (whileSees_gives nextAs_gives) fun statements items => ?_
  exact .build _ (by simp) (by simp)

theorem thisExpression_gives : Gives ([·]) thisExpression := by
  intro o ns items
  refine .step token_gives fun _ items => ?_
  refine .step label_gives fun label items => ?_
  exact .finish (by simp) (by simp)

theorem superBound_gives : Gives ([·]) superBound := by
  intro o ns items
  refine .step part_gives fun type items => ?_
  refine .step token_gives fun _ items => .pure ?_
  simp

theorem superExpression_gives : Gives ([·]) superExpression := by
  intro o ns items
  refine .step token_gives fun _ items => ?_
  refine .step skipToken_gives fun _ items => ?_
  refine .step (optional_gives superBound_gives) fun type items => ?_
  refine .step label_gives fun label items => ?_
  exact .finish (by simp) (by simp)

def IsSubject (parts : List (Field × Node)) : Prop :=
  ∃ left e right, parts = opt .lPar left ++ opt .expression e ++ opt .rPar right

theorem whenSubject_tells {o : Owner} {ns : List Node} {items : List Item} :
    Tells whenSubject o ns items fun parts ns' _ => ns' = ns ++ parts.map (·.2) ∧ IsSubject parts := by
  refine .step optionalKeyword_gives fun left items => ?_
  cases left with
  | none => exact .pure ⟨by simp, none, none, none, rfl⟩
  | some left =>
    refine .step nextAs_gives fun e items => ?_
    refine .step keyword_gives fun right items => ?_
    exact .pure ⟨by simp, some left, some e, some right, rfl⟩

theorem whenExpression_gives : Gives ([·]) whenExpression := by
  intro o ns items
  refine .step keyword_gives fun word items => ?_
  refine .bind whenSubject_tells ?_
  rintro _ _ items ⟨rfl, left, e, right, rfl⟩
  refine .step token_gives fun _ items => ?_
  refine .step (whileSees_gives part_gives) fun branches items => ?_
  refine .step token_gives fun _ items => ?_
  exact .finish (by simp) (by simp)

theorem whenConditions_tells {otherwise : Option Node} {o : Owner} {ns : List Node} {items : List Item} :
    Tells (whenConditions otherwise.isSome) o (ns ++ otherwise.toList) items fun list ns' _ =>
      ns' = ns ++ listed list ++ otherwise.toList := by
  cases otherwise with
  | some word => exact .pure (by simp)
  | none =>
    refine (separated_gives part_gives o _ items).mono ?_
    rintro list _ _ rfl
    simp

theorem whenEntry_gives : Gives ([·]) whenEntry := by
  intro o ns items
  refine .step optionalKeyword_gives fun otherwise items => ?_
  refine .bind whenConditions_tells ?_
  rintro list _ items rfl
  refine .step token_gives fun _ items => ?_
  refine .step nextAs_gives fun body items => ?_
  exact .finish (by simp) (by simp)

theorem whenCondition_gives : Gives ([·]) whenCondition := by
  intro o ns items
  refine .rest (.step (optional_gives keywordOf_gives) fun operator items => .ite (fun _ => ?_) fun _ => ?_)
  · refine .step part_gives fun type items => ?_
    exact .finish (by simp) (by simp)
  · refine .step nextAs_gives fun e items => ?_
    exact .finish (by simp) (by simp)

theorem throwExpression_gives : Gives ([·]) throwExpression := by
  intro o ns items
  refine .step anyToken_gives fun _ items => ?_
  refine .step nextAs_gives fun e items => ?_
  exact .finish (by simp) (by simp)

theorem returnExpression_gives : Gives ([·]) returnExpression := by
  intro o ns items
  refine .step anyToken_gives fun _ items => ?_
  refine .step label_gives fun label items => .rest ?_
  refine .step (optional_gives nextAs_gives) fun e items => ?_
  exact .finish (by simp) (by simp)

theorem loopJump_gives {k : Kind} (order : ∀ label, arrange k (opt .label label) = opt .label label) :
    Gives ([·]) (loopJump k) := by
  intro o ns items
  refine .step anyToken_gives fun _ items => ?_
  refine .step label_gives fun label items => ?_
  exact .finish (by simp) (order label)

theorem collectionLiteral_gives : Gives ([·]) collectionLiteral := by
  intro o ns items
  refine .step (bracketed_gives nextAs_gives) fun list items => ?_
  exact .finish (by simp) (by simp)

theorem labeledExpression_gives : Gives ([·]) labeledExpression := by
  intro o ns items
  refine .step name_gives fun label items => ?_
  refine .step token_gives fun _ items => ?_
  refine .step nextAs_gives fun e items => ?_
  exact .finish (by simp) (by simp)

theorem annotatedExpression_gives : Gives ([·]) annotatedExpression := by
  intro o ns items
  refine .step annotationSets_gives fun sets items => ?_
  refine .step nextAs_gives fun e items => ?_
  exact .finish (by simp) (by simp)

theorem callExpression_gives : Gives ([·]) callExpression := by
  intro o ns items
  refine .step nextAs_gives fun e items => ?_
  refine .step optionalPart_gives fun typeArgs items => ?_
  refine .step optionalPart_gives fun args items => ?_
  refine .step optionalPart_gives fun lambda items => ?_
  exact .finish (by simp) (by simp)

theorem lambdaArgument_gives : Gives ([·]) lambdaArgument := by
  intro o ns items
  refine .step annotationSets_gives fun sets items => .rest ?_
  refine .step (optional_gives name_gives) fun label items => ?_
  refine .step tokenIf_gives fun _ items => ?_
  refine .step part_gives fun e items => ?_
  exact .finish (by simp) (by simp)

theorem arrayAccess_gives : Gives ([·]) arrayAccess := by
  intro o ns items
  refine .step nextAs_gives fun e items => ?_
  refine .step (bracketed_gives nextAs_gives) fun list items => ?_
  exact .finish (by simp) (by simp)

theorem wrapped_gives {k : Kind} {f : Field} {rule : Reading Node} (h : Gives ([·]) rule)
    (order : ∀ n, arrange k (one f n) = one f n) : Gives ([·]) (wrapped k f rule) := by
  intro o ns items
  refine .step h fun n items => ?_
  exact .build _ rfl (order n)

end KotlinSyntax.Conversion
