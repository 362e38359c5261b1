import KotlinSyntax.Grammar.Expression
import KotlinSyntax.Proofs.Twin.Control

/-! Expressions by level, and statements, over twin sources. -/
namespace KotlinSyntax.Grammar

variable {w : Twins} {recur : Recur}

/-- A turn that takes an operator, in pieces or not, and the operand behind it. -/
theorem operation_like {b c : Builder} {ops : List String} {p q : Parsed} {operand : Grammar Parsed} {kind : RawKind}
    (at_ : b.Alike w c) (lhs : p.Alike q) (stands : 0 < b.operatorsCount ops) (steady : Steady w operand) :
    LikeAt w (Turn.Alike Parsed.Alike) b c
      (do let m ← advanceGlued (.ofParsed p) (b.operatorsCount ops)
          return .again (← done (m.add (← operand)) kind))
      (do let m ← advanceGlued (.ofParsed q) (c.operatorsCount ops)
          return .again (← done (m.add (← operand)) kind)) := by
  refine .bind (.advanceGlued at_ lhs stands) fun h place => ?_
  exact Like.bind steady (fun rhs => .bind (.done (h.add rhs) _ _) fun p => .pure (.again p)) place

theorem binaryLevel_steady {operand : Grammar Parsed} (steady : Steady w operand) (ops : List String)
    (crossesNewline : Bool) : Steady w (binaryLevel ops crossesNewline operand) := by
  refine .bind steady fun first => .iterate first fun lhs => .lookAt fun at_ => .ite ?_ ?_ ?_
  · simp only [at_.operatorsCount, at_.semicolonBefore, at_.newlineBefore]
  · intro _
    exact Like.pure (.stop lhs) at_
  · intro goesOn
    simp only [Bool.or_eq_false_iff, decide_eq_false_iff_not] at goesOn
    exact operation_like at_ lhs (Nat.pos_of_ne_zero goesOn.1.1) steady

theorem memberName_steady : Steady w memberName :=
  .look fun at_ => .ite (at_.seesName 0) .token (.reject _)

theorem nullableLiteral_steady {p q : Parsed} (receiver : p.Alike q) :
    Like w Parsed.Alike (nullableLiteral p) (nullableLiteral q) := by
  refine .bind (.advanceTwice receiver) fun h => .bind (.advanceIf h fun at_ => ?_) fun h => .done h _ _
  rw [at_.sees, at_.seesName]

variable (recurs : ∀ r, Steady w (recur r))

include recurs

/-! Calls. -/

theorem atLambdaArgument_like : Like w Eq (atLambdaArgument recur) (atLambdaArgument recur) := by
  refine .look fun at_ => .ite (at_.sees openBrace 0) (.pure rfl) (.ite ?_ (.pure (at_.sees openBrace 2)) ?_)
  · rw [at_.seesName, at_.sees, at_.adjacent]
  · refine .ite (at_.sees "@" 0) (.lookahead ?_) (.pure rfl)
    refine .bind (annotationSetsInto_carries recurs .start) fun _ => .look fun at_ => ?_
    exact .ite (by rw [at_.sees]) (.reject _) (.pure rfl)

theorem lambdaArgument_steady : Steady w (lambdaArgument recur) := by
  refine .bind (annotationSetsInto_carries recurs .start) fun h => ?_
  refine .bind (.advanceTwiceIf h fun at_ => at_.seesName 0) fun h => ?_
  exact .bind (lambda_steady recurs) fun lambda => .done (h.add lambda) _ _

theorem callTypeArguments_steady : SteadyOpt w (callTypeArguments recur) := by
  refine .look fun at_ => .ite (at_.sees "<" 0) (.speculate ?_) (.pure .none)
  refine .bind (typeArguments_steady recurs) fun args => .look fun at_ => .ite ?_ (.pure args) (.reject _)
  rw [at_.newlineBefore, at_.seesAny]

theorem trailingLambda_steady (hasArguments : Bool) : SteadyOpt w (trailingLambda recur hasArguments) := by
  refine .look fun at_ => .surroundings fun scope => .ite ?_ ?_ (.pure .none)
  · rw [at_.semicolonBefore, at_.newlineBefore]
  · refine .bind (atLambdaArgument_like recurs) fun same => .ite same ?_ (.pure .none)
    exact .some (lambdaArgument_steady recurs)

theorem callArguments_steady : SteadyOpt w (callArguments recur) := by
  refine .look fun at_ => .ite ?_ (.some (valueArguments_steady recurs)) (.pure .none)
  rw [at_.sees, at_.separatedBefore]

theorem callTurn_like {p q : Parsed} (callee : p.Alike q) :
    Like w (Turn.Alike Parsed.Alike) (callTurn recur p) (callTurn recur q) := by
  have suffix : Like w (Option.Rel Parsed.Alike) (callSuffix recur p) (callSuffix recur q) := by
    refine .look fun at_ => .ite at_.separatedBefore (.pure .none) ?_
    refine .bind (callTypeArguments_steady recurs) fun typeArgs => .bind (callArguments_steady recurs) fun args => ?_
    rw [isSome_of_rel args]
    refine .bind (trailingLambda_steady recurs _) fun lambda => .ite ?_ (.pure .none) ?_
    · simp only [← Option.not_isSome, isSome_of_rel typeArgs, isSome_of_rel args, isSome_of_rel lambda]
    · exact .some (.done (((Marker.Alike.add? callee typeArgs).add? args).add? lambda) _ _)
  refine .bind suffix fun found => ?_
  cases found with
  | none => exact .pure (.stop callee)
  | some call => exact .pure (.again call)

theorem memberSelector_steady : Steady w (memberSelector recur) := by
  refine .bind memberName_steady fun name => .iterate name fun p => .look fun at_ => ?_
  exact .ite at_.semicolonBefore (.pure (.stop p)) (callTurn_like recurs p)

theorem arrayAccess_steady {p q : Parsed} (target : p.Alike q) :
    Like w Parsed.Alike (arrayAccess recur p) (arrayAccess recur q) := by
  refine .withTrailingLambdas _ (.bind (.advance target) fun h => .bind (.commaList h _ (recurs _)) fun h => ?_)
  exact .bind (.expect h _) fun h => .done h _ _

theorem postfixTurn_like {p q : Parsed} (h : p.Alike q) :
    Like w (Turn.Alike Parsed.Alike) (postfixTurn recur p) (postfixTurn recur q) := by
  refine .look fun at_ => .ite (at_.seesAny _) ?_ (.ite (at_.sees "[" 0) ?_ (.ite (at_.sees "::" 0) ?_ (.ite ?_ ?_ ?_)))
  · exact .bind (.advance h) fun h => .bind (.done h _ _) fun p => .pure (.again p)
  · exact .bind (arrayAccess_steady recurs h) fun p => .pure (.again p)
  · exact .bind (callableReference_closes h) fun p => .pure (.again p)
  · rw [at_.sees, at_.adjacent, at_.sees]
  · exact .bind (nullableLiteral_steady h) fun p => .pure (.again p)
  · exact callTurn_like recurs h

theorem postfixChain_steady : Steady w (postfixChain recur) := by
  refine .bind (primary_steady recurs) fun first => .iterate first fun lhs => .lookAt fun {b c} at_ => ?_
  refine .ite at_.semicolonBefore (fun _ => Like.pure (.stop lhs) at_) fun _ => ?_
  by_cases stands : 0 < b.operatorsCount ["?.", "."]
  · have stands' : 0 < c.operatorsCount ["?.", "."] := at_.operatorsCount _ ▸ stands
    rw [if_pos stands, if_pos stands']
    exact operation_like at_ lhs stands (memberSelector_steady recurs)
  · have stands' : ¬ 0 < c.operatorsCount ["?.", "."] := at_.operatorsCount _ ▸ stands
    rw [if_neg stands, if_neg stands']
    exact .ite at_.newlineBefore (fun _ => Like.pure (.stop lhs) at_) fun _ => postfixTurn_like recurs lhs at_

theorem unary_steady : Steady w (unary recur) := by
  refine .look fun at_ => .ite (at_.seesAny _) ?_ (.ite (at_.sees "@" 0) ?_ (.ite ?_ ?_ (postfixChain_steady recurs)))
  · exact .bind (.advance .start) fun h => .bind (recurs _) fun value => .done (h.add value) _ _
  · refine .bind (annotationSetsInto_carries recurs .start) fun h => ?_
    exact .bind (recurs _) fun value => .done (h.add value) _ _
  · rw [at_.seesName, at_.sees, at_.adjacent]
  · exact .bind (.advanceTwice .start) fun h => .bind (recurs _) fun value => .done (h.add value) _ _

/-! The levels. -/

theorem castLevel_steady : Steady w (castLevel recur) := by
  refine .bind (recurs _) fun first => .iterate first fun lhs => .lookAt fun at_ => .ite ?_ ?_ ?_
  · simp only [at_.operatorsCount, at_.semicolonBefore]
  · intro _
    exact Like.pure (.stop lhs) at_
  · intro goesOn
    simp only [Bool.or_eq_false_iff, decide_eq_false_iff_not] at goesOn
    exact operation_like at_ lhs (Nat.pos_of_ne_zero goesOn.1) (recurs _)

theorem range_steady : Steady w (range recur) :=
  binaryLevel_steady (binaryLevel_steady (binaryLevel_steady (castLevel_steady recurs) _ _) _ _) _ _

theorem namedLevel_steady : Steady w (namedLevel recur) := by
  refine .bind (range_steady recurs) fun first => .iterateWhile first (fun at_ => ?_) fun lhs => ?_
  · rw [at_.seesName, at_.separatedBefore]
  · refine .bind (.advance lhs) fun h => ?_
    exact .bind (range_steady recurs) fun rhs => .done (h.add rhs) _ _

theorem elvis_steady : Steady w (elvis recur) := binaryLevel_steady (namedLevel_steady recurs) _ _

theorem testLevel_steady : Steady w (testLevel recur) := by
  refine .bind (elvis_steady recurs) fun first => .iterate first fun lhs => .look fun at_ => ?_
  refine .ite at_.separatedBefore (.pure (.stop lhs)) (.ite (at_.seesAny _) ?_ (.ite (at_.seesAny _) ?_ ?_))
  · refine .bind (.advance lhs) fun h => .bind (recurs _) fun type => ?_
    exact .bind (.done (h.add type) _ _) fun p => .pure (.again p)
  · refine .bind (.advance lhs) fun h => .bind (elvis_steady recurs) fun rhs => ?_
    exact .bind (.done (h.add rhs) _ _) fun p => .pure (.again p)
  · exact .pure (.stop lhs)

theorem disjunction_steady : Steady w (disjunction recur) :=
  binaryLevel_steady (binaryLevel_steady (binaryLevel_steady (binaryLevel_steady (testLevel_steady recurs) _ _) _ _)
    _ _) _ _

theorem expression_steady : Steady w (expression recur) := by
  refine .bind (disjunction_steady recurs) fun lhs => .lookAt fun at_ => .ite ?_ ?_ ?_
  · simp only [at_.operatorsCount, at_.separatedBefore]
  · intro _
    exact Like.pure lhs at_
  · intro goesOn
    simp only [Bool.or_eq_false_iff, decide_eq_false_iff_not] at goesOn
    refine .bind (.advanceGlued at_ lhs (Nat.pos_of_ne_zero goesOn.1)) fun h place => ?_
    exact Like.bind (recurs _) (fun rhs => .done (h.add rhs) _ _) place

theorem expressionStatement_steady : Steady w (expressionStatement recur) := by
  have annotated : Steady w (annotatedStatement recur) := by
    refine .bind (annotationSetsInto_carries recurs .start) fun h => .look fun at_ => ?_
    refine .ite at_.newlineBefore (.bind (recurs _) fun value => .done (h.add value) _ _) (.reject _)
  refine .look fun at_ => .ite (at_.sees "@" 0) (.bind (.speculate annotated) fun found => ?_) (recurs _)
  cases found with
  | none => exact recurs _
  | some p => exact .pure p

theorem statement_steady : Steady w (statement recur) := by
  refine .bind (declaration_steady recurs _) fun found => ?_
  cases found with
  | none => exact expressionStatement_steady recurs
  | some p => exact .pure p

end KotlinSyntax.Grammar
