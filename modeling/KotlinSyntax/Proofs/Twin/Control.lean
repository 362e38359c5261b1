import KotlinSyntax.Proofs.Twin.Declaration

/-! Expressions that a keyword begins, and primary expressions, over twin sources. -/
namespace KotlinSyntax.Grammar

variable {w : Twins} {recur : Recur}

theorem labelInto_carries : Carries w labelInto := by
  intro m n h
  refine .look fun at_ => .ite (by rw [at_.sees, at_.adjacent, at_.adjacent]) ?_ (.pure h)
  exact .bind (.advance h) fun h => .expectName h

theorem thisExpression_steady : Steady w thisExpression :=
  .bind (.advance .start) fun h => .bind (labelInto_carries h) fun h => .done h _ _

theorem jump_steady (kind : RawKind) : Steady w (jump kind) :=
  .bind (.advance .start) fun h => .bind (labelInto_carries h) fun h => .done h _ _

/-- The line of the log tells where the body is, so it may differ. -/
theorem emptyBody_like {m n : Marker} (h : m.Alike n) (what : String) :
    Like w (Option.Rel Parsed.Alike) (emptyBody m what) (emptyBody n what) := by
  refine .look fun at_ => .ite at_.semicolonBefore ?_ (.pure .none)
  exact .bind (.note _ _) fun _ => .some (.done h _ _)

theorem startsOperand_eq {b c : Builder} (at_ : b.Alike w c) : startsOperand b = startsOperand c := by
  rw [startsOperand, startsOperand, at_.atEnd, at_.separatedBefore, at_.seesKind, at_.seesAny]

variable (recurs : ∀ r, Steady w (recur r))

include recurs

theorem superExpression_steady : Steady w (superExpression recur) := by
  refine .bind (.advance .start) fun h => .bind (.look fun at_ => .ite ?_ ?_ (.pure h)) fun h => ?_
  · rw [at_.sees, at_.adjacent]
  · exact .bind (.advance h) fun h => .bind (recurs _) fun type => .expect (h.add type) _
  · exact .bind (labelInto_carries h) fun h => .done h _ _

theorem throwExpression_steady : Steady w (throwExpression recur) :=
  .bind (.advance .start) fun h => .bind (recurs _) fun value => .done (h.add value) _ _

theorem returnExpression_steady : Steady w (returnExpression recur) := by
  refine .bind (.advance .start) fun h => .bind (labelInto_carries h) fun h => ?_
  refine .look fun at_ => .ite (startsOperand_eq at_) ?_ (.done h _ _)
  exact .bind (recurs _) fun value => .done (h.add value) _ _

theorem conditionInto_carries : Carries w (conditionInto recur) := by
  intro m n h
  refine .withTrailingLambdas _ (.bind (.expect h _) fun h => ?_)
  exact .bind (recurs _) fun value => .expect (h.add value) _

/-- The body of a branch or a loop closes it. -/
theorem loopBody_closes (what : String) (kind : RawKind) : Closes w (loopBody recur · what kind) := by
  intro m n h
  refine .bind (emptyBody_like h what) fun found => ?_
  cases found with
  | none => exact .bind (controlBody_steady recurs) fun body => .done (h.add body) _ _
  | some empty => exact .pure empty

theorem ifExpression_steady : Steady w (ifExpression recur) := by
  refine .bind (.advance .start) fun h => .bind (conditionInto_carries recurs h) fun h => ?_
  refine .bind (emptyBody_like h _) fun found => ?_
  cases found with
  | none =>
    refine .bind (controlBody_steady recurs) fun body => .look fun at_ => ?_
    refine .ite (by rw [at_.sees, at_.sees]) ?_ (.done (h.add body) _ _)
    exact .bind (.advance (h.add body)) fun h => loopBody_closes recurs "else" .ifExpression h
  | some empty => exact .pure empty

theorem whenCondition_steady : Steady w (whenCondition recur) := by
  refine .look fun at_ => .ite (at_.seesAny _) ?_ (.ite (at_.seesAny _) ?_ ?_)
  · exact .bind (.advance .start) fun h => .bind (recurs _) fun value => .done (h.add value) _ _
  · exact .bind (.advance .start) fun h => .bind (recurs _) fun type => .done (h.add type) _ _
  · exact .bind (recurs _) fun value => .done (Marker.Alike.start.add value) _ _

theorem whenEntry_steady : Steady w (whenEntry recur) := by
  have conditions : Like w Marker.Alike (whenConditions recur) (whenConditions recur) :=
    .look fun at_ => .ite (at_.sees "else" 0) (.advance .start) (.commaList .start _ (whenCondition_steady recurs))
  refine .bind conditions fun h => .bind (.expect h _) fun h => ?_
  exact .bind (controlBody_steady recurs) fun body => .done (h.add body) _ _

theorem whenExpression_steady : Steady w (whenExpression recur) := by
  have subject : Steady w (whenSubject recur) :=
    .look fun at_ => .ite (at_.seesAny _) (propertyDeclaration_closes recurs .start) (recurs _)
  refine .bind (.advance .start) fun h => .bind (.look fun at_ => .ite (at_.sees "(" 0) ?_ (.pure h)) fun h => ?_
  · exact .bind (.advance h) fun h => .bind subject fun subject => .expect (h.add subject) _
  · refine .bind (.expect h _) fun h => ?_
    refine .bind (.iterateWhile h (fun at_ => by rw [at_.sees, at_.atEnd]) fun h => ?_) fun h => ?_
    · exact .recovering h (whenEntry_steady recurs)
    · exact .bind (.expect h _) fun h => .done h _ _

theorem tryExpression_steady : Steady w (tryExpression recur) := by
  have clause : Steady w (catchClause recur) :=
    .bind (.advance .start) fun h => .bind (valueParameters_steady recurs) fun params =>
      .bind (block_steady recurs) fun block => .done ((h.add params).add block) _ _
  refine .bind (.advance .start) fun h => .bind (block_steady recurs) fun block => ?_
  refine .bind (.iterateWhile (h.add block) (fun at_ => at_.sees "catch" 0) fun h => ?_) fun h => ?_
  · exact .bind clause fun clause => .pure (h.add clause)
  · refine .look fun at_ => .ite (at_.sees "finally" 0) ?_ (.done h _ _)
    exact .bind (.advance h) fun h => .bind (block_steady recurs) fun block => .done (h.add block) _ _

theorem forLoop_steady : Steady w (forLoop recur) := by
  refine .bind (.advance .start) fun h => .bind (.expect h _) fun h => ?_
  refine .bind (lambdaParameter_steady recurs) fun parameter => .bind (.expect (h.add parameter) _) fun h => ?_
  refine .bind (recurs _) fun value => .bind (.expect (h.add value) _) fun h => ?_
  exact loopBody_closes recurs _ _ h

theorem whileLoop_steady : Steady w (whileLoop recur) :=
  .bind (.advance .start) fun h => .bind (conditionInto_carries recurs h) fun h => loopBody_closes recurs _ _ h

theorem doWhileLoop_steady : Steady w (doWhileLoop recur) := by
  refine .bind (.advance .start) fun h => .bind (controlBody_steady recurs) fun body => ?_
  refine .bind (.expect (h.add body) _) fun h => ?_
  exact .bind (conditionInto_carries recurs h) fun h => .done h _ _

theorem keywordExpression_steady (word : String) : Steady w (keywordExpression recur word) := by
  unfold keywordExpression
  split
  · exact .token
  · exact .token
  · exact .token
  · exact thisExpression_steady
  · exact superExpression_steady recurs
  · exact ifExpression_steady recurs
  · exact whenExpression_steady recurs
  · exact tryExpression_steady recurs
  · exact forLoop_steady recurs
  · exact whileLoop_steady recurs
  · exact doWhileLoop_steady recurs
  · exact throwExpression_steady recurs
  · exact returnExpression_steady recurs
  · exact jump_steady _
  · exact jump_steady _
  · exact classDeclaration_closes recurs _ .start
  · exact functionDeclaration_closes recurs .start
  · exact .reject _

/-! Primary expressions. -/

omit recurs in
theorem shortTemplate_steady : Steady w shortTemplate := .bind (.advanceTwice .start) fun h => .done h _ _

theorem stringPart_carries : Carries w (stringPart recur) := by
  intro m n h
  refine .look fun at_ => .ite (at_.seesKind _ 0) ?_ (.ite (at_.seesKind _ 0) ?_ (.ite ?_ (.advance h) (.reject _)))
  · exact .bind shortTemplate_steady fun template => .pure (h.add template)
  · refine .bind (.bind (.advance .start) fun k => ?_) fun template => .pure (h.add template)
    refine .bind (.withTrailingLambdas _ (recurs _)) fun value => ?_
    exact .bind (.expectKind (k.add value) _ _) fun k => .done k _ _
  · rw [at_.seesKind, at_.seesKind]

theorem stringTemplate_steady : Steady w (stringTemplate recur) := by
  refine .bind (.advance .start) fun h => ?_
  refine .bind (.iterateWhile h (fun at_ => by rw [at_.seesKind]) fun h => stringPart_carries recurs h) fun h => ?_
  exact .bind (.advance h) fun h => .done h _ _

omit recurs in
theorem callableReference_closes : Closes w callableReference := by
  intro m n h
  refine .bind (.advance h) fun h => .look fun at_ => .ite (at_.sees "class" 0) ?_ ?_
  · exact .bind (.advance h) fun h => .done h _ _
  · exact .bind (.expectName h) fun h => .done h _ _

theorem nameExpression_steady : Steady w (nameExpression recur) := by
  have receiver : Steady w (typeReceiver recur) := by
    refine .bind (userType_steady recurs _) fun type => .look fun at_ => .ite ?_ (.pure type) (.reject _)
    rw [at_.sees, type.holdsTypeArguments]
  refine .look fun at_ => .ite (by rw [at_.sees, at_.sees]) (.bind (.speculate receiver) fun found => ?_) .token
  cases found with
  | none => exact .token
  | some type => exact callableReference_closes type

theorem parenthesized_steady : Steady w (parenthesized recur) := by
  refine .withTrailingLambdas _ (.bind (.advance .start) fun h => .bind (recurs _) fun value => ?_)
  exact .bind (.expect (h.add value) _) fun h => .done h _ _

theorem collectionLiteral_steady : Steady w (collectionLiteral recur) := by
  refine .withTrailingLambdas _ (.bind (.advance .start) fun h => .bind (.commaList h _ (recurs _)) fun h => ?_)
  exact .bind (.expect h _) fun h => .done h _ _

omit recurs in
theorem dotNumber_steady : Steady w dotNumber := by
  refine .look fun at_ => .ite (by rw [at_.seesKind, at_.adjacent]) ?_ (.reject _)
  exact .bind (.advanceTwice .start) fun h => .done h _ _

theorem bracketExpression_steady (text : String) : Steady w (bracketExpression recur text) := by
  refine .ite rfl (parenthesized_steady recurs) (.ite rfl (lambda_steady recurs) ?_)
  refine .ite rfl (collectionLiteral_steady recurs) (.ite rfl (callableReference_closes .start) ?_)
  exact .ite rfl dotNumber_steady (.reject _)

theorem primary_steady : Steady w (primary recur) := by
  refine .look fun {b c} at_ => ?_
  have same := at_.peek 0
  cases one : b.peek with
  | none =>
    have two : c.peek = none := by simpa [one] using same.symm
    rw [two]
    exact .reject _
  | some t =>
    rw [one] at same
    obtain ⟨u, two, bare⟩ := Option.map_eq_some_iff.mp same.symm
    rw [two]
    simp only [Token.kind_of_bare bare, Token.text_of_bare bare]
    split
    · exact nameExpression_steady recurs
    · exact .token
    · exact .token
    · exact .token
    · exact stringTemplate_steady recurs
    · exact keywordExpression_steady recurs _
    · exact bracketExpression_steady recurs _
    · exact .reject _

end KotlinSyntax.Grammar
