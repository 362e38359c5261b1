import KotlinSyntax.Grammar.File
import KotlinSyntax.Proofs.Plan.Building.Expression

/-! The rules tied together build along the plans of all kinds, and so does a run over the tokens of a source. -/
namespace KotlinSyntax.Grammar

open Builder

variable {scope : Scope} {b : Builder} {m : Marker} {whole p : Plan} {recur : Recur}

/-! The rules that others call. -/

theorem body_yields (keeps : Keeps recur) : Keeps (body recur) := by
  intro scope r b sign
  cases r with
  | expression => exact expression_yields keeps
  | unary => exact unary_yields keeps
  | typeReference receiver => exact typeReference_yields keeps
  | annotationSet => exact annotationSet_yields keeps (sign rfl)
  | statement => exact statement_yields keeps
  | classBody isEnum => exact classBody_yields keeps

theorem rule_keeps (depth : Nat) : Keeps (rule depth) := by
  induction depth with
  | zero => exact fun _ _ _ _ => .fail
  | succ depth ih => exact body_yields ih

/-! The header. -/

theorem packageDirective_yields (seen : b.sees "package" = true) :
    Produces scope packageDirective b (Plan.nodesCell [.packageDirective]) := by
  refine .bind ((Awaits.new .packageDirective).advance (.word seen rfl)) fun _ _ on =>
    .bind (.bind on.expectName fun _ _ on => on.iterateWhile fun _ _ on dot => ?_) fun _ _ after => after.1.done rfl
  simp only [Bool.and_eq_true] at dot
  exact on.advanceTwice (.word dot.1.1 rfl) (.name dot.1.2 rfl)

theorem packageInto_leads (h : Awaits whole (Plan.opt [Plan.node .packageDirective] :: p) m) :
    Leads scope (packageInto m) b whole p :=
  .look <| .ite
    (fun word => .recovering ((packageDirective_yields word).mono fun _ _ fills => h.left.add fills))
    fun _ => .pure h.right

theorem importAliasInto_leads (h : Awaits whole (Plan.opt [Plan.node .importAlias] :: p) m) :
    Leads scope (importAliasInto m) b whole p := by
  refine .look (.ite (fun aliased => ?_) fun _ => .pure h.right)
  exact .bind ((Awaits.new .importAlias).advance (.word (Bool.and_eq_true_iff.mp aliased).1 rfl)) fun _ _ on =>
    .bind on.expectName fun _ _ on =>
    .bind (on.done rfl) fun _ _ fills => .pure (h.left.add fills)

/-- A dot may lead to another name or to the star that ends the path. -/
theorem importDirective_yields (seen : b.sees "import" = true) :
    Produces scope importDirective b (Plan.nodesCell [.importDirective]) := by
  let path : Plan := (Plan.ofKind .importDirective).drop 2
  refine .bind ((Awaits.new .importDirective).advance (.word seen rfl)) fun _ _ on =>
    .bind on.expectName fun _ _ on =>
    .bind (.iterate (I := fun m _ => Awaits (Plan.ofKind .importDirective) path m)
      (Q := fun m _ => Awaits (Plan.ofKind .importDirective) (path.drop 2) m) on fun m b on => ?_) fun _ _ on =>
    .bind (importAliasInto_leads on) fun _ _ on => on.done rfl
  refine .look (.ite (fun dot => ?_) fun _ => .pure on.stop.right)
  have dot := (Bool.and_eq_true_iff.mp dot).1
  refine .bind ((on.more.advance (.word dot rfl)).and (on.stop.left.advance (.word dot rfl))) ?_
  rintro m b ⟨more, last⟩
  refine .look (.ite (fun star => ?_) fun _ => ?_)
  · exact .bind (last.advance (.word star rfl)) fun _ _ on => .pure on
  · exact .bind more.expectName fun _ _ on => .pure on

theorem importList_yields : Produces scope importList b (Plan.nodesCell [.importList]) :=
  .bind ((Awaits.new .importList).iterateWhile fun _ _ on seen =>
    .bind (importDirective_yields seen) fun _ _ fills => .pure (on.add fills)) fun _ _ after =>
  after.1.done rfl

theorem headerInto_leads (h : Awaits whole (.many [Plan.node .annotationSet] ::
      Plan.opt [Plan.node .packageDirective] :: Plan.opt [Plan.node .importList] :: p) m) :
    Leads scope (headerInto m) b whole p := by
  refine .bind (h.iterateWhile fun m b on annotated => .recovering (.look ?_)) fun _ _ after =>
    .bind (packageInto_leads after.1) fun _ _ on => .look (.ite (fun _ => ?_) fun _ => .pure on.right)
  · simp only [atFileAnnotations, Bool.and_eq_true] at annotated
    exact ((rule_keeps _).annotationSet annotated.1.1.1).mono fun _ _ fills => on.add fills
  · exact .recovering (importList_yields.mono fun _ _ fills => on.left.add fills)

/-! The root. -/

def PlannedRoot (kind : RawKind) (root : RawElement) : Prop :=
  ∃ role children, root = .node kind role children ∧ Planned root

theorem finish_skips (b : Builder) (m : Marker) (kind : RawKind) :
    (b.finish m kind).1 = { b with pos := b.pos + b.left.length } := by
  have size : max b.pos b.tokens.size = b.pos + b.left.length := by
    simp only [left, List.length_drop, Array.length_toList]
    omega
  simp only [Builder.finish, takeTrivia, size]

theorem finish_yields {kind : RawKind} (h : Awaits (Plan.ofKind kind) [] m) (ended : b.atEnd = true) :
    Yields scope (finish m kind) b fun root _ => PlannedRoot kind root := by
  refine .whenReady fun ready => ?_
  have blank := ready.placed.left_of_atEnd ended
  have trivia := ofTokens_trivia blank
  obtain ⟨b', finished⟩ := finish_eq b m kind
  obtain rfl : b' = { b with pos := b.pos + b.left.length } := by rw [← finish_skips b m kind, finished]
  refine .look ?_
  rw [finished]
  refine .goTo (fun ready => ?_) (.pure ⟨none, _, rfl, ?_⟩)
  · exact ⟨⟨ready.placed.skip (List.append_nil _).symm blank, ready.unreserved⟩, rfl, rfl⟩
  · have gathered := h.addTrivia trivia
    have all := gathered.follows [] .nil
    rw [List.append_nil] at all
    refine .node kind none _ (.inr ?_) ?_
    · rw [RawElement.significant_append, RawElement.significant_leaves gathered.leading, List.nil_append]
      exact all
    · intro e member
      rcases List.mem_append.mp member with member | member
      · obtain ⟨l, inside, rfl⟩ := List.mem_map.mp member
        exact (gathered.leading l inside).planned
      · exact gathered.planned e member

theorem file_yields : Yields scope file b fun root _ => PlannedRoot .file root := by
  refine .bind (headerInto_leads (.new .file)) fun _ _ on =>
    .look (.bind (on.iterateWhile fun _ _ on _ =>
      .recovering ((declarationOnly_yields (rule_keeps _)).mono fun _ _ fills => on.add fills)) ?_)
  rintro _ _ ⟨on, ended⟩
  exact finish_yields on (by simpa using ended)

theorem script_yields : Yields scope script b fun root _ => PlannedRoot .script root :=
  .bind (headerInto_leads (.new .script)) fun _ _ on =>
  .look <| .bind (statementsInto_yields (rule_keeps _) on) fun _ _ after => finish_yields after.1 (after.2 rfl)

theorem source_yields (form : Form) :
    Yields scope (source form) b fun root _ => PlannedRoot (Conversion.rootKind form) root := by
  cases form with
  | file => exact file_yields
  | script => exact script_yields

/-- A run over the tokens of a source that records no fault gives a tree along the plans. -/
theorem run_planned {text : String} {tokens : List Token} {form : Form} {root : RawElement} {s : State}
    (lexed : Lexer.tokenize text = .ok tokens) (ran : run (source form) tokens = .ok root s) (sound : s.faults = []) :
    PlannedRoot (Conversion.rootKind form) root := by
  have placed := ofTokens_placed (Lexer.tokenize_proper lexed) (Lexer.tokenize_named lexed)
  have ready : (Builder.ofTokens tokens).Ready :=
    ⟨placed, by simpa [Builder.ofTokens] using Lexer.tokenize_unreserved lexed⟩
  unfold run at ran
  split at ran
  · rename_i faults log found b' answer
    cases ran
    obtain rfl : faults = [] := sound
    exact (source_yields form ready log root b' answer).2
  · cases ran

end KotlinSyntax.Grammar
