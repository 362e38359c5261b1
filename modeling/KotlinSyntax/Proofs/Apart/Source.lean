import KotlinSyntax.Proofs.Apart.Expression
import KotlinSyntax.Proofs.Plan.Building.File
import KotlinSyntax.Proofs.Refusal

/-! Raw trees of whole sources. A tree that counts was built without a fault, so nothing was skipped in it, where one
statement follows another there is a semicolon or the end of a line between the two, and there is none between an
operand and its operator. -/
namespace KotlinSyntax

namespace Grammar

open Builder

variable {scope : Scope} {ts : List Token} {b₀ b b' : Builder} {m : Marker} {p : Parsed} {kind : RawKind}
  {recur : Recur}

theorem body_abides (abides : Abides ts recur) : Abides ts (body recur) := by
  intro scope r b sited
  cases r with
  | expression => exact expression_finds abides sited
  | unary => exact unary_finds abides sited
  | typeReference receiver => exact typeReference_finds abides sited
  | annotationSet => exact annotationSet_finds abides sited
  | statement => exact statement_finds abides sited
  | classBody isEnum => exact classBody_finds abides sited

theorem rule_abides (depth : Nat) : Abides ts (rule depth) := by
  induction depth with
  | zero => exact fun _ _ _ _ => .fail
  | succ depth ih => exact body_abides ih

/-! The header. -/

structure Heads (ts : List Token) (b₀ b : Builder) (m : Marker) : Prop where
  covers : Covers ts b₀ b m
  header : ∀ e ∈ m.children.toList, e.isHeader = true

theorem Heads.add (h : Heads ts b₀ b m) (given : Held ts b p b') (fills : Fills (Plan.nodesCell [kind]) p)
    (known : [RawKind.annotationSet, .packageDirective, .importList].contains kind = true) :
    Heads ts b₀ b' (m.add p) := by
  refine ⟨h.covers.add given,
    Marker.forall_push (Marker.forall_addTrivia h.header fun l inside => (given.leading l inside).1) ?_⟩
  have takes := fills.takes
  cases element : p.element with
  | leaf l => simp [element, Cell.takes, Plan.nodesCell] at takes
  | node k role children =>
    have same : k = kind := by simpa [element, Cell.takes, Plan.nodesCell] using takes
    rw [same]
    exact known

theorem packageDirective_finds (sited : b.Over ts) : Finds ts scope packageDirective b b :=
  .bind (Covers.start sited).advance fun _ _ on =>
  .bind (.bind on.expectName fun _ _ on => on.iterateWhile fun _ _ on => on.advanceTwice) fun _ _ on => on.done rfl

theorem importDirective_finds (sited : b.Over ts) : Finds ts scope importDirective b b := by
  have aliased {m : Marker} {b₁ : Builder} (on : Covers ts b b₁ m) : Extends ts scope (importAliasInto m) b b₁ :=
    .look <| .ite
      (fun _ => .bind (Covers.start on.sited).advance fun _ _ name =>
        .bind name.expectName fun _ _ name => on.addRule (name.done rfl))
      fun _ => .pure on
  refine .bind (Covers.start sited).advance fun _ _ on =>
    .bind on.expectName fun _ _ on =>
    .bind (.iterate (I := fun m b₁ => Covers ts b b₁ m) (Q := fun m b₁ => Covers ts b b₁ m) on fun m b₁ on => ?_)
      fun _ _ on => .bind (aliased on) fun _ _ on => on.done rfl
  refine .look (.ite (fun _ => .bind on.advance fun _ _ on => .look (.ite (fun _ => ?_) fun _ => ?_)) fun _ => .pure on)
  · exact .bind on.advance fun _ _ on => .pure on
  · exact .bind on.expectName fun _ _ on => .pure on

theorem importList_finds (sited : b.Over ts) : Finds ts scope importList b b :=
  .bind ((Covers.start sited).iterateWhile fun _ _ on => on.addRule (importDirective_finds on.sited)) fun _ _ on =>
  on.done rfl

/-- What is built along the plan of its kind and found lawful goes into the header. -/
theorem Heads.recovering {rule : Grammar Parsed} (h : Heads ts b₀ b m) (finds : Finds ts scope rule b b)
    (produces : Produces scope rule b (Plan.nodesCell [kind]))
    (known : [RawKind.annotationSet, .packageDirective, .importList].contains kind = true) :
    Yields scope (recovering m rule) b fun m' b' => Heads ts b₀ b' m' :=
  .recovering ((finds.and produces).mono fun _ _ after => h.add after.1 after.2 known)

theorem headerInto_heads (sited : b.Over ts) :
    Yields scope (headerInto .empty) b fun m b' => Heads ts b b' m := by
  have start : Heads ts b b .empty := ⟨.start sited, by simp [Marker.empty]⟩
  have package {m : Marker} {b₁ : Builder} (on : Heads ts b b₁ m) :
      Yields scope (packageInto m) b₁ fun m b' => Heads ts b b' m :=
    .look <| .ite
      (fun word => on.recovering (packageDirective_finds on.covers.sited) (packageDirective_yields word) rfl)
      fun _ => .pure on
  have imports {m : Marker} {b₁ : Builder} (on : Heads ts b b₁ m) :
      Yields scope (importsInto m) b₁ fun m b' => Heads ts b b' m :=
    .look <| .ite (fun _ => on.recovering (importList_finds on.covers.sited) importList_yields rfl) fun _ => .pure on
  refine .bind (.iterateWhile (I := fun m b' => Heads ts b b' m) start fun m b₁ on annotated => ?_) fun _ _ after =>
    .bind (package after.1) fun _ _ on => imports on
  simp only [atFileAnnotations, Bool.and_eq_true] at annotated
  exact on.recovering (.look (rule_abides _ _ _ _ on.covers.sited))
    (.look ((rule_keeps _).annotationSet annotated.1.1.1)) rfl

/-! The root. -/

/-- All trivia that is left goes around the children of the root. -/
theorem finish_lawful (h : Covers ts b₀ b m) (ended : b.atEnd = true)
    (lawful : ∀ ls ls' : List Leaf, (∀ l ∈ ls, l.Void) → (∀ l ∈ ls', l.Void) →
      Lawful kind (ls.map .leaf ++ m.children.toList ++ ls'.map .leaf)) :
    Yields scope (finish m kind) b fun root _ => root.All Lawful := by
  have blank := h.sited.placed.left_of_atEnd ended
  have void := ofTokens_void blank
  obtain ⟨b', finished⟩ := finish_eq b m kind
  obtain rfl : b' = { b with pos := b.pos + b.left.length } := by rw [← finish_skips b m kind, finished]
  refine .look ?_
  rw [finished]
  refine .goTo (fun ready => ?_) (.pure (.node kind none _ ?_ ?_))
  · exact ⟨⟨ready.placed.skip (List.append_nil _).symm blank, ready.unreserved⟩, rfl, rfl⟩
  · by_cases none : m.children = #[]
    · have all := lawful (m.leading ++ b.left.map Leaf.ofToken) []
        (fun l member => (List.mem_append.mp member).elim (h.leading l) (void l)) (by simp)
      simpa [Marker.addTrivia, none] using all
    · have all := lawful m.leading (b.left.map Leaf.ofToken) h.leading void
      simpa [Marker.addTrivia, none] using all
  · intro e member
    rcases List.mem_append.mp member with member | member
    · obtain ⟨l, _, rfl⟩ := List.mem_map.mp member
      exact .leaf l
    · exact Marker.forall_addTrivia h.lawful (fun l _ => .leaf l) e member

theorem file_lawful (sited : b.Over ts) : Yields scope file b fun root _ => root.All Lawful := by
  refine .bind (headerInto_heads sited) fun m b₁ on => .look (.bind (.iterateWhile (I := fun m b' => Covers ts b b' m)
    on.covers fun _ _ on _ => on.recovering (declarationOnly_finds (rule_abides _) on.sited)) ?_)
  rintro m' b' ⟨on, ended⟩
  exact finish_lawful on (by simpa using ended) fun _ _ _ _ => .of_isFree rfl _

/-- Behind the header there are the statements, and the trivia around them changes nothing. -/
theorem lawful_script {header body : List RawElement} {ls ls' : List Leaf} (heads : ∀ e ∈ header, e.isHeader = true)
    (apart : RawElement.Apart body) (solid : ∀ e ∈ body, e.Solid) (void : ∀ l ∈ ls, l.Void)
    (void' : ∀ l ∈ ls', l.Void) :
    Lawful .script (ls.map .leaf ++ (header ++ body) ++ ls'.map .leaf) := by
  refine .of_statements rfl ?_
  rintro es ⟨⟩
  have leading : ∀ e ∈ ls.map .leaf ++ header, e.isHeader = true := by
    intro e member
    rcases List.mem_append.mp member with member | member
    · obtain ⟨l, inside, rfl⟩ := List.mem_map.mp member
      exact (void l inside).1
    · exact heads e member
  have ended : RawElement.Apart (body ++ ls'.map .leaf) := apart.append_leaves fun l member => (void' l member).1
  have all : ls.map .leaf ++ (header ++ body) ++ ls'.map .leaf =
      (ls.map .leaf ++ header) ++ (body ++ ls'.map .leaf) := by
    simp only [List.append_assoc]
  rw [all, List.dropWhile_append_of_pos leading]
  obtain ⟨front, split⟩ := List.dropWhile_suffix (l := body ++ ls'.map .leaf) RawElement.isHeader
  rw [← split] at ended
  refine ended.of_suffix fun e member => ?_
  have inside : e ∈ body ++ ls'.map .leaf := by
    rw [← split]
    exact List.mem_append_right front member
  rcases List.mem_append.mp inside with inside | inside
  · exact solid e inside
  · obtain ⟨l, among, rfl⟩ := List.mem_map.mp inside
    exact solid_of_void (void' l among)

theorem script_lawful (sited : b.Over ts) : Yields scope script b fun root _ => root.All Lawful := by
  refine .bind (headerInto_heads sited) fun m b₁ on =>
    .look (.bind (statementsInto_separates (rule_abides _) on.covers) ?_)
  rintro m' b' ⟨covers, ⟨body, children, apart⟩, ended⟩
  refine finish_lawful covers (ended rfl) fun ls ls' void void' => ?_
  rw [children]
  refine lawful_script on.header apart (fun e member => covers.solid e ?_) void void'
  rw [children]
  exact List.mem_append_right _ member

/-- A run over the tokens of a source that records no fault gives a lawful tree. -/
theorem run_lawful {text : String} {tokens : List Token} {form : Form} {root : RawElement} {s : State}
    (lexed : Lexer.tokenize text = .ok tokens) (ran : run (source form) tokens = .ok root s) (sound : s.faults = []) :
    root.All Lawful := by
  have sited := ofTokens_over (Lexer.tokenize_proper lexed) (Lexer.tokenize_named lexed)
  have ready : (Builder.ofTokens tokens).Ready :=
    ⟨sited.placed, by simpa [Builder.ofTokens] using Lexer.tokenize_unreserved lexed⟩
  have yields : Yields {} (source form) (.ofTokens tokens) fun root _ => root.All Lawful := by
    cases form with
    | file => exact file_lawful sited
    | script => exact script_lawful sited
  unfold run at ran
  split at ran
  · rename_i faults log found b' answer
    cases ran
    obtain rfl : faults = [] := sound
    exact (yields ready log root b' answer).2
  · cases ran

end Grammar

namespace Source

open RawElement

/-- No syntax error is silent. In the raw tree of a source no node at any depth holds skipped tokens, and wherever one
statement follows another, in a block, in the body of a lambda or in a script, a semicolon or the end of a line comes
between the last token of the one and the first token of the other. -/
theorem raw_skips_nothing (form : Form) (fileName : Option String) (source : String) (root : RawElement)
    (h : (raw form fileName source).result = .ok root) : root.All fun kind children =>
      kind ≠ .errorElement ∧ ∀ es, statements? kind children = some es → Apart es := by
  obtain ⟨tokens, s, lexed, ran, sound⟩ := raw_ok h
  exact (Grammar.run_lawful lexed ran sound).mono fun _ _ lawful => ⟨lawful.noError, lawful.apart⟩

/-- A script behind a header, with a block, a comment that ends a line, and a lambda. -/
theorem raw_skips_nothing_in_lambda : ∃ root,
    (raw .script none "import a\nfun f() \x7b b; c // d\n e \x7d\nlist \x7b x; y \x7d").result = .ok root ∧
      root.All fun kind children => kind ≠ .errorElement ∧ ∀ es, statements? kind children = some es → Apart es := by
  have read : (raw .script none
      "import a\nfun f() \x7b b; c // d\n e \x7d\nlist \x7b x; y \x7d").result.toOption.isSome = true := by
    decide +kernel
  cases found : (raw .script none "import a\nfun f() \x7b b; c // d\n e \x7d\nlist \x7b x; y \x7d").result with
  | error e =>
    rw [found] at read
    cases read
  | ok root => exact ⟨root, rfl, raw_skips_nothing .script none _ root found⟩

/-- Operators, brackets and arguments stay with their operand. In every operation of the raw tree of a source no
semicolon comes between the last leaf of the operand that is no trivia and the next such leaf, and the end of a line
does only in front of an operator that may begin one. -/
theorem raw_joins_operands (form : Form) (fileName : Option String) (source : String) (root : RawElement)
    (h : (raw form fileName source).result = .ok root) :
    root.All fun kind children => kind.isOperation = true → Joined children := by
  obtain ⟨tokens, s, lexed, ran, sound⟩ := raw_ok h
  exact (Grammar.run_lawful lexed ran sound).mono fun _ _ lawful => lawful.joined

/-- Operators that begin lines, one that does not, an index, a call with a lambda and the comments in between. -/
theorem raw_joins_operands_over_lines : ∃ root,
    (raw .script none "a // b
?.c(d) { e }[0]++
 as F
-g /* h */ in i
?: j k l").result = .ok root ∧
      root.All fun kind children => kind.isOperation = true → Joined children := by
  have read : (raw .script none
      "a // b
?.c(d) { e }[0]++
 as F
-g /* h */ in i
?: j k l").result.toOption.isSome = true := by
    decide +kernel
  cases found : (raw .script none
      "a // b
?.c(d) { e }[0]++
 as F
-g /* h */ in i
?: j k l").result with
  | error e =>
    rw [found] at read
    cases read
  | ok root => exact ⟨root, rfl, raw_joins_operands .script none _ root found⟩

end Source

end KotlinSyntax
