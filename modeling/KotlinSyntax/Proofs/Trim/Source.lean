import KotlinSyntax.Proofs.Grammar.File
import KotlinSyntax.Proofs.Trim.Expression

/-! Raw trees of whole sources are trimmed, whether or not faults were recorded. Only the root holds trivia at its
start. -/
namespace KotlinSyntax.Grammar

open Marker

variable {m : Marker} {kind : RawKind} {recur : Recur}

theorem body_careful (careful : Careful recur) : Careful (body recur) := by
  intro r
  cases r with
  | expression => exact expression_builds careful
  | unary => exact unary_builds careful
  | typeReference receiver => exact typeReference_builds careful
  | annotationSet => exact annotationSet_builds careful
  | statement => exact statement_builds careful
  | classBody isEnum => exact classBody_builds careful

/-- Rules of any depth build trimmed nodes. -/
theorem rule_careful (depth : Nat) : Careful (rule depth) := by
  induction depth with
  | zero => exact fun _ => .fail
  | succ depth ih => exact body_careful ih

/-! The header. -/

theorem packageDirective_builds : Builds packageDirective := by
  have name {m : Marker} (on : m.Tidy) : Grows (qualifiedNameInto m) :=
    on.expectName.bind fun _ on => on.iterateWhile fun _ on => on.advanceTwice
  exact Tidy.empty.advance.bind fun _ on => (name on).bind fun _ on => on.done

theorem importDirective_builds : Builds importDirective := by
  have aliased {m : Marker} (on : m.Tidy) : Grows (importAliasInto m) := by
    refine .behind fun _ => .ite ?_ (.pure on)
    exact Tidy.empty.advance.bind fun _ name => name.expectName.bind fun _ name => on.addRule name.done
  refine Tidy.empty.advance.bind fun _ on => on.expectName.bind fun _ on =>
    .bind (R := Tidy) (.iterate on fun m on => .behind fun _ => .ite (on.advance.bind fun _ on => ?_) (.pure on))
      fun _ on => (aliased on).bind fun _ on => on.done
  refine .behind fun _ => .ite ?_ ?_
  · exact on.advance.bind fun _ on => .pure on
  · exact on.expectName.bind fun _ on => .pure on

theorem importList_builds : Builds importList :=
  (Tidy.empty.iterateWhile fun _ on => on.addRule importDirective_builds).bind fun _ on => on.done

theorem headerInto_grows (h : m.Tidy) : Grows (headerInto m) := by
  have package {m : Marker} (on : m.Tidy) : Grows (packageInto m) :=
    .behind fun _ => .ite (recovering_tidy on packageDirective_builds) (.pure on)
  have imports {m : Marker} (on : m.Tidy) : Grows (importsInto m) :=
    .behind fun _ => .ite (recovering_tidy on importList_builds) (.pure on)
  have annotations : Grows (iterateWhile atFileAnnotations (recovering · (apply .annotationSet)) m) :=
    h.iterateWhile fun _ on => recovering_tidy on (.behind fun _ => rule_careful _ _)
  exact annotations.bind fun _ on => (package on).bind fun _ on => imports on

/-! The root. -/

def TrimmedBelow (root : RawElement) : Prop :=
  ∃ kind children, root = .node kind none children ∧ ∀ e ∈ children, e.All Trimmed

theorem finish_trimmed (h : m.Begun) : Always (finish m kind) TrimmedBelow := by
  refine .behind fun b => .behind fun _ => .pure ⟨kind, _, rfl, ?_⟩
  intro e member
  rcases List.mem_append.mp member with member | member
  · obtain ⟨l, -, rfl⟩ := List.mem_map.mp member
    exact .leaf l
  · exact (h.addTrivia _).trimmed e member

theorem source_trimmed (form : Form) : Always (Grammar.source form) TrimmedBelow := by
  cases form with
  | file =>
    refine (headerInto_grows .empty).bind fun _ on => .behind fun _ => Always.bind (R := Tidy) ?_ fun _ on =>
      finish_trimmed on.toBegun
    exact on.iterateWhile fun _ on => recovering_tidy on (declarationOnly_builds (rule_careful _))
  | script =>
    exact (headerInto_grows .empty).bind fun _ on => .behind fun _ =>
      (statementsInto_grows (rule_careful _) on).bind fun _ on => finish_trimmed on.toBegun

/-- Every node below the root begins with a part and ends with one, but for a declaration that holds the comment at
the end of its line. This is so for whatever tokens a source has, also where some had to be skipped. -/
theorem nodes_trimmed (form : Form) (source : String) (tokens : List Token) (h : Lexer.tokenize source = .ok tokens) :
    ∃ kind children s, run (Grammar.source form) tokens = .ok (.node kind none children) s ∧
      ∀ e ∈ children, e.All Trimmed := by
  obtain ⟨root, s, ran, -⟩ := run_source form h
  have below : TrimmedBelow root := by
    unfold run at ran
    split at ran
    · rename_i answer
      cases ran
      exact source_trimmed form _ _ _ _ (congrArg Answer.result answer)
    · cases ran
  obtain ⟨kind, children, rfl, trimmed⟩ := below
  exact ⟨kind, children, s, ran, trimmed⟩

/-- An enumeration with a comma behind its entry, skipped tokens, and comments behind both declarations. -/
theorem nodes_trimmed_in_enum : ∃ tokens,
    Lexer.tokenize "enum class A \x7b B, ; )\nfun f() // b\n\x7d // a" = .ok tokens ∧
    ∃ kind children s, run (Grammar.source .file) tokens = .ok (.node kind none children) s ∧
      ∀ e ∈ children, e.All Trimmed := by
  have lexed : (Lexer.tokenize "enum class A \x7b B, ; )\nfun f() // b\n\x7d // a").toOption.isSome = true := by
    decide +kernel
  cases found : Lexer.tokenize "enum class A \x7b B, ; )\nfun f() // b\n\x7d // a" with
  | error e =>
    rw [found] at lexed
    cases lexed
  | ok tokens => exact ⟨tokens, rfl, nodes_trimmed .file _ tokens found⟩

end KotlinSyntax.Grammar
