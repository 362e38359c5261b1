import KotlinSyntax.Proofs.Placement.Success
import KotlinSyntax.Proofs.Plan.Building.File
import KotlinSyntax.Proofs.Plan.Conversion

/-! The grammar and the conversion agree: what the one builds along the plans, the other reads along them. So a source
without faults becomes a tree, but for the demands that the grammar overlooks. -/
namespace KotlinSyntax.Source

open Conversion Grammar

variable {form : Form} {root : RawElement}

/-- The raw tree of a source has the parts of its kinds all over. -/
theorem raw_planned {fileName : Option String} {source : String} (h : (raw form fileName source).result = .ok root) :
    PlannedRoot (rootKind form) root := by
  obtain ⟨tokens, s, lexed, ran, sound⟩ := raw_ok h
  exact run_planned lexed ran sound

/-- The tokens of its leaves read as their kinds say. -/
theorem raw_legible {fileName : Option String} {source : String} (h : (raw form fileName source).result = .ok root) :
    ∀ l ∈ root.leaves, l.token.Legible := by
  obtain ⟨tokens, lexed, tiles, -⟩ := raw_tiles h
  intro l member
  rcases tiles.mem member with token | operator
  · exact ⟨fun _ => Lexer.tokenize_filled lexed _ token, Lexer.tokenize_escape lexed _ token⟩
  · constructor <;> intro kind <;> rw [operator] at kind <;> cases kind

/-- The raw tree of a source becomes nodes, or the conversion fails for a reason that is foreseen. -/
theorem raw_passes {fileName : Option String} {source : String} (h : (raw form fileName source).result = .ok root) :
    Passes (convertSource form root) fun _ => True := by
  have legible := raw_legible h
  obtain ⟨role, children, rfl, planned⟩ := raw_planned h
  exact convertSource_passes planned legible

/-- Wherever the raw tree of a source is converted in its own form, no step of the conversion finds a part that is
missing, superfluous or of the wrong kind: the conversion gives a node, or it fails for another reason. -/
theorem raw_fits_conversion (form : Form) (fileName : Option String) (source : String) (root : RawElement)
    (h : (raw form fileName source).result = .ok root) (s : Conversion.State) :
    (∃ n s', convertSource form root s = .ok n s') ∨
      ∃ e s', convertSource form root s = .error e s' ∧ e.isMisfit = false := by
  have passes := raw_passes h s
  cases converted : convertSource form root s with
  | ok n s' => exact .inl ⟨n, s', rfl⟩
  | error e s' =>
    rw [converted] at passes
    exact .inr ⟨e, s', rfl, passes.isMisfit⟩

/-- An extension with parts of many sorts, a trailing comma and an operator on two tokens. -/
theorem extension_fits_conversion : ∃ root,
    (raw .file none "fun <T> T.f(x: Int = 1,): Map<in T, *>? = a?.b(c) \x7b \"$x\" \x7d").result = .ok root ∧
      ∀ s : Conversion.State, (∃ n s', convertSource .file root s = .ok n s') ∨
        ∃ e s', convertSource .file root s = .error e s' ∧ e.isMisfit = false := by
  have read : (raw .file none
      "fun <T> T.f(x: Int = 1,): Map<in T, *>? = a?.b(c) \x7b \"$x\" \x7d").result.toOption.isSome = true := by
    decide +kernel
  cases found : (raw .file none "fun <T> T.f(x: Int = 1,): Map<in T, *>? = a?.b(c) \x7b \"$x\" \x7d").result with
  | error e =>
    rw [found] at read
    cases read
  | ok root => exact ⟨root, rfl, raw_fits_conversion .file none _ root found⟩

/-! What else may stop a source. -/

theorem raw_clear {fileName : Option String} {source : String} (h : (raw form fileName source).result = .ok root) :
    ∀ l ∈ root.leaves, Placement.Clear l := by
  obtain ⟨tokens, lexed, tiles, -⟩ := raw_tiles h
  intro l member kind
  rcases tiles.mem member with token | operator
  · have layout := Lexer.tokenize_shows lexed l.token token
    rw [kind] at layout
    refine ⟨Lexer.tokenize_filled lexed _ token, List.all_eq_true.mpr fun c inside => ?_⟩
    exact Text.isBlank_of_isLayout (List.all_eq_true.mp layout c inside)
  · rw [operator] at kind
    cases kind

/-- Behind a conversion all trivia has its place. -/
theorem raw_places {fileName : Option String} {source : String} {n : Node} {s s' : Conversion.State}
    (h : (raw form fileName source).result = .ok root) (converted : convertSource form root s = .ok n s') :
    ∃ extras, Placement.collect (Placement.producedBy s'.events root.size) root = .ok extras := by
  have clear := raw_clear h
  obtain ⟨role, children, rfl, planned⟩ := raw_planned h
  obtain ⟨rest, events⟩ := convertSource_closes converted
  rw [events]
  refine Placement.collect_succeeds (Placement.nodeAt_newest (o := ⟨0, _⟩) ?_)
    (Placement.extrasFor_offered (Planned.sorted planned) clear)
  simp only [RawElement.size]
  omega

/-- A source becomes a tree unless the lexer or the grammar stops it, it has a construct that no node stands for, it
breaks one of the demands that the grammar overlooks, or a word of a short template is no value. -/
theorem parse_stops_foreseen (form : Form) (o : Options) (source : String) (e : Error)
    (h : (parse form o source).result = .error e) : e.isFrontEnd = true ∨
      (∃ k : Kind, ∃ message ∈ k.overlooked, e = .conversion (.node (.invariant k.name message))) ∨
        ∃ found, e = .conversion (.unexpected "an expression" found) := by
  rcases parse_stopped h with stopped | ⟨root, read, ⟨c, s, converted, rfl⟩ | ⟨n, s, p, converted, placed, -⟩⟩
  · left
    rcases raw_stops_at_lexer_or_faults form o.fileName source with
      ⟨cause, -, lexed⟩ | ⟨_, _, _, -, -, ⟨-, fine⟩ | ⟨-, faulty⟩⟩
    · rw [lexed] at stopped
      cases stopped
      rfl
    · rw [fine] at stopped
      cases stopped
    · rw [faulty] at stopped
      cases stopped
      rfl
  · have foreseen := raw_passes read {}
    rw [converted] at foreseen
    cases foreseen with
    | unsupported construct offset => exact .inl rfl
    | word found => exact .inr (.inr ⟨found, rfl⟩)
    | @broken k message overlooked => exact .inr (.inl ⟨k, message, overlooked, rfl⟩)
  · obtain ⟨extras, placed'⟩ := raw_places read converted
    rw [placed] at placed'
    cases placed'

def stop? (form : Form) (source : String) : Option Error :=
  match (parse form {} source).result with
  | .error e => some e
  | .ok _ => none

theorem parse_of_stop? {source : String} {e : Error} (h : stop? form source = some e) :
    (parse form {} source).result = .error e := by
  unfold stop? at h
  split at h
  · rename_i e' stopped
    rw [stopped, Option.some.inj h]
  · cases h

/-- There is a source for each of the demands that the grammar overlooks. -/
theorem overlooked_stops (k : Kind) (message : String) (h : message ∈ k.overlooked) :
    ∃ source, (parse .file {} source).result = .error (.conversion (.node (.invariant k.name message))) := by
  cases k with
  | propertyDeclaration =>
    simp only [Kind.overlooked, List.mem_cons, List.not_mem_nil, or_false] at h
    rcases h with rfl | rfl | rfl
    · exact ⟨"val () = 1", parse_of_stop? (by decide +kernel)⟩
    · exact ⟨"val a: Int\nget() = 1\nget() = 2", parse_of_stop? (by decide +kernel)⟩
    · exact ⟨"var a: Int\nset(x) \x7b\x7d\nset(y) \x7b\x7d", parse_of_stop? (by decide +kernel)⟩
  | lambdaParam =>
    obtain rfl := List.mem_singleton.mp h
    exact ⟨"val a = \x7b () -> 1 \x7d", parse_of_stop? (by decide +kernel)⟩
  | importDirective =>
    obtain rfl := List.mem_singleton.mp h
    exact ⟨"import a.* as b", parse_of_stop? (by decide +kernel)⟩
  | whenBranch =>
    obtain rfl := List.mem_singleton.mp h
    exact ⟨"val a = when (x) \x7b -> 1 \x7d", parse_of_stop? (by decide +kernel)⟩
  | templateStringEntry =>
    obtain rfl := List.mem_singleton.mp h
    exact ⟨"val a = \"$true\"", parse_of_stop? (by decide +kernel)⟩
  | _ => cases h

end KotlinSyntax.Source
