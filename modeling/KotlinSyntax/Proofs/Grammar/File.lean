import KotlinSyntax.Grammar.File
import KotlinSyntax.Proofs.Grammar.Expression

/-! Whole sources. The bound on the depth of the rules is large enough, so reading the tokens of a source
always gives a tree, and the tree holds each token. -/
namespace KotlinSyntax.Grammar

open Builder RawElement

variable {may : Prop} {scope : Scope} {b₀ b : Builder} {m : Marker}

/-- What a rule stands for does its work where the rules that it calls do theirs below its place. -/
theorem body_gives {recur : Recur} {limit : Nat} (serves : Serves recur limit) {r : Rule} (placed : b.Placed)
    (applies : r.Applies b) (room : 4 * b.remaining + r.rank ≤ limit) :
    Ensures scope (body recur r) b (Gives Ordinary b) := by
  cases r with
  | expression => exact expression_gives serves placed room
  | unary => exact unary_gives serves placed (by simp only [Rule.rank] at room; omega)
  | typeReference receiver => exact typeReference_gives serves placed (by simp only [Rule.rank] at room; omega) receiver
  | annotationSet => exact annotationSet_gives serves placed (by simp only [Rule.rank] at room; omega) applies
  | statement => exact statement_gives serves placed room
  | classBody isEnum => exact classBody_gives serves placed (by simp only [Rule.rank] at room; omega)

/-- A rule with so many calls left serves where so many are enough. -/
theorem rule_serves (depth : Nat) : Serves (rule depth) depth := by
  induction depth with
  | zero =>
    intro r scope b placed applies room
    omega
  | succ depth ih => exact fun r scope b placed applies room => body_gives ih placed applies (by omega)

theorem remaining_le (b : Builder) : b.remaining ≤ b.significant.size := Nat.sub_le _ _

theorem depthFor_enough (b : Builder) : 4 * b.remaining + 4 ≤ depthFor b.significant.size := by
  have := remaining_le b
  unfold depthFor
  omega

/-! The header. -/

theorem qualifiedNameInto_took (h : Holds Outline.plain.holds b₀ m b) :
    Ensures scope (qualifiedNameInto m) b (Took Outline.plain.holds b₀ b) := by
  refine .bind h.expectName ?_
  rintro m b₁ ⟨h, less⟩
  refine (h.iterateWhile ?_).mono ?_
  · intro m b' h le more
    simp only [Bool.and_eq_true] at more
    obtain ⟨t, seen, kind⟩ := peek_of_seesKind more.1.2
    obtain ⟨u, first, _⟩ := peek_of_sees more.1.1
    obtain ⟨gap, next⟩ := h.placed.next first
    have proper := proper_of_peek next.placed ((behind_peek b' _ 0).trans seen)
    exact h.advanceTwice (ahead_of_sees more.1.1 (by decide)) seen
      (ordinary_of_isOperand proper (by rw [kind]; rfl))
  · rintro m b₂ ⟨⟨h, le⟩, _⟩
    exact ⟨h, by omega⟩

theorem packageDirective_gives (placed : b.Placed) (ahead : Ahead b) :
    Ensures scope packageDirective b (Gives Ordinary b) := by
  refine .bind ((Holds.plain placed).advance ahead) ?_
  rintro m b₁ ⟨h, less⟩
  refine .bind (qualifiedNameInto_took h) ?_
  rintro m b₂ ⟨h, less'⟩
  exact h.donePlain (by omega) rfl (fun _ => rfl)

theorem importAliasInto_kept (h : Holds Outline.plain.holds b₀ m b) :
    Ensures scope (importAliasInto m) b (Kept Outline.plain.holds b₀ b) := by
  refine .look (.ite ?_ fun _ => .pure ⟨h, Nat.le_refl _⟩)
  intro aliased
  simp only [Bool.and_eq_true] at aliased
  refine .bind ((Holds.plain h.placed).advance (ahead_of_sees aliased.1 (by decide))) ?_
  rintro m' b₁ ⟨k, less⟩
  refine .bind k.expectName ?_
  rintro m' b₂ ⟨k, less'⟩
  refine .bind (k.donePlain (P := Ordinary) (by omega) rfl (fun _ => rfl)) ?_
  intro p b₃ given
  exact .pure (h.took given).kept

theorem importDirective_gives (placed : b.Placed) (ahead : Ahead b) :
    Ensures scope importDirective b (Gives Ordinary b) := by
  refine .bind ((Holds.plain placed).advance ahead) ?_
  rintro m b₁ ⟨h, less⟩
  refine .bind h.expectName ?_
  rintro m b₂ ⟨h, less₂⟩
  refine .bind (h.iterate ?_) ?_
  · intro m b' h le
    refine .look (.ite ?_ fun _ => .pure ⟨h, Nat.le_refl _⟩)
    intro dot
    simp only [Bool.and_eq_true] at dot
    refine .bind (h.advance (ahead_of_sees dot.1 (by decide))) ?_
    rintro m b₃ ⟨h, less₃⟩
    refine .look (.ite ?_ ?_)
    · intro star
      refine .bind (h.advance (ahead_of_sees star (by decide))) ?_
      rintro m b₄ ⟨h, less₄⟩
      exact .pure ⟨h, by omega⟩
    · intro _
      refine .bind h.expectName ?_
      rintro m b₄ ⟨h, less₄⟩
      exact .pure ⟨h, by omega⟩
  · rintro m b₃ ⟨h, le₃⟩
    refine .bind (importAliasInto_kept h) ?_
    rintro m b₄ ⟨h, le₄⟩
    exact h.donePlain (by omega) rfl (fun _ => rfl)

theorem importList_gives (placed : b.Placed) (seen : b.sees "import" = true) :
    Ensures scope importList b (Gives Ordinary b) := by
  refine .bind ((Holds.plain placed).iterateWhile ?_) ?_
  · intro m b' h le seen
    refine .bind (importDirective_gives h.placed (ahead_of_sees seen (by decide))) ?_
    intro directive b'' given
    exact .pure (h.took given)
  · rintro m b₁ ⟨⟨h, _⟩, none⟩
    have less : b₁.remaining < b.remaining := by
      rcases h.eq_or_lt with rfl | less
      · rw [seen] at none
        cases none
      · exact less
    exact h.donePlain less rfl (fun _ => rfl)

theorem not_atEnd_of_sees {text : String} (h : b.sees text = true) : b.atEnd = false := by
  obtain ⟨t, seen, _⟩ := peek_of_sees h
  simp [atEnd, seen]

theorem headerInto_kept (h : Holds Outline.plain.holds b₀ m b) :
    Ends may scope (headerInto m) b (Kept Outline.plain.holds b₀ b) := by
  refine .bind (h.iterateWhile ?_) ?_
  · intro m b' h le annotated
    have seen : b'.sees "@" = true := by
      simp only [atFileAnnotations, Bool.and_eq_true] at annotated
      exact annotated.1.1.1
    have enough := depthFor_enough b'
    refine h.recovering (not_atEnd_of_sees seen) (.look ?_)
    exact (rule_serves _).annotationSet h.placed seen (by omega)
  · rintro m b₁ ⟨⟨h, le⟩, _⟩
    have packaged : Ends may scope (packageInto m) b₁ (Kept Outline.plain.holds b₀ b₁) := by
      refine .look (.ite ?_ fun _ => .pure ⟨h, Nat.le_refl _⟩)
      intro seen
      exact (h.recovering (not_atEnd_of_sees seen)
        (packageDirective_gives h.placed (ahead_of_sees seen (by decide)))).mono fun _ _ took => took.kept
    refine .bind packaged ?_
    rintro m b₂ ⟨h, le₂⟩
    refine .look (.ite ?_ fun _ => .pure ⟨h, by omega⟩)
    intro seen
    refine (h.recovering (not_atEnd_of_sees seen) (importList_gives h.placed seen)).mono ?_
    rintro m b₃ ⟨h, less⟩
    exact ⟨h, by omega⟩

/-! The root. -/

/-- The root holds all tokens of the builder where it began. -/
def Roots (b₀ : Builder) (root : RawElement) (_ : Builder) : Prop := Tiles root.leaves b₀.left ∧ Sound root

/-- What is left at the end goes to the root. -/
theorem finish_roots {kind : RawKind} (h : Holds Outline.plain.holds b₀ m b) (ended : b.atEnd = true)
    (plain : kind.isPlain = true) : Ends may scope (finish m kind) b (Roots b₀) := by
  obtain ⟨es, built, unmarked⟩ := h
  have blank := built.placed.left_of_atEnd ended
  obtain ⟨b', finished⟩ := finish_eq b m kind
  refine .look ?_
  rw [finished]
  refine .goTo (.pure ⟨?_, ?_⟩)
  · obtain ⟨used, split, tiled⟩ := built.tiles
    rw [split]
    have leaves := Marker.leaves_addTrivia m (b.left.map Leaf.ofToken)
    simp only [Marker.leaves] at leaves tiled
    simp only [RawElement.leaves, leavesAll_append, leavesAll_leaves]
    rw [leaves]
    exact tiled.append (.ofTokens b.left)
  · have trivia := ofTokens_trivia blank
    have blankFirst := Marker.leading_addTrivia m trivia built.leading
    have leading := significant_leaves blankFirst
    have parts := Marker.parts_addTrivia m trivia
    simp only [Marker.parts] at parts
    refine .node kind none _ (fits_of_isPlain plain ?_) ?_
    · rw [significant_append, leading, List.nil_append, parts]
      have same : RawElement.significant m.children.toList = es := built.parts
      rw [same]
      exact unmarked
    · intro e member
      rcases List.mem_append.mp member with member | member
      · obtain ⟨l, inside, rfl⟩ := List.mem_map.mp member
        exact .leaf l fun _ => (blankFirst l inside).unmarked
      · exact Marker.addTrivia_sound built.sound trivia e member

theorem file_roots (placed : b.Placed) : Ends may scope file b (Roots b) := by
  refine .bind (headerInto_kept (Holds.plain placed)) ?_
  rintro m b₁ ⟨h, _⟩
  have enough := depthFor_enough b₁
  refine .look (.bind (h.iterateWhile ?_) ?_)
  · intro m b' h le more
    exact h.recovering (by simpa using more) (declarationOnly_gives (rule_serves _) h.placed (by omega))
  · rintro m b₂ ⟨⟨h, _⟩, ended⟩
    exact finish_roots h (by simpa using ended) rfl

theorem script_roots (placed : b.Placed) : Ends may scope script b (Roots b) := by
  refine .bind (headerInto_kept (Holds.plain placed)) ?_
  rintro m b₁ ⟨h, _⟩
  have enough := depthFor_enough b₁
  refine .look (.bind (statementsInto_kept (rule_serves _) h enough) ?_)
  rintro m b₂ ⟨⟨h, _⟩, ended⟩
  exact finish_roots h (ended rfl) rfl

theorem source_roots (form : Form) (placed : b.Placed) : Ends may scope (Grammar.source form) b (Roots b) := by
  cases form with
  | file => exact file_roots placed
  | script => exact script_roots placed

/-- Whatever the tokens of a source are, there is a tree that holds each of them. -/
theorem run_source {source : String} {tokens : List Token} (form : Form) (h : Lexer.tokenize source = .ok tokens) :
    ∃ root s, run (Grammar.source form) tokens = .ok root s ∧ Tiles root.leaves tokens ∧ Sound root := by
  have placed := ofTokens_placed (Lexer.tokenize_proper h) (Lexer.tokenize_named h)
  have roots : Ends False {} (Grammar.source form) (.ofTokens tokens) (Roots (.ofTokens tokens)) :=
    source_roots form placed
  obtain ⟨root, b, gets, tiles, sound⟩ := roots.gets_of_false
  rw [ofTokens_left] at tiles
  unfold Gets at gets
  unfold run
  generalize Grammar.source form {} (Builder.ofTokens tokens) = answer at gets ⊢
  obtain ⟨faults, log, result⟩ := answer
  cases gets
  exact ⟨root, ⟨b, faults, log⟩, rfl, tiles, sound⟩

/-- The tree of a source loses nothing, whether or not faults were recorded: its leaves are the tokens, each
once and in order, or operators over tokens that touch, and its text is the source. -/
theorem leaves_tile_source (source : String) (form : Form) (tokens : List Token)
    (h : Lexer.tokenize source = .ok tokens) :
    ∃ root s, run (Grammar.source form) tokens = .ok root s ∧ Tiles root.leaves tokens ∧ root.text = source := by
  obtain ⟨root, s, ran, tiles, _⟩ := run_source form h
  exact ⟨root, s, ran, tiles, by rw [RawElement.text, tiles.text, Lexer.tokenize_text h]⟩

/-- A property without a name is a fault, and the operator behind it is glued all the same. -/
theorem leaves_tile_nameless : ∃ root s, run (Grammar.source .script)
    [⟨.keyword, 0, 3, "val"⟩, ⟨.operator, 3, 4, "="⟩, ⟨.identifier, 4, 5, "a"⟩, ⟨.operator, 5, 6, "?"⟩,
      ⟨.operator, 6, 7, "."⟩, ⟨.identifier, 7, 8, "b"⟩] = .ok root s ∧
    Tiles root.leaves [⟨.keyword, 0, 3, "val"⟩, ⟨.operator, 3, 4, "="⟩, ⟨.identifier, 4, 5, "a"⟩,
      ⟨.operator, 5, 6, "?"⟩, ⟨.operator, 6, 7, "."⟩, ⟨.identifier, 7, 8, "b"⟩] ∧ root.text = "val=a?.b" :=
  leaves_tile_source "val=a?.b" .script _ (by decide +kernel)

end KotlinSyntax.Grammar
