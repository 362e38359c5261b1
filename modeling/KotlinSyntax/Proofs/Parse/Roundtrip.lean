import KotlinSyntax.Proofs.Line
import KotlinSyntax.Proofs.Parse.Precedence
import KotlinSyntax.Proofs.Types.Conversion

/-! Formulas that return. What is written of the tree of a formula, with no more blanks than criteria ask for, is read
as a tree that holds the same. -/
namespace KotlinSyntax.Formula

open Conversion
open Lexer (isIdentifier)

inductive IsTree : Formula → Node → Prop
  | name {id : Nat} {text : String} : IsTree (.name text) (.mk id (.kind .nameExpression) [(.text, .text text)] [])
  | operation {id sign level : Nat} {op : String} {left right : Formula} {l r : Node} (lhs : IsTree left l)
      (rhs : IsTree right r) : IsTree (.operation left level op right)
        (.mk id (.kind (if level = 7 then .binaryInfixExpression else .binaryExpression)) []
          (one .lhs l ++ one .operator
            (.mk sign (.kind (if level = 7 then .nameExpression else .keyword)) [(.text, .text op)] []) ++ one .rhs r))

variable {f : Formula} {n m : Node} {ws : List String}

/-- Beside the numbers a formula has one tree. -/
theorem IsTree.unnumbered_eq (h : f.IsTree n) (k : f.IsTree m) : n.unnumbered = m.unnumbered := by
  induction f generalizing n m with
  | name text =>
    cases h
    cases k
    rfl
  | operation left level op right ihl ihr =>
    cases h with
    | operation lhs rhs =>
      cases k with
      | operation lhs' rhs' => simp [Node.unnumbered, ihl lhs lhs', ihr rhs rhs']

/-! The tree of a formula. -/

/-- Every operator is one that the rule for operations knows. -/
theorem known_operator {level : Nat} {op : String} (joined : joins level op = true) (other : level ≠ 7) :
    op ∈ Keyword.binaryOperators := by
  have known : ∀ level ∈ List.range 14, ∀ op ∈ signs level, op ∈ Keyword.binaryOperators := by decide +kernel
  have sign := sign_of_joins joined other
  exact known level (mem_range_of_sign sign) op sign

/-- An operation is made of its operands and of what the operator is read as. -/
theorem operation_obtains {k : Kind} {operator : Reading Node} {e e' : RawElement} {t : Token} {P Q R : Node → Prop}
    {o : Owner} {items : List Item} (sound : ∀ id children, (Node.mk id (.kind k) [] children).broken? = none)
    (h : Along items [e, .leaf ⟨t, false⟩, e']) (left : IsReadAs .expression e P)
    (sign : ∀ items, Along items [.leaf ⟨t, false⟩, e'] →
      Obtains operator o items fun n items' => Q n ∧ Along items' [e'])
    (right : IsReadAs .expression e' R) :
    Obtains (Conversion.operation k operator (nextAs .expression)) o items fun m _ => ∃ id l s r,
      P l ∧ Q s ∧ R r ∧ m = Node.mk id (.kind k) [] (one .lhs l ++ one .operator s ++ one .rhs r) := by
  refine .bind (h.nextAs left) ?_
  rintro l items ⟨first, h⟩
  refine .bind (sign items h) ?_
  rintro s items ⟨second, h⟩
  refine .bind (h.nextAs right) ?_
  rintro r items ⟨third, h⟩
  rw [h.eq_nil]
  exact finish_obtains (fun id => sound id _) fun id => ⟨id, l, s, r, first, second, third, rfl⟩

/-- The raw tree of a formula is read as its tree. -/
theorem shape_isReadAs (f : Formula) (fits : f.fits = true) : IsReadAs .expression f.shape f.IsTree := by
  induction f with
  | name text =>
    intro i h
    refine (isReadAs_name fits i h).mono ?_
    rintro _ ⟨id, rfl⟩
    exact .name
  | operation left level op right ihl ihr =>
    simp only [Formula.fits, Bool.and_eq_true] at fits
    obtain ⟨⟨⟨joined, fits₁⟩, fits₂⟩, _⟩ := fits
    have plain : ∀ e ∈ [left.shape, leaf (kind level) op, right.shape], e.isTrivia = false := by
      have part (f : Formula) : f.shape.isTrivia = false := by cases f <;> rfl
      have sign : (leaf (kind level) op).isTrivia = false := rfl
      simp only [List.mem_cons, List.not_mem_nil, or_false, forall_eq_or_imp, forall_eq]
      exact ⟨part left, sign, part right⟩
    rw [shape]
    by_cases seven : level = 7
    · subst seven
      apply isReadAs_of_rule plain fun _ _ _ => rfl
      intro o items h
      have word : leaf (kind 7) op = wordLeaf op := by
        rw [wordLeaf, wordToken, if_pos (show isIdentifier op = true from joined)]
        rfl
      have sign (items : List Item) (h : Along items [leaf (kind 7) op, right.shape]) :
          Obtains Conversion.name o items fun n items' =>
            (∃ id, n = Node.mk id (.kind .nameExpression) [(.text, .text op)] []) ∧ Along items' [right.shape] := by
        rw [word] at h
        exact h.nameExpression joined
      refine (operation_obtains (fun _ _ => rfl) h (ihl fits₁) sign (ihr fits₂)).mono ?_
      rintro _ _ ⟨id, l, _, r, lhs, ⟨number, rfl⟩, rhs, rfl⟩
      exact .operation lhs rhs
    · rw [if_neg seven]
      apply isReadAs_of_rule plain fun _ _ _ => rfl
      intro o items h
      have sign (items : List Item) (h : Along items [leaf (kind level) op, right.shape]) :
          Obtains (keywordOf Keyword.binaryOperators) o items fun n items' =>
            (∃ id, n = Node.mk id (.kind .keyword) [(.text, .text op)] []) ∧ Along items' [right.shape] :=
        h.keywordOf (known_operator joined seven)
      refine (operation_obtains (fun _ _ => rfl) h (ihl fits₁) sign (ihr fits₂)).mono ?_
      rintro _ _ ⟨id, l, _, r, lhs, ⟨number, rfl⟩, rhs, rfl⟩
      have tree := @IsTree.operation id number level op left right l r lhs rhs
      simpa [seven] using tree

/-! The text of the tree. -/

section

attribute [local simp] Node.words_mk Node.layout Piece.words tokenWords Piece.isInline text_mk

theorem IsTree.words (h : f.IsTree n) : n.words = f.words := by
  induction h with
  | name => simp [Formula.words]
  | @operation id sign level op left right l r lhs rhs ihl ihr =>
    by_cases seven : level = 7
    · simp [seven, ihl, ihr, Formula.words]
    · simp [seven, ihl, ihr, Formula.words]

theorem allInline_word {id : Nat} {k : Kind} {text : String} (either : k = .nameExpression ∨ k = .keyword)
    (some : text.toList ≠ []) : (Node.mk id (.kind k) [(.text, .text text)] []).AllInline := by
  have some : text ≠ "" := by
    rintro rfl
    exact some rfl
  rcases either with rfl | rfl
  · exact allInline_mk (by decide) (by simpa using some) (by simp)
  · exact allInline_mk (by decide) (by simpa using some) (by simp)

theorem IsTree.allInline (h : f.IsTree n) (fits : f.fits = true) : n.AllInline := by
  induction h with
  | name => exact allInline_word (.inl rfl) (toList_ne_nil_of_isIdentifier fits)
  | @operation id sign level op left right l r lhs rhs ihl ihr =>
    simp only [Formula.fits, Bool.and_eq_true] at fits
    obtain ⟨⟨⟨joined, fits₁⟩, fits₂⟩, _⟩ := fits
    have word (k : Kind) (either : k = .nameExpression ∨ k = .keyword) :
        (Node.mk sign (.kind k) [(.text, .text op)] []).AllInline :=
      allInline_word either (toList_ne_nil_of_joins joined)
    by_cases seven : level = 7
    · have children := And.intro (ihl fits₁) (And.intro (word .nameExpression (.inl rfl)) (ihr fits₂))
      rw [if_pos seven, if_pos seven]
      exact allInline_mk (by decide) (by simp) (by simpa using children)
    · have children := And.intro (ihl fits₁) (And.intro (word .keyword (.inr rfl)) (ihr fits₂))
      rw [if_neg seven, if_neg seven]
      exact allInline_mk (by decide) (by simp) (by simpa using children)

end

/-- A blank where a criterion asks for one. -/
def tight : Spacing := fun last w => !Writer.asksBlank last w

theorem spelling_tight (f : Formula) (last : Option String) :
    spelling (f.glances tight last) = (Writer.spaced last f.words).toList := by
  have chars (kind : TokenKind) (last : Option String) (w : String) :
      (glance kind w (tight last w)).chars = ((if Writer.asksBlank last w then " " else "") ++ w).toList := by
    cases asked : Writer.asksBlank last w <;> simp [glance, Glance.chars, tight, asked]
  induction f generalizing last with
  | name text => simp [glances, words, Writer.spaced, chars]
  | operation left level op right ihl ihr =>
    rw [glances, spelling_append, spelling_append, ihl, ihr, spelling_operator, chars, words, Writer.spaced_append,
      words_getLast?, Writer.spaced]
    simp
    rfl

theorem spelled_tight (f : Formula) : f.spelled tight = Writer.spaced none f.words := by
  rw [spelled, spelling_tight, String.ofList_toList]

/-- If each character is a single unit, criteria see where two names would be read as one. -/
theorem clear_tight (single : ws.all (·.toList.all Text.isSingle) = true) : tight.Clear ws := by
  have parted : ∀ a ∈ ws, ∀ b ∈ ws, tight (some a) b = true → Lexer.Parted a.toList b.toList := by
    intro a first b second touches goes
    rw [Bool.eq_false_iff]
    intro begins
    obtain ⟨c, last, continues⟩ := (Option.any_eq_true _ _).mp goes
    obtain ⟨d, front, continues'⟩ := (Option.any_eq_true _ _).mp begins
    have edge {w : String} {c : Char} (inside : w ∈ ws) (member : c ∈ w.toList) : Text.edge c = c :=
      if_pos (List.all_eq_true.mp (List.all_eq_true.mp single w inside) c member)
    have symbols : Writer.isNonSymbol (Text.lastUnit? a) = true ∧ Writer.isNonSymbol (Text.firstUnit? b) = true := by
      rw [Text.lastUnit?, Text.firstUnit?, last, front]
      simp [Writer.isNonSymbol, edge first (List.mem_of_getLast? last), edge second (List.mem_of_head? front), continues,
        continues']
    have asked : Writer.asksBlank (some a) b = true := by
      simp [Writer.asksBlank, Writer.spaceCriteria, symbols]
    simp [tight, asked] at touches
  exact (List.pairwise_of_forall_mem_list parted).isChain

/-! There and back. -/

/-- The text is read as one expression without faults, and the expression is converted to the node. -/
def ReadAs (text : String) (n : Node) : Prop := ∃ tokens p s s', Lexer.tokenize text = .ok tokens ∧
  Grammar.run (Grammar.apply .expression) tokens = .ok p s ∧ s.faults = [] ∧ s.builder.atEnd = true ∧
    Conversion.convert 0 p.element .expression {} = .ok n s'

/-- However its words are spaced, as long as they stand apart, a formula is read as its tree. -/
theorem spelled_readAs (f : Formula) (fits : f.fits = true) {spacing : Spacing} (clear : spacing.Clear f.words) :
    ∃ n, ReadAs (f.spelled spacing) n ∧ f.IsTree n := by
  obtain ⟨tokens, p, s, lexed, ran, sound, ended, shown⟩ := parses_spelled f fits clear
  have presents : Presents ⟨⟨0, p.element⟩, convert 0 p.element⟩ f.shape := by
    constructor
    · exact shown.element_bare
    · intro l member
      exact shown.known l (by rw [Marker.leaves_ofParsed]; exact List.mem_append_right _ member)
    · rfl
  obtain ⟨n, s', converted, tree⟩ := shape_isReadAs f fits _ presents {}
  exact ⟨n, ⟨tokens, p, s, s', lexed, ran, sound, ended, converted⟩, tree⟩

/-- A formula that is read and written without extras is read again as a tree that holds the same. A character of two
units is no letter to the criteria, so the words hold none. -/
theorem plain_text_reads_back (f : Formula) (fits : f.fits = true)
    (single : f.words.all (·.toList.all Text.isSingle) = true) : ∃ n t, ReadAs f.text n ∧
      ({} : Writer).write n = .ok (f.spelled tight) ∧ ReadAs (f.spelled tight) t ∧ t.unnumbered = n.unnumbered := by
  obtain ⟨n, read, tree⟩ := spelled_readAs f fits (clear_blanks f.words)
  obtain ⟨t, reread, tree'⟩ := spelled_readAs f fits (clear_tight single)
  rw [spelled_blanks] at read
  refine ⟨n, t, read, ?_, reread, tree'.unnumbered_eq tree⟩
  rw [Writer.write_spaced (tree.allInline fits), tree.words, spelled_tight]

theorem plain_ladder_reads_back : ∃ n t, ReadAs ladder.text n ∧
    ({} : Writer).write n = .ok "a+=i||b?.c.d*e+f-g..<h to`in`?:j!in k>=l!==m&&n" ∧
      ReadAs "a+=i||b?.c.d*e+f-g..<h to`in`?:j!in k>=l!==m&&n" t ∧ t.unnumbered = n.unnumbered := by
  have text : ladder.spelled tight = "a+=i||b?.c.d*e+f-g..<h to`in`?:j!in k>=l!==m&&n" := by decide +kernel
  rw [← text]
  exact plain_text_reads_back ladder (by decide +kernel) (by decide +kernel)

/-- Two words that would be one name, the first of which ends with a letter of two units. -/
example : (operation (name "𝐀") 5 "in" (name "b")).spelled tight = "𝐀in b" := by decide +kernel

end KotlinSyntax.Formula
