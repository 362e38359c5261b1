import KotlinSyntax.Proofs.Parse.Spelling

/-! Formulas: names joined by operators of several levels. What is written of a formula is read back token by token. -/
namespace KotlinSyntax

/-- Names joined by operators. A level that is higher binds more tightly. -/
inductive Formula
  | name (text : String)
  | operation (left : Formula) (level : Nat) (op : String) (right : Formula)

namespace Formula

open Lexer

/-- The operators of a level. At level 7 any name is one. -/
def signs : Nat → List String
  | 0 => ["=", "+=", "-=", "*=", "/=", "%="]
  | 1 => ["||"]
  | 2 => ["&&"]
  | 3 => ["===", "!==", "==", "!="]
  | 4 => ["<=", ">=", "<", ">"]
  | 5 => ["in", "!in"]
  | 6 => ["?:"]
  | 8 => ["..<", ".."]
  | 9 => ["+", "-"]
  | 10 => ["*", "/", "%"]
  | 13 => ["?.", "."]
  | _ => []

def joins (level : Nat) (op : String) : Bool := if level = 7 then isIdentifier op else (signs level).contains op

def level : Formula → Nat
  | name _ => 14
  | operation _ level _ _ => level

/-- Operators group to the left, and assignments to the right. -/
def fits : Formula → Bool
  | name text => isIdentifier text
  | operation left level op right => joins level op && left.fits && right.fits &&
      if level = 0 then decide (0 < left.level) else decide (level ≤ left.level) && decide (level < right.level)

def words : Formula → List String
  | name text => [text]
  | operation left _ op right => left.words ++ op :: right.words

def kind (level : Nat) : TokenKind := if level = 7 then .identifier else if level = 5 then .keyword else .operator

def leaf (kind : TokenKind) (text : String) : RawElement := .leaf ⟨⟨kind, 0, 0, text⟩, false⟩

def shape : Formula → RawElement
  | name text => leaf .identifier text
  | operation left level op right =>
    .node (if level = 7 then .infixExpression else .binaryExpression) none
      [left.shape, leaf (kind level) op, right.shape]

def lastWord : Formula → String
  | name text => text
  | operation _ _ _ right => right.lastWord

/-! What a formula looks like to a builder. -/

def glance (kind : TokenKind) (text : String) (touches : Bool) : Glance := ⟨⟨kind, 0, 0, text⟩, touches⟩

/-- An operator in sight. It may be in pieces, which touch. -/
def operator (touches : Bool) (level : Nat) (op : String) : List Glance :=
  match Builder.pieces op with
  | [first, second] => [glance (kind level) first touches, glance (kind level) second true]
  | _ => [glance (kind level) op touches]

/-- Whether a word touches the one in front of it, if there is one. -/
abbrev Spacing := Option String → String → Bool

def blanks : Spacing := fun last _ => last.isNone

/-- No two words that touch are read as one name. -/
def Spacing.Clear (spacing : Spacing) (ws : List String) : Prop :=
  ws.IsChain fun a b => spacing (some a) b = true → Parted a.toList b.toList

def glances (spacing : Spacing) (last : Option String) : Formula → List Glance
  | name text => [glance .identifier text (spacing last text)]
  | operation left level op right => left.glances spacing last ++
      operator (spacing (some left.lastWord) op) level op ++ right.glances spacing (some op)

variable {f : Formula} {n : Nat} {op w : String} {view : List Glance} {touches : Bool} {spacing : Spacing}

theorem operator_cases (touches : Bool) (level : Nat) (op : String) :
    (Builder.pieces op = [op] ∧ operator touches level op = [glance (kind level) op touches]) ∨
      ∃ first second, Builder.pieces op = [first, second] ∧ op = first ++ second ∧
        operator touches level op = [glance (kind level) first touches, glance (kind level) second true] := by
  unfold operator
  rcases Grammar.pieces_cases op with one | ⟨first, second, two, joined⟩
  · exact .inl ⟨one, by rw [one]⟩
  · exact .inr ⟨first, second, two, joined, by rw [two]⟩

/-- A formula begins with a name. -/
theorem glances_front (fits : f.fits = true) (spacing : Spacing) (last : Option String) (rest : List Glance) :
    ∃ text tail, isIdentifier text = true ∧ f.words.head? = some text ∧
      f.glances spacing last ++ rest = glance .identifier text (spacing last text) :: tail := by
  induction f generalizing rest with
  | name text => exact ⟨text, rest, fits, rfl, rfl⟩
  | operation left level op right ihl _ =>
    simp only [Formula.fits, Bool.and_eq_true] at fits
    rw [glances, List.append_assoc, List.append_assoc]
    obtain ⟨text, tail, is, first, front⟩ := ihl fits.1.1.2 _
    exact ⟨text, tail, is, by rw [words, List.head?_append, first]; rfl, front⟩

theorem words_getLast? (f : Formula) : f.words.getLast? = some f.lastWord := by
  induction f with
  | name text => rfl
  | operation left level op right _ ihr =>
    have some : right.words ≠ [] := by
      rintro none
      rw [none] at ihr
      cases ihr
    rw [words, List.getLast?_append_of_ne_nil _ (List.cons_ne_nil op _), List.getLast?_cons_of_ne_nil some, ihr, lastWord]

/-! The text of a formula. -/

theorem spelling_append (view view' : List Glance) : spelling (view ++ view') = spelling view ++ spelling view' :=
  List.flatMap_append

theorem spelling_operator (touches : Bool) (level : Nat) (op : String) :
    spelling (operator touches level op) = (glance (kind level) op touches).chars := by
  rcases operator_cases touches level op with ⟨_, whole⟩ | ⟨first, second, _, rfl, whole⟩
  · simp [whole]
  · cases touches <;> simp [whole, glance, Glance.chars]

theorem spelling_blanks (f : Formula) (w : String) :
    spelling (f.glances blanks (some w)) = f.words.flatMap fun w => ' ' :: w.toList := by
  induction f generalizing w with
  | name text => simp [glances, glance, Glance.chars, words, blanks]
  | operation left level op right ihl ihr =>
    rw [glances, spelling_append, spelling_append, ihl, ihr, spelling_operator, words]
    simp [glance, Glance.chars, blanks]

theorem spelling_touching (f : Formula) (w : String) :
    spelling (f.glances blanks (some w)) = ' ' :: spelling (f.glances blanks none) := by
  induction f with
  | name text => rfl
  | operation left level op right ihl _ =>
    rw [glances, glances, spelling_append, spelling_append, ihl, spelling_append, spelling_append]
    rfl

theorem toList_intercalate (w : String) (ws : List String) :
    ' ' :: (" ".intercalate (w :: ws)).toList = (w :: ws).flatMap fun w => ' ' :: w.toList := by
  induction ws generalizing w with
  | nil => simp
  | cons v ws ih =>
    rw [String.intercalate_cons_cons, List.flatMap_cons, ← ih]
    simp

/-- The text of a formula, with blanks where words are not to touch. -/
def spelled (f : Formula) (spacing : Spacing) : String := String.ofList (spelling (f.glances spacing none))

def text (f : Formula) : String := " ".intercalate f.words

theorem spelled_blanks (f : Formula) : f.spelled blanks = f.text := by
  obtain ⟨w, ws, whole⟩ : ∃ w ws, f.words = w :: ws := by
    have last := f.words_getLast?
    cases all : f.words with
    | nil => rw [all] at last; cases last
    | cons w ws => exact ⟨w, ws, rfl⟩
  have same := toList_intercalate w ws
  rw [← whole, ← spelling_blanks f "", spelling_touching] at same
  rw [spelled, text, ← (List.cons.inj same).2, String.ofList_toList]

/-! The tokens of a formula. -/

theorem pieces_of_isIdentifier (is : isIdentifier op = true) : Builder.pieces op = [op] := by
  have ne (text : String) (isn't : isIdentifier text = false) : (op == text) = false :=
    beq_eq_false_iff_ne.mpr (ne_of_isIdentifier is isn't)
  simp [Builder.pieces, ne "?." (by decide), ne "?:" (by decide), ne ">=" (by decide), ne "as?" (by decide)]

theorem mem_range_of_sign (sign : op ∈ signs n) : n ∈ List.range 14 := by
  rw [List.mem_range]
  unfold signs at sign
  split at sign <;> first | omega | cases sign

theorem sign_of_joins (joined : joins n op = true) (other : n ≠ 7) : op ∈ signs n := by
  rw [joins, if_neg other] at joined
  exact List.contains_iff_mem.mp joined

/-- A word with a blank in front of it, or one that is clear of the text it touches. -/
theorem parted_chars {kind : TokenKind} {text : List Char} (some : w.toList ≠ [])
    (clear : touches = true → Parted text w.toList) (rest : List Char) :
    Parted text ((glance kind w touches).chars ++ rest) := by
  intro goes
  cases touches with
  | false => rfl
  | true =>
    have next := clear rfl goes
    obtain ⟨c, cs, chars⟩ := List.exists_cons_of_ne_nil some
    have front : (glance kind w true).chars = w.toList := rfl
    rw [front, chars]
    rwa [chars] at next

theorem toList_ne_nil_of_isIdentifier (is : isIdentifier w = true) : w.toList ≠ [] := by
  obtain ⟨⟨c, first, _⟩, _⟩ := edges_of_isIdentifier is
  intro none
  rw [none] at first
  cases first

theorem toList_ne_nil_of_joins (joined : joins n op = true) : op.toList ≠ [] := by
  by_cases seven : n = 7
  · subst seven
    exact toList_ne_nil_of_isIdentifier joined
  · have known : ∀ n ∈ List.range 14, ∀ op ∈ signs n, op.toList ≠ [] := by decide +kernel
    have sign := sign_of_joins joined seven
    exact known n (mem_range_of_sign sign) op sign

def NameNext (view : List Glance) : Prop := ∃ c ∈ (spelling view).head?, (c == ' ' || isWordChar c) = true

theorem nameNext_glances (fits : f.fits = true) (last : Option String) (view : List Glance) :
    NameNext (f.glances spacing last ++ view) := by
  obtain ⟨text, tail, is, _, front⟩ := glances_front fits spacing last view
  obtain ⟨⟨c, first, word⟩, _⟩ := edges_of_isIdentifier is
  rw [NameNext, front, spelling_cons]
  cases spacing last text with
  | false => exact ⟨' ', rfl, rfl⟩
  | true =>
    refine ⟨c, ?_, by simp [word]⟩
    have chars : (glance .identifier text true).chars = text.toList := rfl
    rw [chars, List.head?_append, Option.mem_def.mp first]
    rfl

theorem legible_name {text : String} (touches : Bool) (is : isIdentifier text = true)
    (parted : Parted text.toList (spelling view)) (tail : Legible view) :
    Legible (glance .identifier text touches :: view) :=
  .cons touches rfl (name_cuts is parted) tail

theorem legible_operator (touches : Bool) (joined : joins n op = true) (parted : Parted op.toList (spelling view))
    (next : NameNext view) (tail : Legible view) : Legible (operator touches n op ++ view) := by
  by_cases seven : n = 7
  · subst seven
    have is : isIdentifier op = true := joined
    have whole : operator touches 7 op = [glance .identifier op touches] := by
      rw [operator, pieces_of_isIdentifier is]
      rfl
    rw [whole]
    exact legible_name touches is parted tail
  have sign := sign_of_joins joined seven
  by_cases five : n = 5
  · subst five
    have either : op = "in" ∨ op = "!in" := by simpa [signs] using sign
    rcases either with rfl | rfl
    · exact .cons touches rfl (word_cuts (by decide) (by decide) (parted (by decide))) tail
    · exact .cons touches rfl (negation_cuts (parted (by decide))) tail
  have isOperator : kind n = .operator := by rw [kind, if_neg seven, if_neg five]
  have known : ∀ n ∈ List.range 14, n ≠ 5 → ∀ op ∈ signs n, ∀ piece ∈ Builder.pieces op, piece ∈ operators ∧
      ∀ o ∈ operators ++ ["//", "/*", "!in", "!is"], piece.toList.isPrefixOf o.toList = true →
        (o.toList.drop piece.toList.length).head?.all (fun c => !(c == ' ' || isWordChar c)) = true := by decide +kernel
  have pieces := known n (mem_range_of_sign sign) five op sign
  have ends {piece : String} (member : piece ∈ Builder.pieces op) : (spelling view).head?.any (goesOn piece) = false := by
    obtain ⟨c, first, is⟩ := next
    rw [Option.mem_def.mp first]
    exact goesOn_eq_false (p := fun c => c == ' ' || isWordChar c) (pieces piece member).2 is
  rcases operator_cases touches n op with ⟨one, whole⟩ | ⟨first, second, two, _, whole⟩
  · have member : op ∈ Builder.pieces op := by simp [one]
    rw [whole, glance, isOperator]
    exact .cons touches rfl (operator_cuts (pieces op member).1 (ends member)) tail
  · have member : first ∈ Builder.pieces op := by simp [two]
    have member' : second ∈ Builder.pieces op := by simp [two]
    have cuts := operator_cuts (pieces second member').1 (ends member')
    have behind : Legible (⟨⟨.operator, 0, 0, second⟩, true⟩ :: view) := .cons true rfl cuts tail
    have known : ∀ n ∈ List.range 14, ∀ op ∈ signs n, ∀ first ∈ (Builder.pieces op).head?,
        ∀ second ∈ (Builder.pieces op)[1]?, second.toList.head?.all (!goesOn first ·) = true := by decide +kernel
    have apart := known n (mem_range_of_sign sign) op sign first (by simp [two]) second (by simp [two])
    have close : (spelling (⟨⟨.operator, 0, 0, second⟩, true⟩ :: view)).head?.any (goesOn first) = false := by
      obtain ⟨c, taken, chars, _⟩ := cuts
      simpa [Glance.chars, chars] using apart
    rw [whole, glance, glance, isOperator]
    exact .cons touches rfl (operator_cuts (pieces first member).1 close) behind

theorem legible_glances (f : Formula) (fits : f.fits = true) (last : Option String) (clear : spacing.Clear f.words)
    (parted : Parted f.lastWord.toList (spelling view)) (tail : Legible view) :
    Legible (f.glances spacing last ++ view) := by
  induction f generalizing last view with
  | name text => exact legible_name _ fits parted tail
  | operation left level op right ihl ihr =>
    simp only [Formula.fits, Bool.and_eq_true] at fits
    obtain ⟨⟨⟨joined, fits₁⟩, fits₂⟩, _⟩ := fits
    obtain ⟨clear₁, behind, seam⟩ := List.isChain_append.mp clear
    obtain ⟨first, clear₂⟩ := List.isChain_cons.mp behind
    have operand := ihr fits₂ (some op) clear₂ parted tail
    have parted₂ : Parted op.toList (spelling (right.glances spacing (some op) ++ view)) := by
      obtain ⟨text, rest, is, head, front⟩ := glances_front fits₂ spacing (some op) view
      rw [front, spelling_cons]
      exact parted_chars (toList_ne_nil_of_isIdentifier is) (first text head) _
    have parted₁ : Parted left.lastWord.toList
        (spelling (operator (spacing (some left.lastWord) op) level op ++ (right.glances spacing (some op) ++ view))) := by
      rw [spelling_append, spelling_operator]
      exact parted_chars (toList_ne_nil_of_joins joined) (seam _ left.words_getLast? op rfl) _
    rw [glances, List.append_assoc, List.append_assoc]
    exact ihl fits₁ last clear₁ parted₁ (legible_operator _ joined parted₂ (nameNext_glances fits₂ _ _) operand)

/-- The tokens of the text of a formula. -/
theorem tokenize_spelled (fits : f.fits = true) (clear : spacing.Clear f.words) : ∃ tokens,
    tokenize (f.spelled spacing) = .ok tokens ∧ (Builder.ofTokens tokens).At tokens (f.glances spacing none) := by
  have legible : Legible (f.glances spacing none ++ []) := legible_glances f fits none clear (fun _ => rfl) .nil
  rw [List.append_nil] at legible
  exact legible.tokenize

theorem clear_blanks (ws : List String) : blanks.Clear ws :=
  (List.pairwise_of_forall fun _ _ touches => by cases touches).isChain

end Formula

end KotlinSyntax
