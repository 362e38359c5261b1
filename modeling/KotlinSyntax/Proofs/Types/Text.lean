import KotlinSyntax.Proofs.Line
import KotlinSyntax.Proofs.Types.Phrase

/-! The text of a type. No criterion asks for a blank between words that touch, so the text consists of the words, and
no two of them are read as one, so they are its tokens. -/
namespace KotlinSyntax

open Lexer
open Conversion (one opt many)

/-! Words that touch. -/

section

variable {w a b : String} {ws : List String}

theorem units_of_isIdentifier (is : isIdentifier w = true) {d : Char} (other : isWordChar d = false) (whole : d ≠ Text.half) :
    Text.firstUnit? w ≠ some (String.singleton d) ∧ Text.lastUnit? w ≠ some (String.singleton d) := by
  have edge {c : Char} (is : isWordChar c = true) : Text.edge c ≠ d := by
    unfold Text.edge
    split
    · rintro rfl
      rw [is] at other
      cases other
    · exact whole.symm
  obtain ⟨⟨c, first, isFirst⟩, z, last, isLast⟩ := edges_of_isIdentifier is
  rw [Text.firstUnit?, Text.lastUnit?, first, last]
  simp [edge isFirst, edge isLast, String.singleton_inj]

theorem units_of_known (known : isTypeName w = true ∨ w ∈ typeSigns) : Text.firstUnit? w ≠ some "=" ∧
    Text.firstUnit? w ≠ some "+" ∧ Text.firstUnit? w ≠ some "@" ∧ Text.lastUnit? w ≠ some "-" := by
  have signs : ∀ w ∈ typeSigns, Text.firstUnit? w ≠ some "=" ∧ Text.firstUnit? w ≠ some "+" ∧
      Text.firstUnit? w ≠ some "@" ∧ Text.lastUnit? w ≠ some "-" := by decide +kernel
  rcases known with name | sign
  · have is := isIdentifier_of_isTypeName name
    exact ⟨(units_of_isIdentifier is (d := '=') (by decide) (by decide)).1,
      (units_of_isIdentifier is (d := '+') (by decide) (by decide)).1,
      (units_of_isIdentifier is (d := '@') (by decide) (by decide)).1,
      (units_of_isIdentifier is (d := '-') (by decide) (by decide)).2⟩
  · exact signs w sign

theorem not_both_names (fine : touch a b = true) : isIdentifier a = false ∨ isIdentifier b = false := by
  simp only [touch, Bool.and_eq_true, Bool.not_eq_true', Bool.and_eq_false_iff, Bool.or_eq_false_iff] at fine
  exact fine.1.imp_right And.left

theorem sign_of_known (known : isTypeName w = true ∨ w ∈ typeSigns) (other : isIdentifier w = false) : w ∈ typeSigns := by
  rcases known with name | sign
  · rw [isIdentifier_of_isTypeName name] at other
    cases other
  · exact sign

/-- No criterion asks for a blank between words that touch. -/
theorem apart_of_touch (knownA : isTypeName a = true ∨ a ∈ typeSigns) (knownB : isTypeName b = true ∨ b ∈ typeSigns)
    (fine : touch a b = true) : Writer.Apart a b := by
  have symbols : ∀ w ∈ typeSigns, Writer.isNonSymbol (Text.firstUnit? w) = false ∧
      Writer.isNonSymbol (Text.lastUnit? w) = false := by decide +kernel
  have one : (Writer.isNonSymbol (Text.lastUnit? a) && Writer.isNonSymbol (Text.firstUnit? b)) = false := by
    rcases not_both_names fine with other | other
    · rw [(symbols a (sign_of_known knownA other)).2, Bool.false_and]
    · rw [(symbols b (sign_of_known knownB other)).1, Bool.and_false]
  obtain ⟨equals, plus, at_, _⟩ := units_of_known knownB
  obtain ⟨_, _, _, minus⟩ := units_of_known knownA
  simpa [Writer.Apart, Writer.spaceCriteria, equals, plus, at_, minus] using one

/-- No operator goes on with the first character of a word that touches it. -/
theorem sign_ends (sign : a ∈ typeSigns) (known : isTypeName b = true ∨ b ∈ typeSigns) (fine : touch a b = true) :
    b.toList.head?.any (goesOn a) = false := by
  rcases known with name | sign'
  · have longer : ∀ a ∈ typeSigns, ∀ o ∈ operators ++ ["//", "/*", "!in", "!is"], a.toList.isPrefixOf o.toList = true →
        (o.toList.drop a.toList.length).head?.all (!isWordChar ·) = true := by decide +kernel
    obtain ⟨⟨c, first, is⟩, _⟩ := edges_of_isIdentifier (isIdentifier_of_isTypeName name)
    rw [first, Option.any_some]
    exact goesOn_eq_false (longer a sign) is
  · have pairs : ∀ a ∈ typeSigns, ∀ b ∈ typeSigns, touch a b = true → b.toList.head?.any (goesOn a) = false := by
      decide +kernel
    exact pairs a sign b sign' fine

end

/-! Types are written on one line. -/

section

attribute [local simp] Node.layout Node.bracketed Node.led Node.ended Piece.isInline text_mk flag_mk

theorem allInline_keyword {id : Nat} {text : String} (some : text ≠ "") :
    (Node.mk id (.kind .keyword) [(.text, .text text)] []).AllInline :=
  allInline_mk (by decide) (by simpa using some) (by simp)

theorem eachInline_inParentheses {left right : Nat} {type : Node} (ih : type.AllInline) :
    EachInline (inParentheses left right type) := by
  have opening := @allInline_keyword left "(" (by decide)
  have closing := @allInline_keyword right ")" (by decide)
  simpa [inParentheses] using ⟨opening, ih, closing⟩

theorem Modest.allInline {part : TypePart} {n : Node} (h : Modest part n) : n.AllInline := by
  induction h with
  | @name _ text is =>
    have some : text ≠ "" := by
      rintro rfl
      exact absurd is (by decide)
    exact allInline_mk (by decide) (by simpa using some) (by simp)
  | star => exact allInline_mk (by decide) (by simp) (by simp)
  | argument _ ih => exact allInline_mk (by decide) (by simp) (by simpa using ih)
  | arguments _ ih => exact allInline_mk (by decide) (by simp) (by simpa using ih)
  | qualifier _ _ ih each => exact allInline_mk (by decide) (by simp) (by simpa using ⟨ih, each⟩)
  | simple _ _ _ qualified ih each => exact allInline_mk (by decide) (by simp) (by simpa using ⟨qualified, ih, each⟩)
  | nullable _ ih => exact allInline_mk (by decide) (by simp) (by simpa using ih)
  | @parameter _ name _ _ _ named ih =>
    refine allInline_mk (by decide) ?_ (by simpa using ⟨named, ih⟩)
    cases name <;> simp
  | parameters _ ih => exact allInline_mk (by decide) (by simp) (by simpa using ih)
  | function _ _ takes gives => exact allInline_mk (by decide) (by simp) (by simpa using ⟨takes, gives⟩)
  | @extension _ receiver reference _ type _ _ _ _ _ _ ih takes gives =>
    have extended : (Node.mk reference (.kind .typeRef) [] (one .type type)).AllInline :=
      allInline_mk (by decide) (by simp) (by simpa using ih)
    have receiver : (Node.mk receiver (.kind .functionTypeReceiver) []
        (one .typeRef (Node.mk reference (.kind .typeRef) [] (one .type type)))).AllInline :=
      allInline_mk (by decide) (by simp) (by simpa using extended)
    exact allInline_mk (by decide) (by simp) (by simpa using ⟨receiver, takes, gives⟩)
  | reference _ _ ih => exact allInline_mk (by decide) (by simp) (by simpa using ih)
  | grouped _ _ ih => exact allInline_mk (by decide) (by simp) (eachInline_inParentheses ih)
  | @groupedNullable _ nullable left right _ type _ _ ih =>
    have inside : (Node.mk nullable (.kind .nullableType) [] (inParentheses left right type)).AllInline :=
      allInline_mk (by decide) (by simp) (eachInline_inParentheses ih)
    exact allInline_mk (by decide) (by simp) (by simpa using inside)

end

/-! The text of a type. -/

/-- Words in sight of which each touches the one in front of it. -/
def facing (ws : List String) : List Glance := ws.map fun w => ⟨wordToken w, true⟩

theorem spelling_facing (ws : List String) : spelling (facing ws) = (String.join ws).toList := by
  induction ws with
  | nil => rfl
  | cons w ws ih =>
    have front : spelling (facing (w :: ws)) = w.toList ++ spelling (facing ws) := rfl
    rw [front, ih, String.join_cons, String.toList_append]

section

variable {w : String} {ws : List String} {part : TypePart} {n : Node}

theorem some_of_known (known : isTypeName w = true ∨ w ∈ typeSigns) : w.toList ≠ [] := by
  have signs : ∀ w ∈ typeSigns, w.toList ≠ [] := by decide +kernel
  rcases known with name | sign
  · obtain ⟨⟨c, first, _⟩, _⟩ := edges_of_isIdentifier (isIdentifier_of_isTypeName name)
    intro none
    rw [none] at first
    cases first
  · exact signs w sign

/-- A word is read as its token in front of a row that it touches. -/
theorem Row.cuts (h : Row (w :: ws)) : Cuts (wordToken w).kind w.toList (spelling (facing ws)) := by
  obtain ⟨known, chain⟩ := h
  have touches := (List.isChain_cons.mp chain).1
  have later : ∀ v ∈ ws.head?, isTypeName v = true ∨ v ∈ typeSigns :=
    fun v first => known v (List.mem_cons_of_mem w (List.mem_of_head? first))
  have next {p : Char → Bool} (fine : ∀ v ∈ ws.head?, v.toList.head?.any p = false) :
      (spelling (facing ws)).head?.any p = false := by
    cases ws with
    | nil => rfl
    | cons v ws =>
      obtain ⟨c, cs, chars⟩ := List.exists_cons_of_ne_nil (some_of_known (later v rfl))
      have first := fine v rfl
      rw [chars] at first
      have front : spelling (facing (v :: ws)) = v.toList ++ spelling (facing ws) := rfl
      rw [front, chars]
      exact first
  by_cases name : isIdentifier w = true
  · have kind : (wordToken w).kind = .identifier := if_pos name
    have letters : ∀ v ∈ typeSigns, v.toList.head?.any Text.continuesName = false := by decide +kernel
    rw [kind]
    refine name_cuts name fun _ => next fun v first => letters v ?_
    have other := not_both_names (touches v first)
    simp only [name, Bool.true_eq_false, false_or] at other
    exact sign_of_known (later v first) other
  · have kind : (wordToken w).kind = .operator := if_neg name
    have signs : ∀ v ∈ typeSigns, v ∈ operators := by decide +kernel
    have sign := sign_of_known (known w (List.mem_cons_self ..)) (by simpa using name)
    rw [kind]
    exact operator_cuts (signs w sign) (next fun v first => sign_ends sign (later v first) (touches v first))

theorem wordToken_isTrivia (w : String) : (wordToken w).kind.isTrivia = false := by
  unfold wordToken
  split <;> rfl

theorem Row.legible (h : Row ws) : Legible (facing ws) := by
  induction ws with
  | nil => exact .nil
  | cons w ws ih =>
    have tail := ih ⟨fun v member => h.known v (List.mem_cons_of_mem w member), (List.isChain_cons.mp h.chain).2⟩
    exact .cons true (wordToken_isTrivia w) h.cuts tail

theorem Row.apart (h : Row ws) : ws.IsChain Writer.Apart :=
  h.chain.imp_of_mem_imp fun a b first second => apart_of_touch (h.known a first) (h.known b second)

/-- The text of a modest type consists of its words. -/
theorem Modest.write (h : Modest part n) : ({} : Writer).write n = .ok (String.join n.words) :=
  Writer.write_inline h.allInline h.phrase.row.apart

/-- The words of a modest type are its tokens. -/
theorem Modest.tokenize (h : Modest part n) : ∃ tokens, Lexer.tokenize (String.join n.words) = .ok tokens ∧
    (Builder.ofTokens tokens).At tokens (facing n.words) := by
  have read := h.phrase.row.legible.tokenize
  rwa [spelling_facing, String.ofList_toList] at read

end

end KotlinSyntax
