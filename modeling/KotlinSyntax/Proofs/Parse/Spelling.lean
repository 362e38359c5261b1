import Mathlib.Data.List.Find
import KotlinSyntax.Proofs.Parse.Sight

/-! Words one after the other. What a builder is to have in sight is written down token by token, with a blank in front
of each one that does not touch the one before it, and read back by the lexer. -/
namespace KotlinSyntax

namespace Lexer

variable {kind : TokenKind} {text rest : List Char} {c : Char} {cs : List Char} {name o : String}

def Cuts (kind : TokenKind) (text rest : List Char) : Prop :=
  ∃ c taken, text = c :: taken ∧ ∃ s, step [] c (taken ++ rest) = .ok s ∧ s.kind = kind ∧ s.cut.taken = taken ∧ s.modes = []

theorem Cuts.scan (h : Cuts kind text rest) (offset : Nat) : ∃ stop, scan [] offset (text ++ rest) =
    ⟨⟨kind, offset, stop, String.ofList text⟩ :: (Lexer.scan [] stop rest).tokens, (Lexer.scan [] stop rest).failure⟩ := by
  obtain ⟨c, taken, rfl, s, read, rfl, takes, modes⟩ := h
  have one := scan_step offset read takes
  rw [modes] at one
  exact ⟨_, one⟩

/-- A token that is no trivia does not begin with layout. -/
theorem Cuts.head (h : Cuts kind text rest) (part : kind.isTrivia = false) : text.head?.any Text.isLayout = false := by
  obtain ⟨c, taken, rfl, s, read, rfl, _, _⟩ := h
  rw [Bool.eq_false_iff]
  intro layout
  have is : Text.isLayout c = true := layout
  have code : code [] c (taken ++ rest) = .ok s := read
  unfold Lexer.code at code
  rw [if_pos is] at code
  cases code
  cases part

theorem blank_cuts (other : rest.head?.any Text.isLayout = false) : Cuts .whitespace [' '] rest := by
  refine ⟨' ', [], rfl, ⟨.whitespace, .span Text.isLayout rest, []⟩, rfl, rfl, ?_, rfl⟩
  cases rest with
  | nil => rfl
  | cons c cs => exact List.takeWhile_cons_of_neg (by simpa using other)

/-! Names and keywords. -/

/-- A word that is no keyword, or anything on one line in backticks. -/
def isIdentifier (text : String) : Bool :=
  match text.toList with
  | '\x60' :: cs => cs.getLast? == some '\x60' && !cs.dropLast.isEmpty &&
      cs.dropLast.all fun c => c != '\x60' && c != '\r' && c != '\n'
  | c :: cs => Text.startsName c && cs.all Text.continuesName && !hardKeywords.contains text
  | [] => false

theorem ne_of_isIdentifier {text : String} (is : isIdentifier name = true) (isn't : isIdentifier text = false) :
    name ≠ text := by
  rintro rfl
  rw [is] at isn't
  cases isn't

/-! Where names begin and end. -/

def isWordChar (c : Char) : Bool := Text.continuesName c || c == '\x60'

theorem continuesName_of_startsName (starts : Text.startsName c = true) : Text.continuesName c = true := by
  unfold Text.continuesName
  unfold Text.startsName at starts
  rcases Bool.or_eq_true_iff.mp starts with letter | underscore
  · simp [letter]
  · simp [underscore]

theorem wordChar_of_startsName (starts : Text.startsName c = true) : isWordChar c = true := by
  rw [isWordChar, continuesName_of_startsName starts, Bool.true_or]

theorem edges_of_isIdentifier (is : isIdentifier name = true) :
    (∃ c ∈ name.toList.head?, isWordChar c = true) ∧ ∃ c ∈ name.toList.getLast?, isWordChar c = true := by
  unfold isIdentifier at is
  split at is
  · rename_i cs chars
    simp only [Bool.and_eq_true, beq_iff_eq] at is
    rw [chars]
    refine ⟨⟨'\x60', rfl, by decide⟩, ⟨'\x60', ?_, by decide⟩⟩
    have some : cs ≠ [] := by
      rintro rfl
      cases is.1.1
    rw [List.getLast?_cons_of_ne_nil some]
    exact is.1.1
  · rename_i c cs _ chars
    simp only [Bool.and_eq_true] at is
    have first := wordChar_of_startsName is.1.1
    rw [chars]
    refine ⟨⟨c, rfl, first⟩, ?_⟩
    rcases List.eq_nil_or_concat cs with rfl | ⟨front, z, rfl⟩
    · exact ⟨c, rfl, first⟩
    · refine ⟨z, by rw [List.concat_eq_append, ← List.cons_append, List.getLast?_concat]; rfl, ?_⟩
      have last := List.all_eq_true.mp is.1.2 z (by simp)
      simp [isWordChar, last]
  · cases is

/-- The last character of the first text and the first one of the second are not read as parts of one name. -/
def Parted (text rest : List Char) : Prop :=
  text.getLast?.any Text.continuesName = true → rest.head?.any Text.continuesName = false

theorem span_of_ends {p : Char → Bool} (all : cs.all p = true) (ends : rest.head?.any p = false) :
    (cs ++ rest).takeWhile p = cs := by
  rw [List.takeWhile_append_of_pos (List.all_eq_true.mp all)]
  cases rest with
  | nil => exact List.append_nil _
  | cons c rest => rw [List.takeWhile_cons_of_neg (by simpa using ends), List.append_nil]

theorem word_cuts (starts : Text.startsName c = true) (goes : cs.all Text.continuesName = true)
    (ends : rest.head?.any Text.continuesName = false) : Cuts (wordKind (c :: cs)) (c :: cs) rest := by
  have taken := span_of_ends goes ends
  have ne (d : Char) (isn't : Text.startsName d = false) : c ≠ d := by
    rintro rfl
    rw [starts] at isn't
    cases isn't
  have layout : Text.isLayout c = false := by
    simp [Text.isLayout, ne ' ' (by decide), ne '\t' (by decide), ne '\r' (by decide), ne '\n' (by decide),
      ne '\x0c' (by decide)]
  have plain : code [] c (cs ++ rest) = plainCode [] c (cs ++ rest) := by
    unfold code
    rw [if_neg (by simp [layout])]
    split <;> first | rfl | exact absurd rfl (ne _ (by decide))
  refine ⟨c, cs, rfl, ⟨wordKind (c :: cs), .span Text.continuesName (cs ++ rest), []⟩, ?_, rfl, taken, rfl⟩
  have read : step [] c (cs ++ rest) = code [] c (cs ++ rest) := rfl
  rw [read, plain, plainCode, if_pos starts]
  simp only [Cut.span, taken]

theorem closeName?_eq {l : List Char} (closes : l = '\x60' :: rest) : ∃ k, closeName? l = some k ∧ k.taken = ['\x60'] := by
  subst closes
  exact ⟨_, rfl, rfl⟩

theorem quotedName_cuts (some : cs ≠ []) (plain : cs.all (fun c => c != '\x60' && c != '\r' && c != '\n') = true) :
    Cuts .identifier ('\x60' :: (cs ++ ['\x60'])) rest := by
  have taken : (cs ++ '\x60' :: rest).takeWhile (fun c => c != '\x60' && c != '\r' && c != '\n') = cs :=
    span_of_ends plain rfl
  have left : (cs ++ '\x60' :: rest).dropWhile (fun c => c != '\x60' && c != '\r' && c != '\n') = '\x60' :: rest := by
    rw [List.dropWhile_append_of_pos (List.all_eq_true.mp plain)]
    rfl
  have quoted : ∃ k, quotedName? (cs ++ ['\x60'] ++ rest) = Option.some k ∧ k.taken = cs ++ ['\x60'] := by
    rw [List.append_assoc, List.singleton_append]
    obtain ⟨k, closed, takes⟩ := closeName?_eq left
    refine ⟨(Cut.span _ _).append k, ?_, ?_⟩
    · have named : ((cs ++ '\x60' :: rest).takeWhile fun c => c != '\x60' && c != '\r' && c != '\n').isEmpty = false := by
        rw [taken]
        simpa using some
      simp only [quotedName?, Cut.span, named, Bool.false_eq_true, if_false, closed, Option.map_some]
    · simp only [Cut.append, Cut.span, taken, takes]
  obtain ⟨k, quoted, takes⟩ := quoted
  refine ⟨'\x60', cs ++ ['\x60'], rfl, ⟨.identifier, k, []⟩, ?_, rfl, takes, rfl⟩
  have plain : Text.isLayout '\x60' = false := by decide
  simp [step, code, plain, quoted]

/-! Operators. -/

/-- Whether an operator, a comment or a negated word goes on with the character behind the text. -/
def goesOn (text : String) (d : Char) : Bool :=
  (operators ++ ["//", "/*", "!in", "!is"]).any fun o => (text.toList ++ [d]).isPrefixOf o.toList

/-- If no operator has such a character behind the text, none goes on with it. -/
theorem goesOn_eq_false {text : String} {p : Char → Bool} (never : ∀ o ∈ operators ++ ["//", "/*", "!in", "!is"],
    text.toList.isPrefixOf o.toList = true → (o.toList.drop text.toList.length).head?.all (!p ·) = true)
    (is : p c = true) : goesOn text c = false := by
  rw [goesOn, List.any_eq_false]
  intro o member inside
  obtain ⟨tail, whole⟩ := List.isPrefixOf_iff_prefix.mp inside
  have front : text.toList.isPrefixOf o.toList = true := by
    rw [List.isPrefixOf_iff_prefix, ← whole, List.append_assoc]
    exact List.prefix_append _ _
  have next := never o member front
  rw [← whole, List.append_assoc, List.drop_left] at next
  simp [is] at next

theorem operator?_of_ends (is : o ∈ operators) (chars : o.toList = c :: cs)
    (ends : rest.head?.any (goesOn o) = false) :
    (operator? c (cs ++ rest)).map (·.taken) = some cs := by
  have whole : c :: (cs ++ rest) = o.toList ++ rest := by rw [chars]; rfl
  have same : ∀ p ∈ operators, p.toList.isPrefixOf (o.toList ++ rest) = p.toList.isPrefixOf o.toList := by
    intro p member
    rw [Bool.eq_iff_iff, List.isPrefixOf_iff_prefix, List.isPrefixOf_iff_prefix]
    refine ⟨?_, fun inside => inside.trans (List.prefix_append _ _)⟩
    cases rest with
    | nil => rw [List.append_nil]; exact id
    | cons d rest =>
      intro inside
      have short : ¬ (o.toList ++ [d]) <+: p.toList := by
        intro longer
        have never : goesOn o d = false := by simpa only [List.head?_cons, Option.any_some] using ends
        rw [goesOn, List.any_eq_false] at never
        exact never p (List.mem_append_left _ member) (List.isPrefixOf_iff_prefix.mpr longer)
      have step : o.toList ++ [d] <+: o.toList ++ d :: rest := ⟨rest, by rw [List.append_assoc]; rfl⟩
      rcases List.prefix_or_prefix_of_prefix inside step with within | longer
      · rcases List.prefix_concat_iff.mp within with whole | within
        · exact absurd (whole ▸ List.prefix_refl _) short
        · exact within
      · exact absurd longer short
  have first : ∀ o ∈ operators, operators.find? (fun p => p.toList.isPrefixOf o.toList) = some o := by decide +kernel
  have long : o.length - 1 = cs.length := by
    rw [← String.length_toList, chars]
    rfl
  rw [operator?, whole, List.find?_congr same, first o is]
  simp [Cut.first, long]

/-- A slash that is an operator begins no comment. -/
theorem slash_of_ends (is : o ∈ operators) (chars : o.toList = '/' :: cs) (ends : rest.head?.any (goesOn o) = false)
    {k : Cut (cs ++ rest)} (found : operator? '/' (cs ++ rest) = some k) :
    slash [] (cs ++ rest) = .ok ⟨.operator, k, []⟩ := by
  have slashes : ∀ o ∈ operators, o.toList.head? = some '/' → o = "/" ∨ o = "/=" := by decide +kernel
  have other : ∀ d ds, cs ++ rest = d :: ds → d ≠ '/' ∧ d ≠ '*' := by
    rintro d ds next
    rcases slashes o is (by rw [chars]; rfl) with rfl | rfl
    · obtain rfl : cs = [] := by simpa using chars.symm
      rw [List.nil_append] at next
      rw [next] at ends
      have never : goesOn "/" d = false := by simpa only [List.head?_cons, Option.any_some] using ends
      constructor
      · rintro rfl
        exact absurd never (by decide)
      · rintro rfl
        exact absurd never (by decide)
    · obtain rfl : cs = ['='] := by simpa using chars.symm
      obtain ⟨rfl, _⟩ := List.cons.inj next
      decide
  generalize cs ++ rest = behind at *
  unfold slash
  split
  · exact absurd rfl (other _ _ rfl).1
  · exact absurd rfl (other _ _ rfl).2
  · rw [found]

/-- An exclamation mark that is an operator negates no word. -/
theorem negatedWord?_of_ends (is : o ∈ operators) (chars : o.toList = '!' :: cs)
    (ends : rest.head?.any (goesOn o) = false) : negatedWord? (cs ++ rest) = none := by
  have negations : ∀ o ∈ operators, o.toList.head? = some '!' → o = "!" ∨ o.toList[1]? = some '=' ∨ o.toList[1]? = some '!' := by
    decide +kernel
  have other : ∀ ds, cs ++ rest ≠ 'i' :: ds := by
    intro ds next
    rcases negations o is (by rw [chars]; rfl) with rfl | two | two
    · obtain rfl : cs = [] := by simpa using chars.symm
      rw [List.nil_append] at next
      rw [next] at ends
      have never : goesOn "!" 'i' = false := by simpa only [List.head?_cons, Option.any_some] using ends
      exact absurd never (by decide)
    · cases cs <;> simp_all
    · cases cs <;> simp_all
  generalize cs ++ rest = behind at *
  unfold negatedWord?
  split
  · exact absurd rfl (other _)
  · rfl

theorem operator_cuts (is : o ∈ operators) (ends : rest.head?.any (goesOn o) = false) :
    Cuts .operator o.toList rest := by
  have begins : ∀ o ∈ operators, (o.toList.head?.any fun c => !Text.isLayout c && !Text.startsName c && !c.isDigit &&
      !(['"', '\x27', '\x60', ';', '{', '}'].contains c)) = true := by decide +kernel
  have first := begins o is
  cases chars : o.toList with
  | nil => simp [chars] at first
  | cons c cs =>
    have found := operator?_of_ends is chars ends
    obtain ⟨k, found, takes⟩ := Option.map_eq_some_iff.mp found
    simp only [chars, List.head?_cons, Option.any_some, Bool.and_eq_true, Bool.not_eq_true', List.contains_eq_mem] at first
    refine ⟨c, cs, rfl, ⟨.operator, k, []⟩, ?_, rfl, takes, rfl⟩
    have plain : plainCode [] c (cs ++ rest) = .ok ⟨.operator, k, []⟩ := by
      unfold plainCode
      rw [if_neg (by simp [first]), if_neg (by simp [first]), found]
    have read : step [] c (cs ++ rest) = code [] c (cs ++ rest) := rfl
    rw [read]
    unfold code
    rw [if_neg (by simp [first])]
    split
    · exact slash_of_ends is chars ends found
    · simp at first
    · simp at first
    · simp at first
    · rw [negatedWord?_of_ends is chars ends]
      exact plain
    · simp at first
    · simp at first
    · simp at first
    · exact plain

theorem name_cuts (is : isIdentifier name = true) (parted : Parted name.toList rest) :
    Cuts .identifier name.toList rest := by
  unfold isIdentifier at is
  split at is
  · rename_i cs chars
    simp only [Bool.and_eq_true, beq_iff_eq, Bool.not_eq_true', List.isEmpty_eq_false_iff] at is
    have whole : cs = cs.dropLast ++ ['\x60'] := (List.dropLast_append_getLast? _ is.1.1).symm
    rw [chars, whole]
    exact quotedName_cuts is.1.2 is.2
  · rename_i c cs other chars
    simp only [Bool.and_eq_true, Bool.not_eq_true'] at is
    have goes : (c :: cs).getLast?.any Text.continuesName = true := by
      have all : (c :: cs).all Text.continuesName = true := by
        simp [continuesName_of_startsName is.1.1, is.1.2]
      rw [List.getLast?_eq_some_getLast (List.cons_ne_nil c cs)]
      exact List.all_eq_true.mp all _ (List.getLast_mem _)
    rw [chars] at parted
    have cuts := word_cuts is.1.1 is.1.2 (parted goes)
    have kind : wordKind (c :: cs) = .identifier := by
      rw [wordKind, ← chars, String.ofList_toList, if_neg (Bool.eq_false_iff.mp is.2)]
    rw [kind] at cuts
    rwa [chars]
  · cases is

theorem negation_cuts (ends : rest.head?.any Text.continuesName = false) : Cuts .keyword ['!', 'i', 'n'] rest := by
  have negated : negatedWord? ('i' :: 'n' :: rest) = some (.first 2 _) := by
    simp [negatedWord?, ends]
  have plain : Text.isLayout '!' = false := by decide
  refine ⟨'!', ['i', 'n'], rfl, ⟨.keyword, .first 2 _, []⟩, ?_, rfl, rfl, rfl⟩
  simp [step, code, plain, negated]

end Lexer

/-! Texts that are read back. -/

def Glance.chars (g : Glance) : List Char := if g.touches then g.token.text.toList else ' ' :: g.token.text.toList

/-- The text that is in sight, with one blank wherever two parts do not touch. -/
def spelling (view : List Glance) : List Char := view.flatMap Glance.chars

@[simp] theorem spelling_nil : spelling [] = [] := rfl

@[simp] theorem spelling_cons (g : Glance) (view : List Glance) : spelling (g :: view) = g.chars ++ spelling view := rfl

inductive Legible : List Glance → Prop
  | nil : Legible []
  | cons {kind : TokenKind} {text : String} {view : List Glance} (touches : Bool) (part : kind.isTrivia = false)
      (cuts : Lexer.Cuts kind text.toList (spelling view)) (tail : Legible view) :
      Legible (⟨⟨kind, 0, 0, text⟩, touches⟩ :: view)

namespace Legible

open Lexer

variable {view : List Glance}

theorem scan (h : Legible view) (offset : Nat) : ∃ tokens, scan [] offset (spelling view) = ⟨tokens, none⟩ ∧
    Token.glances tokens = view ∧ ∀ t ∈ tokens, t.separates = false := by
  induction h generalizing offset with
  | nil => exact ⟨[], by rw [spelling_nil, Lexer.scan]; rfl, rfl, by simp⟩
  | @cons kind text view touches part cuts tail ih =>
    have word (offset : Nat) : ∃ tokens, Lexer.scan [] offset (text.toList ++ spelling view) = ⟨tokens, none⟩ ∧
        Token.glances tokens = ⟨⟨kind, 0, 0, text⟩, true⟩ :: view ∧ ∀ t ∈ tokens, t.separates = false := by
      obtain ⟨stop, read⟩ := cuts.scan offset
      obtain ⟨tokens, scanned, seen, quiet⟩ := ih stop
      refine ⟨⟨kind, offset, stop, text⟩ :: tokens, ?_, ?_, ?_⟩
      · rw [read, scanned, String.ofList_toList]
      · rw [Token.glances_part part, seen]
        rfl
      · have first : Token.separates ⟨kind, offset, stop, text⟩ = false := by
          cases kind <;> first | rfl | cases part
        simpa [first] using quiet
    cases touches with
    | true => exact word offset
    | false =>
      have other : (text.toList ++ spelling view).head?.any Text.isLayout = false := by
        have head := cuts.head part
        obtain ⟨c, taken, chars, _⟩ := cuts
        rw [chars] at head ⊢
        exact head
      obtain ⟨stop, read⟩ := (blank_cuts other).scan offset
      obtain ⟨tokens, scanned, seen, quiet⟩ := word stop
      refine ⟨⟨.whitespace, offset, stop, " "⟩ :: tokens, ?_, ?_, ?_⟩
      · rw [scanned] at read
        exact read
      · rw [Token.glances_trivia rfl, seen]
        rfl
      · have first : Token.separates ⟨.whitespace, offset, stop, " "⟩ = false := by
          simp [Token.separates, Token.breaksLine]
        simpa [first] using quiet

/-- What is legible is in sight of a builder over the tokens of the text. -/
theorem tokenize (h : Legible view) : ∃ tokens, tokenize (String.ofList (spelling view)) = .ok tokens ∧
    (Builder.ofTokens tokens).At tokens view := by
  obtain ⟨tokens, scanned, seen, quiet⟩ := h.scan 0
  have read : Lexer.tokenize (String.ofList (spelling view)) = .ok tokens := by
    rw [Lexer.tokenize, lex, String.toList_ofList, scanned]
  exact ⟨tokens, read, Builder.ofTokens_over (tokenize_proper read) (tokenize_named read), quiet, seen⟩

end Legible

end KotlinSyntax
