import KotlinSyntax.Proofs.Types.Modest

/-! Phrases: what is written of a part of a type. Its words are names and a few signs, no two of them run together, and
its parentheses match. -/
namespace KotlinSyntax

open Builder (closingParen?)
open Lexer (isIdentifier)

def typeSigns : List String := ["<", ">", ",", "*", "(", ")", "?", ".", ":", "->"]

/-- Whether two words may touch: they remain two words, and the first is no modifier of what the second begins. -/
def touch (a b : String) : Bool :=
  !(isIdentifier a && (isIdentifier b || b == "(")) && !(a == b && (a == "." || a == ":"))

def Matched (ws : List String) : Prop :=
  ∀ n depth rest, 1 ≤ depth → closingParen? n depth (ws.map wordToken ++ rest) = closingParen? (n + ws.length) depth rest

/-- Names and signs of which any two neighbours may touch. -/
structure Row (ws : List String) : Prop where
  known : ∀ w ∈ ws, isTypeName w = true ∨ w ∈ typeSigns
  chain : ws.IsChain (touch · · = true)

structure Phrase (ws : List String) : Prop where
  row : Row ws
  matched : Matched ws
  first : ∃ w ∈ ws.head?, w ∉ [">", ")", ".", ":"]
  last : ∀ w ∈ ws.getLast?, w ∉ [".", ":"]

variable {ws vs : List String} {w s a b : String}

theorem isIdentifier_of_isTypeName (is : isTypeName w = true) : isIdentifier w = true := (Bool.and_eq_true_iff.mp is).1

theorem not_isIdentifier_of_sign (sign : w ∈ typeSigns) : isIdentifier w = false := by
  have all : ∀ w ∈ typeSigns, isIdentifier w = false := by decide +kernel
  exact all w sign

theorem wordToken_spells (w text : String) : (wordToken w).spells text = (w == text) := by
  unfold wordToken Token.spells
  split <;> simp

/-! Words that touch. -/

theorem touch_sign (sign : b ∈ typeSigns) (other : b ≠ "(") (apart : a ∉ [".", ":"]) : touch a b = true := by
  have word := not_isIdentifier_of_sign sign
  simp only [List.mem_cons, List.not_mem_nil, or_false, not_or] at apart
  simp [touch, word, other, apart.1, apart.2]

theorem sign_touch (sign : a ∈ typeSigns) (apart : b ∉ [".", ":"]) : touch a b = true := by
  have word := not_isIdentifier_of_sign sign
  simp only [List.mem_cons, List.not_mem_nil, or_false, not_or] at apart
  simp only [touch, word, Bool.false_and, Bool.not_false, Bool.true_and, Bool.not_eq_true', Bool.and_eq_false_iff,
    beq_eq_false_iff_ne, Bool.or_eq_false_iff]
  by_cases same : a = b
  · subst same
    exact .inr apart
  · exact .inl same

/-! Matching parentheses. -/

namespace Matched

theorem nil : Matched [] := fun _ _ _ _ => rfl

theorem word (not_open : w ≠ "(") (not_close : w ≠ ")") : Matched [w] := by
  intro n depth rest _
  rw [List.map_cons, List.map_nil, List.cons_append, closingParen?, wordToken_spells, wordToken_spells,
    if_neg (by simpa using not_open), if_neg (by simpa using not_close)]
  rfl

theorem append (h : Matched ws) (k : Matched vs) : Matched (ws ++ vs) := by
  intro n depth rest open_
  rw [List.map_append, List.append_assoc, h n depth _ open_, k _ depth _ open_, List.length_append, Nat.add_assoc]

/-- The place of the parenthesis that closes what another one opened. -/
theorem closes (h : Matched ws) (n depth : Nat) (rest : List Token) :
    closingParen? n depth (("(" :: ws ++ [")"]).map wordToken ++ rest) =
      if depth = 0 then some (n + 1 + ws.length) else closingParen? (n + (ws.length + 2)) depth rest := by
  have inside := h (n + 1) (depth + 1) (wordToken ")" :: rest) (Nat.le_add_left 1 depth)
  rw [List.cons_append, List.map_cons, List.map_append, List.cons_append, List.append_assoc, closingParen?,
    wordToken_spells, if_pos (beq_self_eq_true _)]
  refine inside.trans ?_
  rw [closingParen?, wordToken_spells, wordToken_spells, if_neg (by decide),
    if_pos (beq_self_eq_true _)]
  by_cases whole : depth = 0
  · simp [whole]
  · rw [if_neg whole, if_neg (by omega), Nat.add_sub_cancel]
    congr 1
    omega

theorem enclosed (h : Matched ws) : Matched ("(" :: ws ++ [")"]) := by
  intro n depth rest open_
  rw [h.closes, if_neg (by omega)]
  simp

end Matched

/-! Rows from rows. -/

namespace Row

theorem nil : Row [] := ⟨by simp, .nil⟩

theorem sign (sign : s ∈ typeSigns) : Row [s] := ⟨by simp [sign], .singleton s⟩

theorem append (h : Row ws) (k : Row vs) (seam : ∀ a ∈ ws.getLast?, ∀ b ∈ vs.head?, touch a b = true) : Row (ws ++ vs) := by
  constructor
  · intro w member
    rcases List.mem_append.mp member with member | member
    · exact h.known w member
    · exact k.known w member
  · exact List.isChain_append.mpr ⟨h.chain, k.chain, seam⟩

end Row

/-! Phrases from phrases. -/

namespace Phrase

theorem ne_nil (h : Phrase ws) : ws ≠ [] := by
  rintro rfl
  obtain ⟨w, first, _⟩ := h.first
  cases first

/-- A sign behind a phrase. -/
theorem row_behind (h : Phrase ws) (sign : s ∈ typeSigns) (other : s ≠ "(") : Row (ws ++ [s]) := by
  refine h.row.append (.sign sign) fun a last b first => ?_
  obtain rfl : s = b := Option.some.inj first
  exact touch_sign sign other (h.last a last)

/-- A phrase behind a row that ends with a sign. -/
theorem row_after (h : Row (vs ++ [s])) (sign : s ∈ typeSigns) (k : Phrase ws) : Row (vs ++ s :: ws) := by
  have both : Row ((vs ++ [s]) ++ ws) := by
    refine h.append k.row fun a last b first => ?_
    obtain rfl : s = a := by simpa using last
    obtain ⟨w, front, fine⟩ := k.first
    obtain rfl : w = b := Option.some.inj (front.symm.trans first)
    exact sign_touch sign fun apart => fine (by simp at apart ⊢; tauto)
  rwa [List.append_assoc] at both

theorem word (known : isTypeName w = true ∨ w ∈ typeSigns) (apart : w ∉ ["(", ")", ">", ".", ":"]) : Phrase [w] := by
  simp only [List.mem_cons, List.not_mem_nil, or_false, not_or] at apart
  constructor
  · exact ⟨by simpa using known, .singleton w⟩
  · exact .word apart.1 apart.2.1
  · exact ⟨w, rfl, by simp [apart]⟩
  · simp [apart]

theorem name (is : isTypeName w = true) : Phrase [w] := by
  have none : ∀ s ∈ ["(", ")", ">", ".", ":"], isTypeName s = false := by decide +kernel
  refine word (.inl is) fun member => ?_
  rw [none w member] at is
  cases is

/-- Two phrases of which the second begins with a sign. -/
theorem append (h : Phrase ws) (k : Phrase vs) (sign : ∀ w ∈ vs.head?, w ∈ typeSigns ∧ w ≠ "(") : Phrase (ws ++ vs) := by
  constructor
  · exact h.row.append k.row fun a last b first => touch_sign (sign b first).1 (sign b first).2 (h.last a last)
  · exact h.matched.append k.matched
  · obtain ⟨w, first, fine⟩ := h.first
    exact ⟨w, List.mem_head?_append_of_mem_head? first, fine⟩
  · rw [List.getLast?_append_of_ne_nil _ k.ne_nil]
    exact k.last

/-- Two phrases with a sign between them. -/
theorem join (h : Phrase ws) (k : Phrase vs) (sign : s ∈ typeSigns) (other : s ∉ ["(", ")"]) : Phrase (ws ++ s :: vs) := by
  simp only [List.mem_cons, List.not_mem_nil, or_false, not_or] at other
  constructor
  · exact row_after (h.row_behind sign other.1) sign k
  · exact h.matched.append ((Matched.word other.1 other.2).append k.matched)
  · obtain ⟨w, first, fine⟩ := h.first
    exact ⟨w, List.mem_head?_append_of_mem_head? first, fine⟩
  · rw [List.getLast?_append_of_ne_nil _ (List.cons_ne_nil s vs), List.getLast?_cons_of_ne_nil k.ne_nil]
    exact k.last

theorem behind (h : Phrase ws) (sign : s ∈ typeSigns) (other : s ∉ ["(", ")", ".", ":"]) : Phrase (ws ++ [s]) := by
  simp only [List.mem_cons, List.not_mem_nil, or_false, not_or] at other
  constructor
  · exact h.row_behind sign other.1
  · exact h.matched.append (.word other.1 other.2.1)
  · obtain ⟨w, first, fine⟩ := h.first
    exact ⟨w, List.mem_head?_append_of_mem_head? first, fine⟩
  · simp [other]

/-- Nothing or a phrase, between two signs that match. -/
theorem enclosed {left right : String} (pair : (left, right) ∈ [("<", ">"), ("(", ")")]) (inside : ws = [] ∨ Phrase ws) :
    Phrase (left :: ws ++ [right]) := by
  have signs : ∀ p ∈ [("<", ">"), ("(", ")")], p.1 ∈ typeSigns ∧ p.2 ∈ typeSigns ∧ p.2 ≠ "(" ∧ p.1 ∉ [">", ")", ".", ":"] ∧
      p.2 ∉ [".", ":"] ∧ touch p.1 p.2 = true := by decide +kernel
  obtain ⟨opens, closes, other, first, last, empty⟩ := signs _ pair
  constructor
  · rcases inside with rfl | phrase
    · exact ⟨by simp [opens, closes], by simpa using empty⟩
    · have row : Row ([] ++ left :: ws) := row_after (.sign opens) opens phrase
      refine row.append (.sign closes) fun a end_ b begin => ?_
      obtain rfl : right = b := Option.some.inj begin
      rw [List.nil_append, List.getLast?_cons_of_ne_nil phrase.ne_nil] at end_
      exact touch_sign closes other (phrase.last a end_)
  · have matched : Matched ws := by
      rcases inside with rfl | phrase
      · exact .nil
      · exact phrase.matched
    simp only [List.mem_cons, Prod.mk.injEq, List.not_mem_nil, or_false] at pair
    rcases pair with ⟨rfl, rfl⟩ | ⟨rfl, rfl⟩
    · exact (Matched.word (by decide) (by decide)).append (matched.append (.word (by decide) (by decide)))
    · exact matched.enclosed
  · exact ⟨left, rfl, first⟩
  · rw [List.getLast?_concat]
    simpa using last

theorem list (h : Phrase ws) {wss : List (List String)} (each : ∀ vs ∈ wss, Phrase vs) :
    Phrase (joinWords "," (ws :: wss)) := by
  induction wss generalizing ws with
  | nil => exact h
  | cons vs rest ih =>
    have later := ih (each vs (List.mem_cons_self ..)) fun us member => each us (List.mem_cons_of_mem vs member)
    have joined : joinWords "," (ws :: vs :: rest) = ws ++ "," :: joinWords "," (vs :: rest) := by
      simp [joinWords]
    rw [joined]
    exact h.join later (by decide) (by decide)

/-- A list of phrases between two signs that match. -/
theorem bracketed {left right : String} (pair : (left, right) ∈ [("<", ">"), ("(", ")")]) {wss : List (List String)}
    (each : ∀ ws ∈ wss, Phrase ws) : Phrase (left :: joinWords "," wss ++ [right]) := by
  cases wss with
  | nil => exact enclosed pair (.inl rfl)
  | cons ws rest =>
    have first := each ws (List.mem_cons_self ..)
    exact enclosed pair (.inr (first.list fun vs member => each vs (List.mem_cons_of_mem ws member)))

theorem dotted (h : Phrase ws) {ns : List Node} (each : ∀ n ∈ ns, Phrase n.words) :
    Phrase (ns.flatMap (fun n => n.words ++ ["."]) ++ ws) := by
  induction ns with
  | nil => exact h
  | cons n rest ih =>
    have later := ih fun m member => each m (List.mem_cons_of_mem n member)
    rw [List.flatMap_cons, List.append_assoc, List.append_assoc]
    exact (each n (List.mem_cons_self ..)).join later (by decide) (by decide)

end Phrase

/-! What is written of a modest type is a phrase. -/

variable {part : TypePart} {n : Node} {args : Option Node}

theorem Modest.arguments_words (h : Modest .arguments n) : ∃ vs, n.words = "<" :: vs := by
  cases h with
  | arguments each =>
    rw [words_arguments]
    exact ⟨_, rfl⟩

theorem Phrase.withArguments (h : Phrase ws) (has : ∀ list ∈ args, Modest .arguments list)
    (each : ∀ list ∈ args, Phrase list.words) : Phrase (ws ++ optWords args) := by
  cases args with
  | none => rwa [optWords_none, List.append_nil]
  | some list =>
    obtain ⟨vs, front⟩ := (has list rfl).arguments_words
    refine h.append (each list rfl) fun w first => ?_
    rw [optWords_some, front] at first
    obtain rfl : "<" = w := Option.some.inj first
    decide

theorem Modest.phrase (h : Modest part n) : Phrase n.words := by
  induction h with
  | name is =>
    rw [words_name]
    exact .name is
  | star =>
    rw [words_star]
    exact .word (by decide) (by decide)
  | argument _ ih =>
    rw [words_argument]
    exact ih
  | arguments _ ih =>
    rw [words_arguments]
    exact Phrase.bracketed (by decide) (by simpa using ih)
  | qualifier _ has ih each =>
    rw [words_qualifier]
    exact ih.withArguments has each
  | simple _ _ has qualified ih each =>
    rw [words_simple, List.append_assoc]
    exact (ih.withArguments has each).dotted qualified
  | nullable _ ih =>
    rw [words_nullable]
    exact ih.behind (by decide) (by decide)
  | @parameter _ name _ _ _ named ih =>
    rw [words_parameter]
    cases name with
    | none => exact ih
    | some name =>
      rw [endedWords_some, List.append_assoc]
      exact (named name rfl).join ih (by decide) (by decide)
  | parameters _ ih =>
    rw [words_parameters]
    exact Phrase.bracketed (by decide) (by simpa using ih)
  | function _ _ takes gives =>
    rw [words_function]
    exact takes.join gives (by decide) (by decide)
  | extension _ _ _ _ ih takes gives =>
    rw [words_extension, words_receiver, words_reference, List.append_assoc, List.append_assoc]
    exact ih.join (takes.join gives (by decide) (by decide)) (by decide) (by decide)
  | reference _ _ ih =>
    rw [words_reference]
    exact ih
  | grouped _ _ ih =>
    rw [words_grouped]
    exact .enclosed (by decide) (.inr ih)
  | @groupedNullable _ _ _ _ _ type _ _ ih =>
    have whole : "(" :: type.words ++ [")", "?"] = "(" :: type.words ++ [")"] ++ ["?"] := by simp
    rw [words_reference, words_groupedNullable, whole]
    exact (Phrase.enclosed (by decide) (.inr ih)).behind (by decide) (by decide)

end KotlinSyntax
