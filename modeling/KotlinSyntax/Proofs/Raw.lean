import KotlinSyntax.Grammar.Sight
import KotlinSyntax.Proofs.Lexing

/-! Leaves against tokens. The leaves of a tree tile a list of tokens when each leaf is the next token, or
one operator over the next few. Markers gather leaves from the left, and what they hold beside trivia is
their parts. -/
namespace KotlinSyntax

def Token.isWord (t : Token) : Bool := t.kind == .keyword || t.kind == .operator || t.kind == .identifier

theorem Token.isWord_of_spells {t : Token} {text : String} (h : t.spells text = true) : t.isWord = true := by
  simp only [spells, Bool.and_eq_true] at h
  exact h.2

theorem Token.text_of_spells {t : Token} {text : String} (h : t.spells text = true) : t.text = text := by
  simp only [spells, Bool.and_eq_true, beq_iff_eq] at h
  exact h.1

theorem Token.not_isMark_of_isWord {t : Token} (h : t.isWord = true) : t.kind.isMark = false := by
  unfold isWord at h
  cases kind : t.kind <;> simp [kind] at h <;> rfl

theorem TokenKind.not_isMark_of_isTrivia {k : TokenKind} (h : k.isTrivia = true) : k.isMark = false := by
  cases k <;> first | rfl | cases h

/-- Trivia of a kind that is always trivia. -/
def Leaf.Blank (l : Leaf) : Prop := l.trivia = true ∧ l.token.kind.isTrivia = true

/-- It opens and closes nothing. -/
theorem Leaf.Blank.unmarked {l : Leaf} (h : l.Blank) : l.token.kind.isMark = false :=
  TokenKind.not_isMark_of_isTrivia h.2

/-- Leaves that hold the tokens, each once and in order. -/
inductive Tiles : List Leaf → List Token → Prop
  | nil : Tiles [] []
  | token (t : Token) (trivia : Bool) {ls : List Leaf} {ts : List Token} (tail : Tiles ls ts) :
      Tiles (⟨t, trivia⟩ :: ls) (t :: ts)
  | glued (parts : List Token) (op : Token) (several : 2 ≤ parts.length)
      (words : ∀ t ∈ parts, t.isWord = true) (joined : Token.glue? parts = some op)
      {ls : List Leaf} {ts : List Token} (tail : Tiles ls ts) : Tiles (⟨op, false⟩ :: ls) (parts ++ ts)

namespace Tiles

variable {ls ms : List Leaf} {ts us : List Token}

theorem append (h : Tiles ls ts) (k : Tiles ms us) : Tiles (ls ++ ms) (ts ++ us) := by
  induction h with
  | nil => exact k
  | token t trivia tail ih => exact .token t trivia ih
  | glued parts op several words joined tail ih =>
    rw [List.append_assoc]
    exact .glued parts op several words joined ih

theorem ofTokens (ts : List Token) : Tiles (ts.map Leaf.ofToken) ts := by
  induction ts with
  | nil => exact .nil
  | cons t ts ih => exact .token t t.kind.isTrivia ih

theorem glue_text {parts : List Token} {op : Token} (h : Token.glue? parts = some op) :
    op.text = String.join (parts.map (·.text)) ∧ op.kind = .operator := by
  unfold Token.glue? at h
  split at h <;> cases h
  exact ⟨rfl, rfl⟩

theorem text (h : Tiles ls ts) :
    String.join (ls.map (·.token.text)) = String.join (ts.map (·.text)) := by
  induction h with
  | nil => rfl
  | token t trivia tail ih => rw [List.map_cons, List.map_cons, String.join_cons, String.join_cons, ih]
  | glued parts op several words joined tail ih =>
    rw [List.map_cons, List.map_append, String.join_cons, String.join_append, ih, (glue_text joined).1]

theorem eq_nil (h : Tiles [] ts) : ts = [] := by
  cases h
  rfl

/-- A leaf is one of the tokens, or an operator. -/
theorem mem (h : Tiles ls ts) {l : Leaf} (member : l ∈ ls) : l.token ∈ ts ∨ l.token.kind = .operator := by
  induction h with
  | nil => cases member
  | token t trivia tail ih =>
    rcases List.mem_cons.mp member with rfl | member
    · exact .inl (List.mem_cons_self ..)
    · exact (ih member).imp_left (List.mem_cons_of_mem t)
  | glued parts op several words joined tail ih =>
    rcases List.mem_cons.mp member with rfl | member
    · exact .inr (glue_text joined).2
    · exact (ih member).imp_left (List.mem_append_right parts)

theorem nestAll_words {parts : List Token} (words : ∀ t ∈ parts, t.isWord = true) (marks : List Mark) :
    Token.nestAll marks parts = some marks := by
  induction parts with
  | nil => rfl
  | cons t ts ih =>
    have first := Token.not_isMark_of_isWord (words t (List.mem_cons_self ..))
    rw [Token.nestAll, Token.nest_of_not_isMark first, Option.bind_some]
    exact ih fun u member => words u (List.mem_cons_of_mem t member)

/-- Gluing changes nothing about what is open. -/
theorem nestAll (h : Tiles ls ts) (marks : List Mark) :
    Token.nestAll marks (ls.map (·.token)) = Token.nestAll marks ts := by
  induction h generalizing marks with
  | nil => rfl
  | token t trivia tail ih =>
    simp only [List.map_cons, Token.nestAll]
    congr 1
    funext marks
    exact ih marks
  | glued parts op several words joined tail ih =>
    have plain : op.kind.isMark = false := by rw [(glue_text joined).2]; rfl
    rw [List.map_cons, Token.nestAll, Token.nest_of_not_isMark plain, Token.nestAll_append,
      nestAll_words words, Option.bind_some, Option.bind_some]
    exact ih marks

end Tiles

namespace RawElement

@[simp] theorem leavesAll_append (es fs : List RawElement) :
    leavesAll (es ++ fs) = leavesAll es ++ leavesAll fs := by
  induction es with
  | nil => rfl
  | cons e es ih => rw [List.cons_append, leavesAll, leavesAll, ih, List.append_assoc]

@[simp] theorem leavesAll_leaves (ls : List Leaf) : leavesAll (ls.map RawElement.leaf) = ls := by
  induction ls with
  | nil => rfl
  | cons l ls ih => rw [List.map_cons, leavesAll, ih]; rfl

theorem leavesAll_eq (es : List RawElement) : leavesAll es = es.flatMap leaves := by
  induction es with
  | nil => rfl
  | cons e es ih => rw [leavesAll, List.flatMap_cons, ih]

theorem mem_leavesAll {es : List RawElement} {e : RawElement} {l : Leaf} (member : e ∈ es) (inside : l ∈ e.leaves) :
    l ∈ leavesAll es := by
  rw [leavesAll_eq]
  exact List.mem_flatMap.mpr ⟨e, member, inside⟩

@[simp] theorem significant_append (es fs : List RawElement) :
    significant (es ++ fs) = significant es ++ significant fs := List.filter_append ..

theorem significant_leaves {ls : List Leaf} (h : ∀ l ∈ ls, l.Blank) :
    significant (ls.map RawElement.leaf) = [] := by
  simp only [significant, List.filter_eq_nil_iff, List.mem_map]
  rintro e ⟨l, member, rfl⟩
  simp [isTrivia, (h l member).1]

end RawElement

namespace Marker

open RawElement

def leaves (m : Marker) : List Leaf := m.leading ++ leavesAll m.children.toList

def parts (m : Marker) : List RawElement := significant m.children.toList

@[simp] theorem leaves_empty : empty.leaves = [] := rfl

@[simp] theorem parts_empty : empty.parts = [] := rfl

theorem leaves_addTrivia (m : Marker) (trivia : List Leaf) :
    (m.addTrivia trivia).leaves = m.leaves ++ trivia := by
  unfold addTrivia
  split
  · rename_i bare
    have none : m.children = #[] := Array.isEmpty_iff.mp bare
    simp [leaves, none, leavesAll]
  · simp [leaves]

theorem parts_addTrivia (m : Marker) {trivia : List Leaf} (h : ∀ l ∈ trivia, l.Blank) :
    (m.addTrivia trivia).parts = m.parts := by
  unfold addTrivia
  split
  · rfl
  · simp [parts, significant_leaves h]

theorem leading_addTrivia (m : Marker) {trivia : List Leaf} (h : ∀ l ∈ trivia, l.Blank)
    (leading : ∀ l ∈ m.leading, l.Blank) : ∀ l ∈ (m.addTrivia trivia).leading, l.Blank := by
  unfold addTrivia
  split
  · intro l member
    rcases List.mem_append.mp member with member | member
    · exact leading l member
    · exact h l member
  · exact leading

@[simp] theorem leaves_push (m : Marker) (e : RawElement) : (m.push e).leaves = m.leaves ++ e.leaves := by
  simp [leaves, push, leavesAll]

theorem parts_push (m : Marker) {e : RawElement} (h : e.isTrivia = false) :
    (m.push e).parts = m.parts ++ [e] := by
  simp [parts, push, significant, h]

theorem parts_push_trivia (m : Marker) {e : RawElement} (h : e.isTrivia = true) :
    (m.push e).parts = m.parts := by
  simp [parts, push, significant, h]

end Marker

namespace Parsed

def leaves (p : Parsed) : List Leaf := p.leading ++ p.element.leaves

end Parsed

namespace Marker

theorem leaves_ofParsed (p : Parsed) : (ofParsed p).leaves = p.leaves := by
  simp [ofParsed, leaves, Parsed.leaves, RawElement.leavesAll]

theorem leaves_absorb (m n : Marker) : (m.absorb n).leaves = m.leaves ++ n.leaves := by
  have gathered := leaves_addTrivia m n.leading
  simp only [leaves] at gathered
  simp only [absorb, leaves, Array.toList_append, RawElement.leavesAll_append]
  rw [← List.append_assoc, gathered]
  simp [List.append_assoc]

end Marker

end KotlinSyntax
