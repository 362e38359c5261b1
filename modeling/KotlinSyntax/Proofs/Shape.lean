import Mathlib.Data.List.Chain
import KotlinSyntax.Proofs.Raw

/-! The shape of raw nodes, as far as whoever reads their parts relies on it unchecked. Commas stand
between the items of a list, a keyword or a single word is where the kind says, and quotes frame a string.
Nodes that hold skipped tokens have no shape. -/
namespace KotlinSyntax

namespace RawKind

def item? : RawKind → Option RawKind
  | valueArgumentList => some valueArgument
  | valueParameterList => some valueParameter
  | typeParameterList => some typeParameter
  | typeArgumentList => some typeProjection
  | functionTypeParameterList => some functionTypeParameter
  | contractEffectList => some contractEffect
  | contextReceiverList => some contextReceiver
  | lambdaParameterList => some lambdaParameter
  | lambdaParameter => some lambdaParameterVariable
  | whenEntry => some whenCondition
  | property => some destructuringEntry
  | typeConstraintList => some typeConstraint
  | classBody => some enumEntry
  | _ => none

/-- Whether nodes of the kind are items of a list, or the list that an arrow follows. -/
def isItem : RawKind → Bool
  | valueArgument | valueParameter | typeParameter | typeProjection | functionTypeParameter
  | contractEffect | contextReceiver | lambdaParameter | lambdaParameterVariable | whenCondition
  | destructuringEntry | typeConstraint | enumEntry | lambdaParameterList => true
  | _ => false

def isPlain : RawKind → Bool
  | stringTemplate | longTemplate | lambdaExpression | throwExpression | returnExpression
  | continueExpression | breakExpression | dynamicType | collectionLiteralExpression
  | arrayAccessExpression => false
  | kind => kind.item?.isNone

end RawKind

namespace RawElement

def spells (text : String) : RawElement → Bool
  | leaf l => l.token.text == text
  | node .. => false

def isOf (kind : RawKind) : RawElement → Bool
  | leaf _ => false
  | node k .. => k == kind

def isMark : RawElement → Bool
  | leaf l => l.token.kind.isMark
  | node .. => false

/-- Neither a comma nor an item of a list nor a mark. -/
def isOrdinary : RawElement → Bool
  | leaf l => l.token.text != "," && !l.token.kind.isMark
  | node k .. => !k.isItem

theorem not_isMark_of_isOrdinary {e : RawElement} (h : e.isOrdinary = true) : e.isMark = false := by
  cases e with
  | leaf l =>
    simp only [isOrdinary, Bool.and_eq_true, Bool.not_eq_true'] at h
    exact h.2
  | node => rfl

theorem not_comma_of_isOrdinary {e : RawElement} (h : e.isOrdinary = true) : e.spells "," = false := by
  cases e with
  | leaf l =>
    simp only [isOrdinary, Bool.and_eq_true] at h
    simpa [spells] using h.1
  | node => rfl

theorem not_isOf_of_isOrdinary {e : RawElement} {kind : RawKind} (item : kind.isItem = true)
    (h : e.isOrdinary = true) : e.isOf kind = false := by
  cases e with
  | leaf => rfl
  | node k role children =>
    simp only [isOrdinary, Bool.not_eq_true'] at h
    simp only [isOf, beq_eq_false_iff_ne, ne_eq]
    rintro rfl
    rw [item] at h
    cases h

end RawElement

open RawElement

/-- A comma follows an item only, and no item follows another at once. -/
def Follows (item : RawElement → Bool) (x y : RawElement) : Prop :=
  (y.spells "," = true → item x = true) ∧ (item x = true → item y = false)

def listStart : RawElement := .leaf ⟨⟨.operator, 0, 0, ","⟩, false⟩

/-- Commas stand between items, as if one more stood in front of the list. -/
def Spaced (item : RawElement → Bool) (es : List RawElement) : Prop :=
  List.IsChain (Follows item) (listStart :: es)

def Headed (text : String) (es : List RawElement) : Prop :=
  ∃ l rest, es = .leaf l :: rest ∧ l.token.text = text

def Entered (es : List RawElement) : Prop :=
  List.IsChain (fun x y => x.spells "," = true → y.isOf .enumEntry = true) es

/-- What the kinds ask of their parts one by one. -/
def Framed (kind : RawKind) (es : List RawElement) : Prop :=
  match kind with
  | .typeConstraintList => ∀ e ∈ es.getLast?, e.spells "," = false
  | .classBody => Entered es ∧ ∀ e ∈ es.getLast?, e.spells "," = false
  | .lambdaExpression =>
    List.IsChain (fun x y => x.isOf .lambdaParameterList = true → y.spells "->" = true) es ∧
      ∀ e ∈ es.getLast?, e.isOf .lambdaParameterList = false
  | .throwExpression => Headed "throw" es
  | .returnExpression => Headed "return" es
  | .continueExpression => Headed "continue" es
  | .breakExpression => Headed "break" es
  | .dynamicType => ∃ l, es = [.leaf l] ∧ l.token.text = "dynamic"
  | .collectionLiteralExpression =>
    ∃ opening inner closing, es = opening :: inner ++ [closing] ∧ Spaced (!·.spells ",") inner ∧
      closing.spells "]" = true
  | .arrayAccessExpression =>
    ∃ target opening inner closing, es = target :: opening :: inner ++ [closing] ∧
      Spaced (!·.spells ",") inner ∧ closing.spells "]" = true
  | _ => True

def Enclosed (opening closing : TokenKind) (es : List RawElement) : Prop :=
  ∃ first inner last, es = .leaf first :: inner ++ [.leaf last] ∧ first.token.kind = opening ∧
    last.token.kind = closing ∧ ∀ e ∈ inner, e.isMark = false

/-- What a kind asks of the parts of a node. -/
def Fits (kind : RawKind) (es : List RawElement) : Prop :=
  match kind with
  | .errorElement => True
  | .stringTemplate => Enclosed .openQuote .closeQuote es ∧ ∀ e ∈ es, e.isOf .errorElement = false
  | .longTemplate => Enclosed .longTemplateStart .longTemplateEnd es
  | kind => (∀ e ∈ es, e.isMark = false) ∧
    (∀ item, kind.item? = some item → Spaced (isOf item) es) ∧ Framed kind es

/-- Every node of the element fits its kind. -/
inductive Sound : RawElement → Prop
  | leaf (l : Leaf) (unmarked : l.trivia = true → l.token.kind.isMark = false) : Sound (.leaf l)
  | node (kind : RawKind) (role : Option String) (children : List RawElement)
      (fits : Fits kind (significant children)) (below : ∀ e ∈ children, Sound e) :
      Sound (.node kind role children)

theorem fits_of_isPlain {kind : RawKind} (plain : kind.isPlain = true) {es : List RawElement}
    (h : ∀ e ∈ es, e.isMark = false) : Fits kind es := by
  cases kind <;> first
    | contradiction
    | exact trivial
    | exact ⟨h, fun _ is => absurd is.symm (Option.some_ne_none _), trivial⟩

/-- A list of items whose kind asks for nothing else. -/
theorem fits_of_item {kind item : RawKind} {es : List RawElement} (lists : kind.item? = some item)
    (framed : Framed kind es) (unmarked : ∀ e ∈ es, e.isMark = false) (spaced : Spaced (isOf item) es) :
    Fits kind es := by
  have only : ∀ other, kind.item? = some other → Spaced (isOf other) es := by
    intro other is
    rw [lists] at is
    cases is
    exact spaced
  cases kind <;> first
    | contradiction
    | exact ⟨unmarked, only, framed⟩

/-- What holds of the parts gathered so far and is kept when an ordinary part is added. -/
structure Outline where
  holds : List RawElement → Prop
  ordinary {es : List RawElement} {e : RawElement} (h : holds es) (plain : e.isOrdinary = true) :
    holds (es ++ [e])

theorem unmarked_append {es : List RawElement} {e : RawElement} (h : ∀ x ∈ es, x.isMark = false)
    (plain : e.isMark = false) : ∀ x ∈ es ++ [e], x.isMark = false := by
  intro x member
  rcases List.mem_append.mp member with member | member
  · exact h x member
  · rw [List.mem_singleton.mp member]
    exact plain

theorem chain_append {R : RawElement → RawElement → Prop} {es : List RawElement} {e : RawElement}
    (h : es.IsChain R) (step : ∀ x ∈ es.getLast?, R x e) : (es ++ [e]).IsChain R := by
  refine h.append (List.isChain_singleton e) ?_
  intro x last y head
  cases head
  exact step x last

/-- Any part but a comma and an item may follow in a list. -/
theorem Spaced.append {item : RawElement → Bool} {es : List RawElement} {e : RawElement}
    (h : Spaced item es) (comma : e.spells "," = false) (other : item e = false) :
    Spaced item (es ++ [e]) := by
  refine chain_append h ?_
  intro x last
  refine ⟨?_, fun _ => other⟩
  intro is
  rw [comma] at is
  cases is

namespace Outline

def plain : Outline where
  holds es := ∀ e ∈ es, e.isMark = false
  ordinary h ordinary := unmarked_append h (not_isMark_of_isOrdinary ordinary)

def list (kind : RawKind) (item : kind.isItem = true) : Outline where
  holds es := (∀ e ∈ es, e.isMark = false) ∧ Spaced (isOf kind) es
  ordinary h ordinary :=
    ⟨unmarked_append h.1 (not_isMark_of_isOrdinary ordinary),
      h.2.append (not_comma_of_isOrdinary ordinary) (not_isOf_of_isOrdinary item ordinary)⟩

def arrowed : Outline where
  holds es := (∀ e ∈ es, e.isMark = false) ∧ Framed .lambdaExpression es
  ordinary h ordinary := by
    refine ⟨unmarked_append h.1 (not_isMark_of_isOrdinary ordinary), chain_append h.2.1 ?_, ?_⟩
    · intro x last is
      rw [h.2.2 x last] at is
      cases is
    · simpa using not_isOf_of_isOrdinary rfl ordinary

def body : Outline where
  holds es := (∀ e ∈ es, e.isMark = false) ∧ Spaced (isOf .enumEntry) es ∧ Framed .classBody es
  ordinary h ordinary := by
    have noComma := not_comma_of_isOrdinary ordinary
    refine ⟨unmarked_append h.1 (not_isMark_of_isOrdinary ordinary),
      h.2.1.append noComma (not_isOf_of_isOrdinary rfl ordinary), chain_append h.2.2.1 ?_, by simpa using noComma⟩
    intro x last is
    rw [h.2.2.2 x last] at is
    cases is

def headed (text : String) : Outline where
  holds es := (∀ e ∈ es, e.isMark = false) ∧ Headed text es
  ordinary h ordinary := by
    obtain ⟨unmarked, l, rest, rfl, spelled⟩ := h
    exact ⟨unmarked_append unmarked (not_isMark_of_isOrdinary ordinary), l, rest ++ [_], rfl, spelled⟩

def within (opening : TokenKind) : Outline where
  holds es := ∃ first inner, es = .leaf first :: inner ∧ first.token.kind = opening ∧
    ∀ e ∈ inner, e.isMark = false
  ordinary h ordinary := by
    obtain ⟨first, inner, rfl, opened, unmarked⟩ := h
    exact ⟨first, inner ++ [_], rfl, opened, unmarked_append unmarked (not_isMark_of_isOrdinary ordinary)⟩

theorem within_append {opening : TokenKind} {es : List RawElement} {e : RawElement}
    (h : (within opening).holds es) (unmarked : e.isMark = false) : (within opening).holds (es ++ [e]) := by
  obtain ⟨first, inner, rfl, opened, plain⟩ := h
  exact ⟨first, inner ++ [e], rfl, opened, unmarked_append plain unmarked⟩

theorem within_close {opening closing : TokenKind} {es : List RawElement} {t : Token}
    (h : (within opening).holds es) (closes : t.kind = closing) :
    Enclosed opening closing (es ++ [.leaf ⟨t, false⟩]) := by
  obtain ⟨first, inner, rfl, opened, plain⟩ := h
  exact ⟨first, inner, ⟨t, false⟩, rfl, opened, closes, plain⟩

end Outline

end KotlinSyntax
