import KotlinSyntax.Proofs.Types.Text

/-! A builder in front of a row. What the grammar asks of the tokens to come is read off the words. -/
namespace KotlinSyntax

open Grammar
open Lexer (isIdentifier)

theorem facing_getElem? (ws : List String) (n : Nat) : (facing ws)[n]? = ws[n]?.map fun w => ⟨wordToken w, true⟩ :=
  List.getElem?_map

theorem isIdentifier_eq (w : String) : ((wordToken w).kind == .identifier) = isIdentifier w := by
  unfold wordToken
  split <;> simp_all

structure Builder.Faces (ts : List Token) (b : Builder) (ws : List String) : Prop where
  sited : b.At ts (facing ws)
  row : Row ws

namespace Builder.Faces

variable {scope : Scope} {ts : List Token} {b : Builder} {w : String} {ws vs : List String} {m : Marker}
  {es : List RawElement}

theorem sees (h : b.Faces ts ws) (text : String) (n : Nat) : b.sees text n = (ws[n]? == some text) := by
  rw [h.sited.sees, facing_getElem?]
  cases ws[n]? with
  | none => rfl
  | some w => exact wordToken_spells w text

theorem seen (h : b.Faces ts (w :: ws)) : b.sees w = true := (h.sees w 0).trans (beq_self_eq_true _)

theorem unseen (h : b.Faces ts ws) (other : ws.head? ≠ some w) : b.sees w = false := by
  rw [List.head?_eq_getElem?] at other
  exact (h.sees w 0).trans (beq_eq_false_iff_ne.mpr other)

theorem seesName (h : b.Faces ts ws) (n : Nat) : b.seesName n = ws[n]?.any isIdentifier := by
  rw [Builder.seesName, h.sited.seesKind, facing_getElem?]
  cases ws[n]? with
  | none => rfl
  | some w => exact isIdentifier_eq w

theorem placed (h : b.Faces ts ws) : b.Placed := h.sited.placed

theorem remaining (h : b.Faces ts ws) : b.remaining = ws.length := by
  rw [h.sited.remaining, facing, List.length_map]

theorem adjacent (h : b.Faces ts (w :: ws)) : b.adjacent = true := h.sited.adjacent (n := 0) rfl

theorem touch (h : b.Faces ts (w :: v :: ws)) : touch w v = true := h.row.chain.rel

theorem advance (h : b.Faces ts (w :: ws)) (shown : m.Shows es) : Reads scope (advance m) b fun m' b' =>
    m'.Shows (es ++ [wordLeaf w]) ∧ b'.Faces ts ws := by
  refine (h.sited.advance shown).mono ?_
  rintro m' b' ⟨shown, sited⟩
  refine ⟨shown, sited, fun v member => h.row.known v (List.mem_cons_of_mem w member), ?_⟩
  exact (List.isChain_cons.mp h.row.chain).2

theorem expect (h : b.Faces ts (w :: ws)) (shown : m.Shows es) : Reads scope (expect m w) b fun m' b' =>
    m'.Shows (es ++ [wordLeaf w]) ∧ b'.Faces ts ws :=
  .look (.yes h.seen (h.advance shown))

theorem expectName (h : b.Faces ts (w :: ws)) (is : isTypeName w = true) (shown : m.Shows es) :
    Reads scope (expectName m) b fun m' b' => m'.Shows (es ++ [wordLeaf w]) ∧ b'.Faces ts ws := by
  have seen : b.seesName = true := (h.seesName 0).trans (isIdentifier_of_isTypeName is)
  exact .look (.yes seen (h.advance shown))

/-! Tests that look further ahead. -/

theorem ahead (h : b.Faces ts ws) : b.ahead.map Token.bare = ws.map wordToken := by
  rw [h.sited.ahead, facing, List.map_map]
  rfl

/-- A parenthesis begins a function type if an arrow follows the one that closes it. -/
theorem startsFunctionType (front : List String) {inside rest : List String} (h : b.Faces ts (front ++ ("(" :: inside ++ [")"] ++ rest)))
    (matched : Matched inside) : b.startsFunctionType front.length = (rest.head? == some "->") := by
  have closes : closingParen? front.length 0 (b.ahead.drop front.length) = some (front.length + 1 + inside.length) := by
    rw [← closingParen?_map_bare, List.map_drop, h.ahead, ← List.map_drop, List.drop_left, List.map_append,
      matched.closes, if_pos rfl]
  have opens : b.sees "(" front.length = true := by
    rw [h.sees]
    simp
  have arrow : b.sees "->" ((front.length + 1 + inside.length : Nat) + 1) = (rest.head? == some "->") := by
    have seen := h.sees "->" (front.length + 1 + inside.length + 1)
    have place : (front ++ ("(" :: inside ++ [")"] ++ rest))[front.length + 1 + inside.length + 1]? = rest.head? := by
      have whole : front ++ ("(" :: inside ++ [")"] ++ rest) = (front ++ ("(" :: inside ++ [")"])) ++ rest := by simp
      have place : front.length + 1 + inside.length + 1 = (front ++ ("(" :: inside ++ [")"])).length := by
        simp
        omega
      rw [whole, place, List.getElem?_append_right (Nat.le_refl _), Nat.sub_self, List.head?_eq_getElem?]
    rw [place] at seen
    exact seen
  rw [Builder.startsFunctionType, opens, closes]
  exact arrow

/-- A name that is spelled like a modifier is none in front of a word that it touches. -/
theorem standsModifier (h : b.Faces ts ws) {place : ModifierPlace} (either : place = .type ∨ place = .typeArgument) :
    standsModifier place b = false := by
  have none : atModifier place b.ahead = false := by
    rw [← atModifier_map_bare, h.ahead]
    match ws, h with
    | [], _ => rfl
    | [w], _ => rfl
    | w :: v :: ws, h =>
      by_cases name : isIdentifier w = true
      · have fine := h.touch
        simp only [KotlinSyntax.touch, name, Bool.true_and, Bool.and_eq_true, Bool.not_eq_true', Bool.or_eq_false_iff] at fine
        have sign := sign_of_known (h.row.known v (by simp)) fine.1.1
        have other : v ≠ "@" := by
          rintro rfl
          exact absurd sign (by decide)
        have next : ((wordToken v).kind == .identifier) = false := (isIdentifier_eq v).trans fine.1.1
        rcases either with rfl | rfl
        · simp [atModifier, wordToken_spells, next, fine.1.2]
        · simp [atModifier, wordToken_spells, next, fine.1.2, other]
      · have signs : ∀ w ∈ typeSigns, Keyword.modifiers.contains w = false := by decide +kernel
        have sign := sign_of_known (h.row.known w (by simp)) (by simpa using name)
        have text : (wordToken w).text = w := rfl
        simp only [List.map_cons, atModifier, text, signs w sign, Bool.false_and]
  rw [Grammar.standsModifier, none, Bool.and_false]

theorem modified (h : b.Faces ts ws) {place : ModifierPlace} (either : place = .type ∨ place = .typeArgument) (m : Marker) :
    Reads scope (modified Recur.whole place m) b fun m' b' => m' = m ∧ b' = b := by
  have sign : b.sees "@" = false := h.unseen fun first =>
    absurd (h.row.known "@" (List.mem_of_head? first)) (by decide)
  have turn : Reads scope (modifierTurn Recur.whole place Marker.empty) b fun t b' => t = .stop Marker.empty ∧ b' = b := by
    refine .look (.no ?_ (.no ?_ (.pure ⟨rfl, rfl⟩)))
    · simp [sign]
    · simp [h.standsModifier either]
  refine .bind (R := fun list b' => list = none ∧ b' = b) ?_ ?_
  · refine .bind (.iterate (.stop turn (Q := fun m b' => m = Marker.empty ∧ b' = b) ⟨rfl, rfl⟩)) ?_
    rintro _ _ ⟨rfl, rfl⟩
    exact .pure ⟨rfl, rfl⟩
  · rintro _ _ ⟨rfl, rfl⟩
    exact .pure ⟨rfl, rfl⟩

end Builder.Faces

end KotlinSyntax
