import KotlinSyntax.Proofs.Grammar.Type
import KotlinSyntax.Proofs.Parse.Formula

/-! What the grammar tries on the way through a formula: calls, receivers and references, in vain, and the operators of
its levels. -/
namespace KotlinSyntax.Formula

open Builder Grammar
open Lexer (isIdentifier ne_of_isIdentifier)

def foreign : List String := ["::", "(", "\x7b", "@", "[", "++", "--", "!!", "as", "is", "!is"]

def Tame (ts : List Token) : Prop := ∀ t ∈ ts, ∀ w ∈ foreign, t.spells w = false

theorem not_foreign_of_isIdentifier {text : String} (is : isIdentifier text = true) : text ∉ foreign := by
  intro member
  have none : ∀ w ∈ foreign, isIdentifier w = false := by decide +kernel
  exact ne_of_isIdentifier is (none text member) rfl

theorem not_foreign_operator {n : Nat} {op : String} (joined : joins n op = true) (touches : Bool) :
    ∀ g ∈ operator touches n op, g.token.text ∉ foreign := by
  have pieces : ∀ piece ∈ Builder.pieces op, piece ∉ foreign := by
    by_cases seven : n = 7
    · subst seven
      have is : isIdentifier op = true := joined
      rw [pieces_of_isIdentifier is]
      simpa using not_foreign_of_isIdentifier is
    · have known : ∀ n ∈ List.range 14, ∀ op ∈ signs n, ∀ piece ∈ Builder.pieces op, piece ∉ foreign := by decide +kernel
      have sign := sign_of_joins joined seven
      exact known n (mem_range_of_sign sign) op sign
  rcases operator_cases touches n op with ⟨one, whole⟩ | ⟨first, second, two, _, whole⟩
  · rw [one] at pieces
    rw [whole]
    simpa [glance] using pieces
  · rw [two] at pieces
    rw [whole]
    simpa [glance] using pieces

theorem not_foreign (f : Formula) (fits : f.fits = true) (spacing : Spacing) (last : Option String) :
    ∀ g ∈ f.glances spacing last, g.token.text ∉ foreign := by
  induction f generalizing last with
  | name text => simpa [glances, glance] using not_foreign_of_isIdentifier fits
  | operation left level op right ihl ihr =>
    simp only [Formula.fits, Bool.and_eq_true] at fits
    intro g member
    rw [glances, List.mem_append, List.mem_append] at member
    rcases member with (member | member) | member
    · exact ihl fits.1.1.2 last g member
    · exact not_foreign_operator fits.1.1.1 _ g member
    · exact ihr fits.1.2 (some op) g member

theorem tame_of_fits {f : Formula} {spacing : Spacing} {ts : List Token} (fits : f.fits = true)
    (seen : Token.glances ts = f.glances spacing none) : Tame ts := by
  intro t member w foreign
  rw [Bool.eq_false_iff]
  intro spelled
  have part : t ∈ Token.parts ts := by
    refine List.mem_filter.mpr ⟨member, ?_⟩
    simp [Token.isPart, Tiles.isTrivia_of_isWord (Token.isWord_of_spells spelled)]
  obtain ⟨n, at_⟩ := List.getElem?_of_mem part
  have same := Token.getElem?_glances ts n
  rw [at_, seen] at same
  obtain ⟨g, found, is⟩ := Option.map_eq_some_iff.mp same
  apply not_foreign f fits spacing none g (List.mem_of_getElem? found)
  have text : g.token.text = w := (congrArg Token.text is).trans (Token.text_of_spells spelled)
  rwa [text]

theorem Tame.sees {ts : List Token} {b : Builder} {w : String} (tame : Tame ts) (tokens : b.tokens.toList = ts)
    (foreign : w ∈ foreign) (n : Int) : b.sees w n = false := by
  rw [Bool.eq_false_iff]
  intro seen
  obtain ⟨t, peeked, spelled⟩ := peek_of_sees seen
  have member : t ∈ ts := by
    rw [Builder.peek, Option.bind_eq_some_iff] at peeked
    obtain ⟨i, _, found⟩ := peeked
    rw [← tokens]
    exact Array.mem_toList_iff.mpr (Array.mem_of_getElem? found)
  rw [tame t member w foreign] at spelled
  cases spelled

section

variable {ts : List Token} {scope : Scope} {b : Builder} {view rest : List Glance}
  {p : Parsed} {e : RawElement}

/-! What is tried in vain. -/

theorem typeReceiver_rejects (tame : Tame ts) (sited : b.At ts view) :
    Ensures scope (typeReceiver Recur.whole) b fun _ _ => False := by
  refine .bind (userType_gives (whole_serves _) sited.placed (Nat.le_refl _) false) ?_
  intro type b₁ given
  have tokens : b₁.tokens.toList = ts := by rw [given.built.tokens, sited.above.tokens]
  refine .look (.ite ?_ fun _ => .reject)
  simp [tame.sees tokens (w := "::") (by decide)]

theorem callTypeArguments_reads (tame : Tame ts) (sited : b.At ts view) :
    Reads scope (callTypeArguments Recur.whole) b fun args b' => args = none ∧ b' = b := by
  by_cases seen : b.sees "<" = true
  · refine .look (.yes seen (.speculate_none ?_ ⟨rfl, rfl⟩))
    refine .bind (typeArguments_gives (whole_serves _) sited.placed (Nat.le_refl _)) ?_
    intro args b₁ given
    have tokens : b₁.tokens.toList = ts := by rw [given.built.tokens, sited.above.tokens]
    refine .look (.ite ?_ fun _ => .reject)
    have none : b₁.seesAny ["(", openBrace] = false := by
      have paren := tame.sees tokens (w := "(") (by decide) 0
      have brace := tame.sees tokens (w := openBrace) (by decide) 0
      simp [Builder.seesAny, paren, brace]
    simp [none]
  · exact .look (.no seen (.pure ⟨rfl, rfl⟩))

theorem callSuffix_reads (tame : Tame ts) (sited : b.At ts view) :
    Reads scope (callSuffix Recur.whole p) b fun call b' => call = none ∧ b' = b := by
  have never (w : String) (foreign : w ∈ foreign) (n : Int) : b.sees w n = false := tame.sees sited.above.tokens foreign n
  have lambda : Reads scope (trailingLambda Recur.whole false) b fun lambda b' => lambda = none ∧ b' = b := by
    refine .look (.surroundings ?_)
    split
    · refine .bind (R := fun found b' => found = false ∧ b' = b) ?_ ?_
      · refine .look (.no ?_ (.no ?_ (.no ?_ (.pure ⟨rfl, rfl⟩))))
        · simp [never openBrace (by decide)]
        · simp [never "@" (by decide)]
        · simp [never "@" (by decide)]
      · rintro _ _ ⟨rfl, rfl⟩
        exact .pure ⟨rfl, rfl⟩
    · exact .pure ⟨rfl, rfl⟩
  refine .look (.no (by simp [sited.separatedBefore]) ?_)
  refine .bind (callTypeArguments_reads tame sited) ?_
  rintro _ b ⟨rfl, rfl⟩
  refine .bind (R := fun args b' => args = none ∧ b' = b) ?_ ?_
  · refine .look (.no ?_ (.pure ⟨rfl, rfl⟩))
    simp [never "(" (by decide)]
  · rintro _ b ⟨rfl, rfl⟩
    refine .bind lambda ?_
    rintro _ _ ⟨rfl, rfl⟩
    exact .yes rfl (.pure ⟨rfl, rfl⟩)

/-- The next operand is a name. -/
theorem nameExpression_reads (tame : Tame ts) {text : String} {touches : Bool}
    (sited : b.At ts (glance .identifier text touches :: view)) :
    Reads scope (primary Recur.whole) b fun p b' => p.Shows (leaf .identifier text) ∧ b'.At ts view := by
  have token : Reads scope Grammar.token b fun p b' => p.Shows (leaf .identifier text) ∧ b'.At ts view := sited.token
  obtain ⟨t, peeked, same⟩ := Option.map_eq_some_iff.mp (sited.peek 0)
  have seen : b.peek = some t := peeked
  have kind : t.kind = .identifier := congrArg Token.kind same
  refine .look ?_
  simp only [seen, kind]
  refine .look ?_
  split
  · refine .bind (.speculate_none (typeReceiver_rejects tame sited) (Q := fun type b' => type = none ∧ b' = b) ⟨rfl, rfl⟩) ?_
    rintro _ b ⟨rfl, rfl⟩
    exact token
  · exact token

end

/-! Operators in sight. -/

def countAt (ops : List String) (op : String) : Nat :=
  match Builder.pieces op with
  | [first, second] => ((ops.map (standsOn first (some second))).find? (0 < ·)).getD 0
  | _ => ((ops.map (standsOn op none)).find? (0 < ·)).getD 0

theorem countAt_sign : ∀ n ∈ List.range 14, ∀ m ∈ List.range 14, ∀ op ∈ signs m,
    countAt (signs n) op = if m = n then (Builder.pieces op).length else 0 := by decide +kernel

theorem countAt_name {op : String} (is : isIdentifier op = true) (n : Nat) : countAt (signs n) op = 0 := by
  have none : ∀ n ∈ List.range 14, ∀ o ∈ signs n, ∀ piece ∈ Builder.pieces o, isIdentifier piece = false := by
    decide +kernel
  have zero : ∀ o ∈ signs n, standsOn op Option.none o = 0 := by
    intro o member
    have other := none n (mem_range_of_sign member) o member
    unfold standsOn
    split
    · rename_i a one
      exact if_neg (ne_of_isIdentifier is (other a (by simp [one])))
    · rename_i a c two
      exact if_neg fun both => ne_of_isIdentifier is (other a (by simp [two])) both.1
    · rfl
  have all : ((signs n).map (standsOn op Option.none)).find? (0 < ·) = Option.none := by
    rw [List.find?_eq_none]
    intro count member
    obtain ⟨o, inside, rfl⟩ := List.mem_map.mp member
    simp [zero o inside]
  rw [countAt, pieces_of_isIdentifier is, all]
  rfl

section

variable {ts : List Token} {b : Builder} {view : List Glance} {n m : Nat} {op : String} {touches : Bool}

/-- Only a name may touch what is in front of the view. -/
def Free (view : List Glance) : Prop := ∀ w ∈ touching? view, isIdentifier w = true

theorem free_glances {f : Formula} (fits : f.fits = true) (spacing : Spacing) (last : Option String)
    (rest : List Glance) : Free (f.glances spacing last ++ rest) := by
  obtain ⟨text, tail, is, _, front⟩ := glances_front fits spacing last rest
  rw [front]
  cases spacing last text with
  | false => exact fun _ none => by cases none
  | true =>
    rintro _ ⟨⟩
    exact is

/-- No half of an operator is a name. -/
theorem standsOn_free {o : String} (sign : o ∈ signs m) (free : Free view) (first : String) :
    standsOn first (touching? view) o = standsOn first none o := by
  have known : ∀ m ∈ List.range 14, ∀ o ∈ signs m, ∀ half ∈ (Builder.pieces o)[1]?, isIdentifier half = false := by
    decide +kernel
  have other := known m (mem_range_of_sign sign) o sign
  unfold standsOn
  split
  · rfl
  · rename_i a half two
    have never : touching? view ≠ some half := by
      intro same
      have name := free half same
      rw [other half (by simp [two])] at name
      cases name
    simp [never]
  · rfl

theorem word_kind (n : Nat) (text : String) : Token.isWord ⟨kind n, 0, 0, text⟩ = true := by
  unfold kind
  split
  · rfl
  · split <;> rfl

theorem operatorsCount_at (sited : b.At ts (operator touches n op ++ view)) (free : Free view) (m : Nat) :
    b.operatorsCount (signs m) = countAt (signs m) op := by
  rcases operator_cases touches n op with ⟨one, whole⟩ | ⟨first, second, two, _, whole⟩
  · rw [whole, List.singleton_append] at sited
    have same : (signs m).map (standsOn op (touching? view)) = (signs m).map (standsOn op none) :=
      List.map_congr_left fun o sign => standsOn_free sign free op
    rw [sited.operatorsCount (word_kind n op), countAt, one, ← same]
    rfl
  · rw [whole, List.cons_append, List.singleton_append] at sited
    have close : touching? (glance (kind n) second true :: view) = some second := if_pos (word_kind n second)
    rw [sited.operatorsCount (word_kind n first), countAt, two, close]
    rfl

/-- What may stand behind an operand of the level: nothing, or an operator that binds less tightly. -/
inductive Follows (n : Nat) : List Glance → Prop
  | nil : Follows n []
  | operator {m : Nat} {op : String} {view : List Glance} (touches : Bool) (looser : m < n) (joined : joins m op = true)
      (free : Free view) : Follows n (operator touches m op ++ view)

theorem Follows.mono (h : Follows n view) (le : n ≤ m) : Follows m view := by
  cases h with
  | nil => exact .nil
  | operator touches looser joined free => exact .operator touches (Nat.lt_of_lt_of_le looser le) joined free

theorem Follows.operatorsCount (h : Follows n view) (sited : b.At ts view) : b.operatorsCount (signs n) = 0 := by
  cases h with
  | nil => exact sited.operatorsCount_nil (signs n)
  | @operator m op view touches looser joined free =>
    rw [operatorsCount_at sited free]
    by_cases seven : m = 7
    · subst seven
      exact countAt_name joined n
    · by_cases known : n ∈ List.range 14
      · have sign := sign_of_joins joined seven
        rw [countAt_sign n known m (mem_range_of_sign sign) op sign, if_neg (Nat.ne_of_lt looser)]
      · have none : signs n = [] := List.eq_nil_iff_forall_not_mem.mpr fun o member => known (mem_range_of_sign member)
        rw [none]
        unfold countAt
        split <;> rfl

/-- The operator, whole or in pieces, becomes one leaf. -/
theorem advanceGlued_reads {marker : Marker} {es : List RawElement} {scope : Scope} {count : Nat}
    (pieces : count = (Builder.pieces op).length) (shown : marker.Shows es) (five : n ≠ 5) (seven : n ≠ 7)
    (sited : b.At ts (operator touches n op ++ view)) : Reads scope (advanceGlued marker count) b fun m' b' =>
      m'.Shows (es ++ [leaf (kind n) op]) ∧ b'.At ts view := by
  have isOperator : kind n = .operator := by rw [kind, if_neg seven, if_neg five]
  rw [pieces]
  rcases operator_cases touches n op with ⟨one, whole⟩ | ⟨first, second, two, rfl, whole⟩
  · rw [whole] at sited
    rw [one]
    exact sited.advance shown
  · rw [whole] at sited
    rw [two, isOperator]
    exact sited.advanceGlued rfl shown

end

end KotlinSyntax.Formula
