import Mathlib.Tactic.IntervalCases
import KotlinSyntax.Proofs.Parse.Operator

/-! Formulas are parsed by precedence. The levels of the grammar are layers, each of which reads operands of the next
one and joins them as long as an operator of its own follows. -/
namespace KotlinSyntax.Formula

open Builder Grammar
open Lexer (isIdentifier ne_of_isIdentifier)

/-- What the grammar reads at a level. Casts and prefix operators stand between the factors and the members. -/
def tier : Nat → Grammar Parsed
  | 1 => disjunction Recur.whole
  | 2 => conjunction Recur.whole
  | 3 => equality Recur.whole
  | 4 => comparison Recur.whole
  | 5 => testLevel Recur.whole
  | 6 => elvis Recur.whole
  | 7 => namedLevel Recur.whole
  | 8 => range Recur.whole
  | 9 => additive Recur.whole
  | 10 => multiplicative Recur.whole
  | 11 => castLevel Recur.whole
  | 12 => Recur.whole .unary
  | 13 => postfixChain Recur.whole
  | _ => primary Recur.whole

variable {ts : List Token} {scope : Scope} {b : Builder} {view rest : List Glance} {n : Nat} {op : String}
  {p : Parsed} {e : RawElement} {f right : Formula} {Q : Parsed → Builder → Prop} {spacing : Spacing}

/-- The level reads the formula and leaves what is behind it, however the words are spaced. -/
def Operand (ts : List Token) (scope : Scope) (n : Nat) (f : Formula) (rest : List Glance) : Prop :=
  ∀ b spacing last, b.At ts (f.glances spacing last ++ rest) →
    Reads scope (tier n) b fun p b' => p.Shows f.shape ∧ b'.At ts rest

/-- A level reads an operand of the next one, and then turn by turn what is joined to it. -/
structure Layer (ts : List Token) (scope : Scope) (n : Nat) (step : Parsed → Grammar (Turn Parsed)) : Prop where
  enter : ∀ {b : Builder} {text : String} {touches : Bool} {view : List Glance} {Q : Parsed → Builder → Prop},
    isIdentifier text = true → b.At ts (glance .identifier text touches :: view) →
    Reads scope (tier (n + 1)) b (fun p b' => Loops scope step p b' Q) → Reads scope (tier n) b Q
  stops : ∀ {b : Builder} {view : List Glance} (p : Parsed), b.At ts view → Follows n view →
    Reads scope (step p) b fun turn b' => turn = .stop p ∧ b' = b
  goesOn : ∀ {b : Builder} {p : Parsed} {e : RawElement} {op : String} {right : Formula} {rest : List Glance}
    {touches : Bool} {spacing : Spacing},
    joins n op = true → right.fits = true → n < right.level → Operand ts scope (n + 1) right rest → p.Shows e →
    b.At ts (operator touches n op ++ (right.glances spacing (some op) ++ rest)) →
    Reads scope (step p) b fun turn b' => ∃ q, turn = .again q ∧ b'.At ts rest ∧
      q.Shows (.node (if n = 7 then .infixExpression else .binaryExpression) none [e, leaf (kind n) op, right.shape])

theorem enter_of_loop {step : Parsed → Grammar (Turn Parsed)} (loop : tier n = tier (n + 1) >>= iterate step)
    (h : Reads scope (tier (n + 1)) b fun p b' => Loops scope step p b' Q) : Reads scope (tier n) b Q := by
  rw [loop]
  exact .bind h fun _ _ loops => .iterate loops

theorem level_lt {left right : Formula} (fits : (operation left n op right).fits = true) : n < 14 := by
  simp only [Formula.fits, Bool.and_eq_true] at fits
  by_cases seven : n = 7
  · omega
  · exact List.mem_range.mp (mem_range_of_sign (sign_of_joins fits.1.1.1 seven))

/-- Nothing but a name binds more tightly than the dot. -/
theorem name_of_lt (fits : f.fits = true) (tighter : 13 < f.level) : ∃ text, f = .name text := by
  cases f with
  | name text => exact ⟨text, rfl⟩
  | operation left level op right =>
    have less := level_lt fits
    simp only [Formula.level] at tighter
    omega

theorem pieces_ne_nil (op : String) : pieces op ≠ [] := by
  rcases operator_cases true 0 op with ⟨one, _⟩ | ⟨_, _, two, _⟩
  · simp [one]
  · simp [two]

theorem binary_layer (crosses : Bool) (loop : tier n = binaryLevel (signs n) crosses (tier (n + 1))) (five : n ≠ 5)
    (seven : n ≠ 7) : ∃ step, Layer ts scope n step := by
  refine ⟨_, fun _ _ => enter_of_loop loop, ?_, ?_⟩
  · intro b view p sited follows
    refine .look (.yes ?_ (.pure ⟨rfl, rfl⟩))
    simp [follows.operatorsCount sited]
  · intro b p e op right rest touches spacing joined fits tighter operand shown sited
    have free := free_glances fits spacing (some op) rest
    have sign := sign_of_joins joined seven
    have inside := mem_range_of_sign sign
    have count : b.operatorsCount (signs n) = (pieces op).length := by
      rw [operatorsCount_at sited free, countAt_sign n inside n inside op sign, if_pos rfl]
    refine .look (.no ?_ ?_)
    · simp [count, pieces_ne_nil, sited.semicolonBefore, sited.newlineBefore]
    · refine .bind (advanceGlued_reads count shown five seven sited) ?_
      rintro m b₁ ⟨shown, sited⟩
      refine .bind (operand b₁ spacing _ sited) ?_
      rintro q b₂ ⟨shown', sited⟩
      refine .bind ((shown.add shown').done (by simp)) ?_
      rintro q' b₃ ⟨shown, rfl⟩
      rw [if_neg seven]
      exact .pure ⟨q', rfl, sited, shown⟩

/-! The levels whose operators are words, and the suffixes. -/

theorem operator_front (touches : Bool) (n : Nat) (op : String) (view : List Glance) : ∃ text tail,
    operator touches n op ++ view = glance (kind n) text touches :: tail ∧ (pieces op).head? = some text := by
  rcases operator_cases touches n op with ⟨one, whole⟩ | ⟨first, second, two, _, whole⟩
  · exact ⟨op, view, by rw [whole]; rfl, by rw [one]; rfl⟩
  · exact ⟨first, glance (kind n) second true :: view, by rw [whole]; rfl, by rw [two]; rfl⟩

theorem spells_glance {kind : TokenKind} {text : String} {touches : Bool} {w : String} (other : text ≠ w) :
    (glance kind text touches).token.spells w = false := by
  simp [glance, Token.spells, other]

theorem test_layer (tame : Tame ts) : ∃ step, Layer ts scope 5 step := by
  have never {b : Builder} {view : List Glance} (sited : b.At ts view) : b.seesAny ["is", "!is"] = false := by
    have one := tame.sees sited.above.tokens (w := "is") (by decide) 0
    have two := tame.sees sited.above.tokens (w := "!is") (by decide) 0
    simp [Builder.seesAny, one, two]
  refine ⟨_, fun _ _ => enter_of_loop rfl, ?_, ?_⟩
  · intro b view p sited follows
    have none : b.seesAny ["in", "!in"] = false := by
      rw [sited.seesAny]
      cases follows with
      | nil => rfl
      | @operator m op view touches looser joined free =>
        have other : ∀ m ∈ List.range 5, ∀ op ∈ signs m, ∀ text ∈ (pieces op).head?, text ≠ "in" ∧ text ≠ "!in" := by
          decide +kernel
        obtain ⟨text, tail, whole, head⟩ := operator_front touches m op view
        have is := other m (List.mem_range.mpr looser) op (sign_of_joins joined (by omega)) text head
        rw [whole]
        simp [spells_glance is.1, spells_glance is.2]
    refine .look (.no ?_ (.no ?_ (.no ?_ (.pure ⟨rfl, rfl⟩))))
    · simp [sited.separatedBefore]
    · simp [never sited]
    · simp [none]
  · intro b p e op right rest touches spacing joined fits tighter operand shown sited
    have either : op = "in" ∨ op = "!in" := by simpa [joins, signs] using joined
    have whole : operator touches 5 op = [glance (kind 5) op touches] := by
      rcases either with rfl | rfl <;> rfl
    rw [whole, List.singleton_append] at sited
    have seen : b.seesAny ["in", "!in"] = true := by
      rw [sited.seesAny]
      rcases either with rfl | rfl <;> rfl
    refine .look (.no ?_ (.no ?_ (.yes ?_ ?_)))
    · simp [sited.separatedBefore]
    · simp [never sited]
    · simp [seen]
    · refine .bind (sited.advance shown) ?_
      rintro m b₁ ⟨shown, sited⟩
      refine .bind (operand b₁ spacing _ sited) ?_
      rintro q b₂ ⟨shown', sited⟩
      refine .bind ((shown.add shown').done (by simp)) ?_
      rintro q' b₃ ⟨shown, rfl⟩
      exact .pure ⟨q', rfl, sited, shown⟩

theorem named_layer : ∃ step, Layer ts scope 7 step := by
  refine ⟨_, fun _ _ => enter_of_loop rfl, ?_, ?_⟩
  · intro b view p sited follows
    have none : b.seesName = false := by
      refine (sited.seesKind .identifier 0).trans ?_
      cases follows with
      | nil => rfl
      | @operator m op view touches looser joined free =>
        obtain ⟨text, tail, whole, _⟩ := operator_front touches m op view
        have other : kind m ≠ .identifier := by
          unfold kind
          rw [if_neg (by omega)]
          split <;> simp
        rw [whole]
        simpa [glance] using other
    refine .look (.no ?_ (.pure ⟨rfl, rfl⟩))
    simp [none]
  · intro b p e op right rest touches spacing joined fits tighter operand shown sited
    have whole : operator touches 7 op = [glance (kind 7) op touches] := by
      rw [operator, pieces_of_isIdentifier joined]
    rw [whole, List.singleton_append] at sited
    have seen : b.seesName = true := sited.seesKind .identifier 0
    have node : Reads scope (do done ((← advance (.ofParsed p)).add (← range Recur.whole)) .infixExpression) b fun q b' =>
        q.Shows (.node .infixExpression none [e, leaf (kind 7) op, right.shape]) ∧ b'.At ts rest := by
      refine .bind (sited.advance shown) ?_
      rintro m b₁ ⟨shown, sited⟩
      refine .bind (operand b₁ spacing _ sited) ?_
      rintro q b₂ ⟨shown', sited⟩
      refine ((shown.add shown').done (by simp)).mono ?_
      rintro q' b₃ ⟨shown, rfl⟩
      exact ⟨shown, sited⟩
    refine .look (.yes ?_ (.bind node ?_))
    · simp [seen, sited.separatedBefore]
    · rintro q b₁ ⟨shown, sited⟩
      exact .pure ⟨q, rfl, sited, shown⟩

theorem cast_layer (tame : Tame ts) : ∃ step, Layer ts scope 11 step := by
  refine ⟨_, fun _ _ => enter_of_loop rfl, ?_, ?_⟩
  · intro b view p sited follows
    have none : b.operatorsCount ["as?", "as"] = 0 := by
      have never := tame.sees sited.above.tokens (w := "as") (by decide) 0
      simp [Builder.operatorsCount, Builder.operatorCount, pieces, never]
    refine .look (.yes ?_ (.pure ⟨rfl, rfl⟩))
    simp [none]
  · intro b p e op right rest touches spacing joined
    cases joined

theorem unary_layer (tame : Tame ts) : ∃ step, Layer ts scope 12 step := by
  refine ⟨fun p => pure (.stop p), ?_, fun _ _ _ => .pure ⟨rfl, rfl⟩, ?_⟩
  · intro b text touches view Q is sited h
    have none : b.seesAny Keyword.prefixOperators = false := by
      have other : ∀ w ∈ Keyword.prefixOperators, isIdentifier w = false := by decide +kernel
      rw [sited.seesAny, List.any_eq_false]
      intro w member
      simpa using spells_glance (ne_of_isIdentifier is (other w member))
    refine .whole sited.placed trivial (.look (.no ?_ (.no ?_ (.no ?_ ?_))))
    · simp [none]
    · simp [tame.sees sited.above.tokens (w := "@") (by decide)]
    · simp [tame.sees sited.above.tokens (w := "@") (by decide)]
    · exact h.mono fun p b' loops => loops.of_stop
  · intro b p e op right rest touches spacing joined
    cases joined

theorem suffix_layer (tame : Tame ts) : ∃ step, Layer ts scope 13 step := by
  have never {b : Builder} (tokens : b.tokens.toList = ts) (w : String) (inside : w ∈ foreign) (n : Int) :
      b.sees w n = false := tame.sees tokens inside n
  have call {b : Builder} {view : List Glance} (sited : b.At ts view) (p : Parsed) :
      Reads scope (callTurn Recur.whole p) b fun turn b' => turn = .stop p ∧ b' = b := by
    refine .bind (callSuffix_reads tame sited) ?_
    rintro _ b ⟨rfl, rfl⟩
    exact .pure ⟨rfl, rfl⟩
  refine ⟨_, fun _ _ => enter_of_loop rfl, ?_, ?_⟩
  · intro b view p sited follows
    have sees := never sited.above.tokens
    have none : b.operatorsCount ["?.", "."] = 0 := follows.operatorsCount sited
    have suffix : Reads scope (postfixTurn Recur.whole p) b fun turn b' => turn = .stop p ∧ b' = b := by
      refine .look (.no ?_ (.no ?_ (.no ?_ (.no ?_ (call sited p)))))
      · simp [Builder.seesAny, Keyword.postfixOperators, sees "++" (by decide), sees "--" (by decide), sees "!!" (by decide)]
      · simp [sees "[" (by decide)]
      · simp [sees "::" (by decide)]
      · simp [sees "::" (by decide)]
    refine .look (.no ?_ (.no ?_ (.no ?_ suffix)))
    · simp [sited.semicolonBefore]
    · simp [none]
    · simp [sited.newlineBefore]
  · intro b p e op right rest touches spacing joined fits tighter _ shown sited
    obtain ⟨text, rfl⟩ := name_of_lt fits tighter
    have free := free_glances fits spacing (some op) rest
    have sign : op ∈ signs 13 := sign_of_joins joined (by decide)
    have count : b.operatorsCount ["?.", "."] = (pieces op).length := by
      refine (operatorsCount_at sited free 13).trans ?_
      exact countAt_sign 13 (by decide) 13 (by decide) op sign
    have member {b : Builder} (sited : b.At ts ((name text).glances spacing (some op) ++ rest)) :
        Reads scope (memberSelector Recur.whole) b fun q b' => q.Shows (leaf .identifier text) ∧ b'.At ts rest := by
      have seen : b.seesName = true := sited.seesKind .identifier 0
      refine .bind (.look (.yes seen sited.token)) ?_
      rintro q b₁ ⟨shown, sited⟩
      refine .iterate (.stop ?_ ⟨shown, sited⟩)
      refine .look (.no ?_ (call sited q))
      simp [sited.semicolonBefore]
    refine .look (.no ?_ (.yes ?_ ?_))
    · simp [sited.semicolonBefore]
    · have some := pieces_ne_nil op
      rw [count]
      exact List.length_pos_iff.mpr some
    · refine .bind (advanceGlued_reads count shown (by decide) (by decide) sited) ?_
      rintro m b₁ ⟨shown, sited⟩
      refine .bind (member sited) ?_
      rintro q b₂ ⟨shown', sited⟩
      refine .bind ((shown.add shown').done (by simp)) ?_
      rintro q' b₃ ⟨shown, rfl⟩
      exact .pure ⟨q', rfl, sited, shown⟩

/-! All levels together. -/

theorem layer (tame : Tame ts) (one : 1 ≤ n) (le : n ≤ 13) : ∃ step, Layer ts scope n step := by
  interval_cases n
  · exact binary_layer true rfl (by decide) (by decide)
  · exact binary_layer true rfl (by decide) (by decide)
  · exact binary_layer false rfl (by decide) (by decide)
  · exact binary_layer false rfl (by decide) (by decide)
  · exact test_layer tame
  · exact binary_layer true rfl (by decide) (by decide)
  · exact named_layer
  · exact binary_layer false rfl (by decide) (by decide)
  · exact binary_layer false rfl (by decide) (by decide)
  · exact binary_layer false rfl (by decide) (by decide)
  · exact cast_layer tame
  · exact unary_layer tame
  · exact suffix_layer tame

def Operands (ts : List Token) (scope : Scope) (n : Nat) (f : Formula) : Prop :=
  ∀ rest, Follows n rest → Operand ts scope n f rest

/-- Behind the formula the level goes on with its turns, since an operator of its own may follow. -/
def Chain (ts : List Token) (scope : Scope) (n : Nat) (step : Parsed → Grammar (Turn Parsed)) (f : Formula) : Prop :=
  ∀ rest b spacing last Q, Follows (n + 1) rest → b.At ts (f.glances spacing last ++ rest) →
    (∀ p b', p.Shows f.shape → b'.At ts rest → Loops scope step p b' Q) → Reads scope (tier n) b Q

theorem Chain.operands {step : Parsed → Grammar (Turn Parsed)} (layer : Layer ts scope n step)
    (h : Chain ts scope n step f) : Operands ts scope n f := by
  intro rest follows b spacing last sited
  apply h rest b spacing last _ (follows.mono (Nat.le_succ n)) sited
  intro p b' shown sited
  exact .stop (layer.stops p sited follows) ⟨shown, sited⟩

theorem Operands.chain {step : Parsed → Grammar (Turn Parsed)} (layer : Layer ts scope n step) (fits : f.fits = true)
    (h : Operands ts scope (n + 1) f) : Chain ts scope n step f := by
  intro rest b spacing last Q follows sited loops
  obtain ⟨text, tail, is, _, front⟩ := glances_front fits spacing last rest
  have front' := sited
  rw [front] at front'
  apply layer.enter is front'
  refine (h rest follows b spacing last sited).mono ?_
  rintro p b' ⟨shown, sited⟩
  exact loops p b' shown sited

/-- What a level reads, all levels above it read. -/
theorem Operands.descend (tame : Tame ts) (fits : f.fits = true) (top : Operands ts scope f.level f)
    (bound : f.level ≤ 14) (one : 1 ≤ n) (le : n ≤ f.level) : Operands ts scope n f := by
  induction steps : f.level - n generalizing n with
  | zero =>
    obtain rfl : n = f.level := by omega
    exact top
  | succ k ih =>
    obtain ⟨step, layer⟩ : ∃ step, Layer ts scope n step := layer tame one (by omega)
    exact ((ih (by omega) (by omega) (by omega)).chain layer fits).operands layer

/-- An operator joins what its level has read so far to an operand of the next one. -/
theorem chain_operation {step : Parsed → Grammar (Turn Parsed)} {left : Formula} (layer : Layer ts scope n step)
    (joined : joins n op = true) (fits : right.fits = true) (tighter : n < right.level)
    (chain : Chain ts scope n step left) (operands : Operands ts scope (n + 1) right) :
    Chain ts scope n step (operation left n op right) := by
  intro rest b spacing last Q follows sited loops
  rw [glances, List.append_assoc, List.append_assoc] at sited
  apply chain _ b spacing last Q (.operator _ (Nat.lt_succ_self n) joined (free_glances fits _ _ rest)) sited
  intro p b₁ shown sited
  refine .turn ((layer.goesOn joined fits tighter (operands rest follows) shown sited).mono ?_)
  rintro _ b₂ ⟨q, rfl, sited', shown⟩
  refine ⟨?_, loops q b₂ shown sited'⟩
  have some : 0 < (operator (spacing (some left.lastWord) op) n op).length := by
    rcases operator_cases (spacing (some left.lastWord) op) n op with ⟨_, whole⟩ | ⟨_, _, _, _, whole⟩ <;> simp [whole]
  rw [sited'.remaining, sited.remaining, List.length_append, List.length_append]
  omega

/-- Every level reads the formulas of its own level and of the tighter ones. -/
theorem parses (tame : Tame ts) (f : Formula) (fits : f.fits = true) (bound : 1 ≤ f.level) :
    (∀ n, 1 ≤ n → n ≤ f.level → Operands ts scope n f) ∧
      ∀ n step, 1 ≤ n → n ≤ f.level → n ≤ 13 → Layer ts scope n step → Chain ts scope n step f := by
  induction f with
  | name text =>
    have top : Operands ts scope 14 (name text) := fun rest _ b spacing last sited => nameExpression_reads tame sited
    have all (n : Nat) (one : 1 ≤ n) (le : n ≤ 14) : Operands ts scope n (name text) :=
      top.descend tame fits (Nat.le_refl 14) one le
    exact ⟨all, fun n step one _ le layer => (all (n + 1) (by omega) (by omega)).chain layer fits⟩
  | operation left level op right ihl ihr =>
    have less := level_lt fits
    have one : 1 ≤ level := bound
    have parts := fits
    simp only [Formula.fits, Bool.and_eq_true, if_neg (Nat.ne_of_gt one), decide_eq_true_eq] at parts
    obtain ⟨⟨⟨joined, fits₁⟩, fits₂⟩, le, tighter⟩ := parts
    have here (step : Parsed → Grammar (Turn Parsed)) (layer : Layer ts scope level step) :
        Chain ts scope level step (operation left level op right) := by
      apply chain_operation layer joined fits₂ tighter
      · exact (ihl fits₁ (by omega)).2 level step one le (by omega) layer
      · exact (ihr fits₂ (by omega)).1 (level + 1) (by omega) (by omega)
    have all (n : Nat) (low : 1 ≤ n) (high : n ≤ level) : Operands ts scope n (operation left level op right) := by
      obtain ⟨step, layer⟩ : ∃ step, Layer ts scope level step := layer tame one (by omega)
      exact ((here step layer).operands layer).descend tame fits (by simp only [Formula.level]; omega) low high
    refine ⟨all, fun n step low high le layer => ?_⟩
    rcases Nat.lt_or_eq_of_le high with lower | same
    · exact (all (n + 1) (by omega) lower).chain layer fits
    · obtain rfl : n = level := same
      exact here step layer

/-- A formula that is no assignment ends the expression. -/
theorem expression_of_operand (tame : Tame ts) (fits : f.fits = true) (bound : 1 ≤ f.level) {last : Option String}
    (sited : b.At ts (f.glances spacing last)) :
    Reads scope (body Recur.whole .expression) b fun p b' => p.Shows f.shape ∧ b'.At ts [] := by
  have operand : Operand ts scope 1 f [] := (parses tame f fits bound).1 1 (Nat.le_refl 1) bound [] .nil
  rw [← List.append_nil (f.glances spacing last)] at sited
  refine .bind (operand b spacing last sited) ?_
  rintro p b₁ ⟨shown, sited⟩
  refine .look (.yes ?_ (.pure ⟨shown, sited⟩))
  simp [sited.operatorsCount_nil]

/-- Assignments nest to the right. -/
theorem expression_reads (tame : Tame ts) (f : Formula) (fits : f.fits = true) (last : Option String)
    (sited : b.At ts (f.glances spacing last)) :
    Reads scope (body Recur.whole .expression) b fun p b' => p.Shows f.shape ∧ b'.At ts [] := by
  induction f generalizing b last with
  | name text => exact expression_of_operand tame fits (Nat.le_add_left 1 13) sited
  | operation left level op right _ ihr =>
    by_cases bound : 1 ≤ level
    · exact expression_of_operand tame fits bound sited
    obtain rfl : level = 0 := by omega
    simp only [Formula.fits, Bool.and_eq_true, if_true, decide_eq_true_eq] at fits
    obtain ⟨⟨⟨joined, fits₁⟩, fits₂⟩, above⟩ := fits
    have free : Free (right.glances spacing (some op)) := by simpa using free_glances fits₂ spacing (some op) []
    have sign := sign_of_joins joined (by decide)
    rw [glances, List.append_assoc] at sited
    have operand : Operands ts scope 1 left := (parses tame left fits₁ above).1 1 (Nat.le_refl 1) above
    refine .bind (operand _ (.operator _ Nat.one_pos joined free) b spacing last sited) ?_
    rintro p b₁ ⟨shown, sited⟩
    have count : b₁.operatorsCount ["=", "+=", "-=", "*=", "/=", "%="] = (pieces op).length := by
      refine (operatorsCount_at sited free 0).trans ?_
      exact countAt_sign 0 (by decide) 0 (by decide) op sign
    refine .look (.no ?_ ?_)
    · simp [count, pieces_ne_nil, sited.separatedBefore]
    · refine .bind (advanceGlued_reads count shown (by decide) (by decide) sited) ?_
      rintro m b₂ ⟨shown, sited⟩
      refine .bind (.whole sited.placed trivial (ihr fits₂ (some op) sited)) ?_
      rintro q b₃ ⟨shown', sited⟩
      refine ((shown.add shown').done (by simp)).mono ?_
      rintro q' b₄ ⟨shown, rfl⟩
      exact ⟨shown, sited⟩

/-- A formula is parsed by precedence wherever its words stand apart: every word is taken, nothing is wrong, and beside
trivia the tree is that of the formula. -/
theorem parses_spelled (f : Formula) (fits : f.fits = true) (clear : spacing.Clear f.words) : ∃ tokens p s,
    Lexer.tokenize (f.spelled spacing) = .ok tokens ∧ run (apply .expression) tokens = .ok p s ∧ s.faults = [] ∧
      s.builder.atEnd = true ∧ p.Shows f.shape := by
  obtain ⟨tokens, lexed, sited⟩ := tokenize_spelled fits clear
  have tame := tame_of_fits fits sited.view
  have reads : Reads {} (apply .expression) (.ofTokens tokens) fun p b' => p.Shows f.shape ∧ b'.At tokens [] :=
    .apply sited.placed trivial (expression_reads tame f fits none sited)
  obtain ⟨p, s, ran, sound, shown, ended⟩ := reads.run
  exact ⟨tokens, p, s, lexed, ran, sound, by rw [ended.atEnd]; rfl, shown⟩

/-- A formula that is written with blanks between its words is parsed by precedence: every word is taken, nothing is
wrong, and beside trivia the tree is that of the formula. -/
theorem expression_parses_formula (f : Formula) (fits : f.fits = true) : ∃ tokens p s,
    Lexer.tokenize f.text = .ok tokens ∧ run (apply .expression) tokens = .ok p s ∧ s.faults = [] ∧
      s.builder.atEnd = true ∧ p.element.bare = f.shape := by
  obtain ⟨tokens, p, s, lexed, ran, sound, ended, shown⟩ := parses_spelled f fits (clear_blanks f.words)
  rw [spelled_blanks] at lexed
  exact ⟨tokens, p, s, lexed, ran, sound, ended, shown.element_bare⟩

def ladder : Formula :=
  let members := operation (operation (name "b") 13 "?." (name "c")) 13 "." (name "d")
  let sums := operation (operation (operation members 10 "*" (name "e")) 9 "+" (name "f")) 9 "-" (name "g")
  let named := operation (operation sums 8 "..<" (name "h")) 7 "to" (name "`in`")
  let tests := operation (operation (operation named 6 "?:" (name "j")) 5 "!in" (name "k")) 4 ">=" (name "l")
  operation (name "a") 0 "+=" (operation (name "i") 1 "||" (operation (operation tests 3 "!==" (name "m")) 2 "&&" (name "n")))

theorem expression_parses_ladder :
    ladder.text = "a += i || b ?. c . d * e + f - g ..< h to `in` ?: j !in k >= l !== m && n" ∧
      ∃ tokens p s, Lexer.tokenize ladder.text = .ok tokens ∧ run (apply .expression) tokens = .ok p s ∧ s.faults = [] ∧
        s.builder.atEnd = true ∧ p.element.bare = ladder.shape :=
  ⟨by decide +kernel, expression_parses_formula ladder (by decide +kernel)⟩

end KotlinSyntax.Formula
