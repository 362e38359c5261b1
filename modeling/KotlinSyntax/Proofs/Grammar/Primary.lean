import KotlinSyntax.Grammar.Primary
import KotlinSyntax.Proofs.Grammar.Control

/-! Primary expressions: names, literals, strings and what stands in brackets. -/
namespace KotlinSyntax.Grammar

open Builder RawElement

variable {recur : Recur} {limit : Nat} {scope : Scope} {b₀ b : Builder} {m : Marker} {o : Outline} {t : Token}

/-! Strings. -/

/-- The lexer puts a name behind the sign of a short template. -/
theorem name_of_shortTemplateStart (placed : b.Placed) (seen : b.peek = some t) (kind : t.kind = .shortTemplateStart) :
    ∃ u, b.peek 1 = some u ∧ u.isProper = true ∧ (u.kind = .identifier ∨ u.kind = .keyword) := by
  obtain ⟨gap, next⟩ := placed.next seen
  have named := placed.named
  rw [next.split] at named
  obtain ⟨u, us, after, word⟩ := named.append_right.1 kind
  have significant : u.kind.isTrivia = false := by rcases word with is | is <;> rw [is] <;> rfl
  have second := next.placed.peek_of_left after significant
  exact ⟨u, (behind_peek b _ 0).symm.trans second, proper_of_peek next.placed second, word⟩

theorem shortTemplate_gives (placed : b.Placed) (seen : b.seesKind .shortTemplateStart = true) :
    Ensures scope shortTemplate b (Gives (fun e => e.isOf .shortTemplate = true) b) := by
  obtain ⟨t, seen, kind⟩ := peek_of_seesKind seen
  obtain ⟨u, ahead, proper', word⟩ := name_of_shortTemplateStart placed seen kind
  have plain : Ordinary (.leaf ⟨t, false⟩) := by
    have proper := proper_of_peek placed seen
    have text : t.text = "$" := by simpa [Token.isProper, kind] using proper
    simp [Ordinary, isOrdinary, text, kind, TokenKind.isMark]
  have plain' : Ordinary (.leaf ⟨u, false⟩) := by
    refine ordinary_of_isOperand proper' ?_
    rcases word with is | is <;> rw [is] <;> rfl
  refine .bind ((Holds.plain placed).advanceTwice ⟨t, seen, plain⟩ ahead plain') ?_
  rintro m b₁ ⟨h, less⟩
  exact h.donePlain less rfl (fun _ => rfl)

theorem advanceWithin_took {opening : TokenKind} (placed : b.Placed) (seen : b.peek = some t)
    (kind : t.kind = opening) : Ensures scope (advance .empty) b (Took (Outline.within opening).holds b b) := by
  have start : Holds (fun es => es = []) b .empty b := .start placed rfl
  refine (start.advanceWith (J := (Outline.within opening).holds) seen ?_).mono fun _ _ after => after.1
  rintro _ rfl
  exact ⟨⟨t, false⟩, [], rfl, kind, by simp⟩

theorem longTemplate_gives (serves : Serves recur limit) (placed : b.Placed) (near : 4 * b.remaining ≤ limit)
    (seen : b.seesKind .longTemplateStart = true) :
    Ensures scope (longTemplate recur) b (Gives (fun e => e.isOf .longTemplate = true) b) := by
  obtain ⟨t, seen, kind⟩ := peek_of_seesKind seen
  refine .bind (advanceWithin_took placed seen kind) ?_
  rintro m b₁ ⟨h, less⟩
  refine .bind (.withTrailingLambdas (serves.expression h.placed (by omega))) ?_
  intro e b₂ given
  have := given.lt
  have closed : Ensures scope (expectKind (m.add e) .longTemplateEnd "'\x7d'") b₂
      (Took (Enclosed .longTemplateStart .longTemplateEnd) b b₂) := by
    refine .look (.ite ?_ fun _ => .reject)
    intro closing
    obtain ⟨u, seen', kind'⟩ := peek_of_seesKind closing
    exact ((h.add given).advanceWith seen' fun es opened => Outline.within_close opened kind').mono
      fun _ _ after => after.1
  refine .bind closed ?_
  rintro m b₃ ⟨h, less'⟩
  exact h.done (by omega) (fun _ enclosed => enclosed) (fun _ => rfl)

def Quoted (es : List RawElement) : Prop :=
  (Outline.within .openQuote).holds es ∧ ∀ e ∈ es, e.isOf .errorElement = false

theorem Quoted.append {es : List RawElement} {e : RawElement} (h : Quoted es) (unmarked : e.isMark = false)
    (fine : e.isOf .errorElement = false) : Quoted (es ++ [e]) := by
  refine ⟨Outline.within_append h.1 unmarked, ?_⟩
  intro x member
  rcases List.mem_append.mp member with member | member
  · exact h.2 x member
  · rw [List.mem_singleton.mp member]
    exact fine

theorem Quoted.node {es : List RawElement} {e : RawElement} {kind : RawKind} (h : Quoted es)
    (is : e.isOf kind = true) (other : kind ≠ .errorElement) : Quoted (es ++ [e]) := by
  cases e with
  | leaf => cases is
  | node k role children =>
    refine h.append rfl ?_
    simp only [isOf, beq_iff_eq] at is
    simpa [isOf, is] using other

theorem Quoted.close {es : List RawElement} {t : Token} (h : Quoted es) (closes : t.kind = .closeQuote) :
    Fits .stringTemplate (es ++ [.leaf ⟨t, false⟩]) := by
  refine ⟨Outline.within_close h.1 closes, ?_⟩
  intro x member
  rcases List.mem_append.mp member with member | member
  · exact h.2 x member
  · rw [List.mem_singleton.mp member]
    rfl

theorem stringPart_took (serves : Serves recur limit) (h : Holds Quoted b₀ m b) (near : 4 * b.remaining ≤ limit) :
    Ensures scope (stringPart recur m) b (Took Quoted b₀ b) := by
  refine .look (.ite ?_ ?_)
  · intro short
    refine .bind (shortTemplate_gives h.placed short) ?_
    intro p b' given
    exact .pure ⟨h.addWith given fun es quoted => quoted.node given.holds (by decide), given.lt⟩
  · intro _
    refine .ite ?_ ?_
    · intro long
      refine .bind (longTemplate_gives serves h.placed near long) ?_
      intro p b' given
      exact .pure ⟨h.addWith given fun es quoted => quoted.node given.holds (by decide), given.lt⟩
    · intro _
      refine .ite ?_ fun _ => .reject
      intro text
      have piece : ∃ t, b.peek = some t ∧ t.kind.isMark = false := by
        rcases Bool.or_eq_true_iff.mp text with is | is
        · obtain ⟨t, seen, kind⟩ := peek_of_seesKind is
          exact ⟨t, seen, by rw [kind]; rfl⟩
        · obtain ⟨t, seen, kind⟩ := peek_of_seesKind is
          exact ⟨t, seen, by rw [kind]; rfl⟩
      obtain ⟨t, seen, unmarked⟩ := piece
      exact (h.advanceWith seen fun es quoted => quoted.append unmarked rfl).mono fun _ _ after => after.1

theorem stringTemplate_gives (serves : Serves recur limit) (placed : b.Placed) (near : 4 * b.remaining ≤ limit)
    (seen : b.peek = some t) (kind : t.kind = .openQuote) :
    Ensures scope (stringTemplate recur) b (Gives Ordinary b) := by
  have start : Holds (fun es => es = []) b .empty b := .start placed rfl
  refine .bind (start.advanceWith (J := Quoted) seen ?_) ?_
  · rintro _ rfl
    exact ⟨⟨⟨t, false⟩, [], rfl, kind, by simp⟩, by simp [isOf]⟩
  rintro m b₁ ⟨⟨h, less⟩, _⟩
  refine .bind (h.iterateWhile fun m b' h le _ => stringPart_took serves h (by omega)) ?_
  rintro m b₂ ⟨⟨h, le⟩, closes⟩
  have closing : b₂.seesKind .closeQuote = true := by simpa using closes
  obtain ⟨u, seen', kind'⟩ := peek_of_seesKind closing
  refine .bind (h.advanceWith seen' fun es quoted => quoted.close kind') ?_
  rintro m b₃ ⟨⟨h, less'⟩, _⟩
  exact h.done (by omega) (fun _ fits => fits) (fun _ => rfl)

/-! Names. -/

theorem callableReference_grown (h : Holds Outline.plain.holds b₀ m b) (ahead : Ahead b) :
    Ensures scope (callableReference m) b (Grown b₀ b) := by
  have le := h.le
  refine .bind (h.advance ahead) ?_
  rintro m b₁ ⟨h, less⟩
  refine .look (.ite ?_ ?_)
  · intro seen
    refine .bind (h.advance (ahead_of_sees seen (by decide))) ?_
    rintro m b₂ ⟨h, less'⟩
    exact h.grown (by omega) (by omega) (fun _ unmarked => fits_of_isPlain rfl unmarked) rfl
  · intro _
    refine .bind h.expectName ?_
    rintro m b₂ ⟨h, less'⟩
    exact h.grown (by omega) (by omega) (fun _ unmarked => fits_of_isPlain rfl unmarked) rfl

theorem typeReceiver_gives (serves : Serves recur limit) (placed : b.Placed) (near : 4 * b.remaining ≤ limit) :
    Ensures scope (typeReceiver recur) b fun p b' => Gives Ordinary b p b' ∧ Ahead b' := by
  refine .bind (userType_gives serves placed near false) ?_
  intro type b₁ given
  refine .look (.ite ?_ fun _ => .reject)
  intro colons
  simp only [Bool.and_eq_true] at colons
  exact .pure ⟨given, ahead_of_sees colons.1 (by decide)⟩

theorem nameExpression_gives (serves : Serves recur limit) (placed : b.Placed) (near : 4 * b.remaining ≤ limit)
    (seen : b.peek = some t) (plain : Ordinary (.leaf ⟨t, false⟩)) :
    Ensures scope (nameExpression recur) b (Gives Ordinary b) := by
  refine .look (.ite ?_ ?_)
  · intro _
    refine .bind (.speculate (typeReceiver_gives serves placed near)) ?_
    rintro (_ | type) b₁ given
    · cases given
      exact token_gives placed seen plain
    · exact (callableReference_grown (.plainOf given.1) given.2).mono fun _ _ grown => grown.1
  · intro _
    exact token_gives placed seen plain

/-! Brackets. -/

theorem parenthesized_gives (serves : Serves recur limit) (placed : b.Placed) (near : 4 * b.remaining ≤ limit)
    (ahead : Ahead b) : Ensures scope (parenthesized recur) b (Gives Ordinary b) := by
  refine .withTrailingLambdas (.bind ((Holds.plain placed).advance ahead) ?_)
  rintro m b₁ ⟨h, less⟩
  refine .bind (serves.expression h.placed (by omega)) ?_
  intro e b₂ given
  have := given.lt
  refine .bind ((h.add given).expect (by decide)) ?_
  rintro m b₃ ⟨h, less'⟩
  exact h.donePlain (by omega) rfl (fun _ => rfl)

/-- Parts with commas between them behind those in front. -/
def Listed (front es : List RawElement) : Prop :=
  ∃ inner, es = front ++ inner ∧ (∀ e ∈ es, e.isMark = false) ∧ Spaced (!·.spells ",") inner

def Listing (front es : List RawElement) : Prop :=
  ∃ inner, es = front ++ inner ∧ (∀ e ∈ es, e.isMark = false) ∧ Spaced (!·.spells ",") inner ∧
    ∀ x ∈ inner.getLast?, x.spells "," = true

theorem Listing.listed {front es : List RawElement} (h : Listing front es) : Listed front es := by
  obtain ⟨inner, split, unmarked, spaced, _⟩ := h
  exact ⟨inner, split, unmarked, spaced⟩

theorem Listing.append {front es : List RawElement} {e : RawElement} (h : Listing front es) (plain : Ordinary e) :
    Listed front (es ++ [e]) := by
  obtain ⟨inner, rfl, unmarked, spaced, last⟩ := h
  refine ⟨inner ++ [e], by simp, unmarked_append unmarked (not_isMark_of_isOrdinary plain), chain_append spaced ?_⟩
  intro x ends
  have comma : x.spells "," = true := by
    cases inner with
    | nil =>
      cases ends
      rfl
    | cons y ys => exact last x (by simpa using ends)
  refine ⟨?_, by simp [comma]⟩
  intro is
  rw [not_comma_of_isOrdinary plain] at is
  cases is

theorem Listing.comma {front es : List RawElement} {e : RawElement} (h : Listing front es) (plain : Ordinary e)
    (spelled : t.spells "," = true) : Listing front (es ++ [e] ++ [.leaf ⟨t, false⟩]) := by
  obtain ⟨inner, split, unmarked, spaced⟩ := h.append plain
  have text := Token.text_of_spells spelled
  have word := Token.not_isMark_of_isWord (Token.isWord_of_spells spelled)
  have same : ∃ rest, inner = rest ++ [e] := by
    obtain ⟨rest, before, _⟩ := h
    rw [before, List.append_assoc] at split
    exact ⟨rest, (List.append_cancel_left split).symm⟩
  obtain ⟨rest, rfl⟩ := same
  have spaced' : Spaced (!·.spells ",") (rest ++ [e] ++ [.leaf ⟨t, false⟩]) := by
    refine chain_append spaced ?_
    intro x ends
    have same : x = e := by
      rw [← List.cons_append, List.getLast?_concat] at ends
      exact (Option.some.inj ends).symm
    rw [same]
    exact ⟨fun _ => by simp [not_comma_of_isOrdinary plain], fun _ => by simp [spells, text]⟩
  exact ⟨rest ++ [e] ++ [.leaf ⟨t, false⟩], by rw [split]; simp, unmarked_append unmarked word, spaced',
    by simp [spells, text]⟩

/-- Expressions up to a bracket, behind the parts in front. -/
theorem Holds.expressionsInto {front : List RawElement} {kind : RawKind} (serves : Serves recur limit)
    (h : Holds (fun es => es = front ∧ ∀ e ∈ es, e.isMark = false) b₀ m b) (moved : b.remaining < b₀.remaining)
    (free : 4 * b.remaining + 4 ≤ limit)
    (fits : ∀ es e, Listed front es → e.isMark = false → e.spells "]" = true → Fits kind (es ++ [e]))
    (goal : kind.isItem = false) :
    Ensures scope (do
      let m ← Grammar.commaList m "]" (recur .expression)
      Grammar.done (← Grammar.expect m "]") kind) b (Grown b₀ b) := by
  have start : Holds (Listing front) b₀ m b := by
    refine h.mono ?_
    rintro _ ⟨rfl, unmarked⟩
    exact ⟨[], by simp, unmarked, List.isChain_singleton _, by simp⟩
  refine .bind (start.commaListWith (P := Ordinary) (fun b' placed le => serves.expression placed (by omega))
    (fun es listing => listing.listed) (fun es e listing plain => listing.append plain)
    (fun es e t listing plain spelled => listing.comma plain spelled)) ?_
  rintro m b₁ ⟨⟨h, le⟩, _⟩
  refine .bind (h.expectWith (J := Fits kind) ?_) ?_
  · intro es t listed spelled
    exact fits es _ listed (Token.not_isMark_of_isWord (Token.isWord_of_spells spelled))
      (by simpa [RawElement.spells] using Token.text_of_spells spelled)
  · rintro m b₂ ⟨h, less⟩
    exact h.grown (by omega) (by omega) (fun _ fits => fits) goal

theorem collectionLiteral_gives (serves : Serves recur limit) (placed : b.Placed) (near : 4 * b.remaining ≤ limit)
    (seen : b.peek = some t) (plain : Ordinary (.leaf ⟨t, false⟩)) :
    Ensures scope (collectionLiteral recur) b (Gives Ordinary b) := by
  have start : Holds (fun es => es = []) b .empty b := .start placed rfl
  refine .withTrailingLambdas (.bind (start.advanceWith
    (J := fun es => es = [.leaf ⟨t, false⟩] ∧ ∀ e ∈ es, e.isMark = false) seen ?_) ?_)
  · rintro _ rfl
    exact ⟨rfl, by simpa using not_isMark_of_isOrdinary plain⟩
  · rintro m b₁ ⟨⟨h, less⟩, _⟩
    refine (h.expressionsInto serves less (by omega) ?_ rfl).mono fun _ _ grown => grown.1
    rintro _ e ⟨inner, rfl, unmarked, spaced⟩ mark closing
    exact ⟨unmarked_append unmarked mark, nofun, _, inner, e, rfl, spaced, closing⟩

theorem dotNumber_gives (placed : b.Placed) (ahead : Ahead b) : Ensures scope dotNumber b (Gives Ordinary b) := by
  refine .look (.ite ?_ fun _ => .reject)
  intro number
  simp only [Bool.and_eq_true] at number
  obtain ⟨u, seen, kind⟩ := peek_of_seesKind number.1
  obtain ⟨t, first, plain⟩ := ahead
  obtain ⟨gap, next⟩ := placed.next first
  have proper := proper_of_peek next.placed ((behind_peek b _ 0).trans seen)
  refine .bind ((Holds.plain placed).advanceTwice ⟨t, first, plain⟩ seen
    (ordinary_of_isOperand proper (by rw [kind]; rfl))) ?_
  rintro m b₁ ⟨h, less⟩
  exact h.donePlain less rfl (fun _ => rfl)

theorem bracketExpression_gives (serves : Serves recur limit) (placed : b.Placed) (near : 4 * b.remaining ≤ limit)
    (seen : b.peek = some t) (operator : t.kind = .operator) :
    Ensures scope (bracketExpression recur t.text) b (Gives Ordinary b) := by
  have plain : t.text ≠ "," → Ordinary (.leaf ⟨t, false⟩) := by
    intro noComma
    simp [Ordinary, isOrdinary, noComma, operator, TokenKind.isMark]
  have is : ∀ {text : String}, text ≠ "," → (t.text == text) = true → Ordinary (.leaf ⟨t, false⟩) := by
    intro text noComma same
    refine plain ?_
    rw [beq_iff_eq.mp same]
    exact noComma
  refine .ite ?_ fun _ => .ite ?_ fun _ => .ite ?_ fun _ => .ite ?_ fun _ => .ite ?_ fun _ => .reject
  · intro same
    exact parenthesized_gives serves placed near ⟨t, seen, is (by decide) same⟩
  · intro _
    exact lambda_gives serves placed near
  · intro same
    exact collectionLiteral_gives serves placed near seen (is (by decide) same)
  · intro same
    exact (callableReference_grown (.plain placed) ⟨t, seen, is (by decide) same⟩).mono fun _ _ grown => grown.1
  · intro same
    exact dotNumber_gives placed ⟨t, seen, is (by decide) same⟩

theorem primary_gives (serves : Serves recur limit) (placed : b.Placed) (near : 4 * b.remaining ≤ limit) :
    Ensures scope (primary recur) b (Gives Ordinary b) := by
  refine .look ?_
  split
  · exact .reject
  · rename_i t seen
    have proper := proper_of_peek placed seen
    split
    · rename_i kind
      exact nameExpression_gives serves placed near seen (ordinary_of_isOperand proper (by rw [kind]; rfl))
    · rename_i kind
      exact token_gives placed seen (ordinary_of_isOperand proper (by rw [kind]; rfl))
    · rename_i kind
      exact token_gives placed seen (ordinary_of_isOperand proper (by rw [kind]; rfl))
    · rename_i kind
      exact token_gives placed seen (ordinary_of_isOperand proper (by rw [kind]; rfl))
    · rename_i kind
      exact stringTemplate_gives serves placed near seen kind
    · rename_i kind
      exact keywordExpression_gives serves placed near seen kind
    · rename_i kind
      exact bracketExpression_gives serves placed near seen kind
    · exact .reject

end KotlinSyntax.Grammar
