import KotlinSyntax.Proofs.Lexing
import KotlinSyntax.Proofs.Plan

/-! No name and no literal is spelled like a word or a sign that a plan names: the first character tells them apart,
and a name is no keyword. -/
namespace KotlinSyntax

def TokenKind.isAtom (k : TokenKind) : Bool := [identifier, integerLiteral, floatLiteral, charLiteral].contains k

def Token.isUnreserved (t : Token) : Bool := !t.kind.isAtom || !reserved.contains t.text

theorem Token.isName_of_isUnreserved {t : Token} (h : t.isUnreserved = true) (name : t.kind = .identifier) :
    t.isName = true := by
  simpa [isUnreserved, isName, name, TokenKind.isAtom] using h

theorem Token.isValue_of_isUnreserved {t : Token} (h : t.isUnreserved = true) (atom : t.kind.isAtom = true) :
    t.isValue = true := by
  have free : reserved.contains t.text = false := by simpa [isUnreserved, atom] using h
  simp only [isValue, Bool.or_eq_true, Bool.and_eq_true]
  exact .inl ⟨atom, by rw [free]; rfl⟩

namespace Lexer

/-- How the text of a name, a literal or an escape sequence begins, and all of the text of a semicolon. -/
def Begins (c : Char) (taken : List Char) : TokenKind → Prop
  | .identifier => c = '\x60' ∨ Text.startsName c = true ∧ hardKeywords.contains (String.ofList (c :: taken)) = false
  | .integerLiteral | .floatLiteral => c.isDigit = true
  | .charLiteral => c = '\x27'
  | .escapeSequence => c = '\\'
  | .semicolon => c = ';' ∧ taken = []
  | _ => True

variable {modes : List Mode} {c : Char} {cs taken : List Char} {kind : TokenKind}

theorem begins_word (starts : Text.startsName c = true) : Begins c taken (wordKind (c :: taken)) := by
  unfold wordKind
  split
  · trivial
  · rename_i free
    exact .inr ⟨starts, by simpa using free⟩

theorem plainCode_begins {s : Step cs} (h : plainCode modes c cs = .ok s) : Begins c s.cut.taken s.kind := by
  unfold plainCode at h
  split at h
  · rename_i starts
    cases h
    exact begins_word starts
  · split at h
    · rename_i digit
      split at h
      · rename_i kind k number
        cases h
        rcases number_kind number with rfl | rfl <;> exact digit
      · cases h
    · split at h <;> cases h
      trivial

theorem slash_begins {s : Step cs} (h : slash modes cs = .ok s) : Begins '/' s.cut.taken s.kind := by
  unfold slash at h
  split at h
  · cases h
    trivial
  · split at h <;> cases h
    trivial
  · split at h <;> cases h
    trivial

theorem code_begins {s : Step cs} (h : code modes c cs = .ok s) : Begins c s.cut.taken s.kind := by
  unfold code at h
  split at h
  · cases h
    trivial
  · split at h
    · exact slash_begins h
    · cases h
      unfold openString
      split <;> trivial
    · split at h <;> cases h
      rfl
    · split at h <;> cases h
      exact .inl rfl
    · split at h
      · cases h
        trivial
      · exact plainCode_begins h
    · cases h
      exact ⟨rfl, rfl⟩
    · cases h
      trivial
    · cases h
      unfold closeBrace
      split <;> trivial
    · exact plainCode_begins h

theorem stringPart_begins {raw : Bool} {s : Step cs} (h : stringPart raw modes c cs = .ok s) :
    Begins c s.cut.taken s.kind := by
  unfold stringPart at h
  split at h
  · split at h <;> cases h <;> trivial
  · split at h <;> cases h
    trivial

theorem step_begins {s : Step cs} (settled : Settled modes (c :: cs)) (h : step modes c cs = .ok s) :
    Begins c s.cut.taken s.kind := by
  unfold step at h
  split at h
  · unfold rawString at h
    split at h
    · cases h
      trivial
    · exact stringPart_begins h
  · unfold plainString at h
    split at h
    · cases h
      trivial
    · split at h
      · rename_i backslash
        split at h <;> cases h
        exact beq_iff_eq.mp backslash
      · split at h
        · cases h
        · exact stringPart_begins h
  · cases h
    rcases settled with nameless | ⟨_, d, ds, _, _, next, starts⟩
    · exact absurd rfl (nameless .name (by simp))
    · rw [← (List.cons.inj next).1] at starts
      exact begins_word starts
  · exact code_begins h

/-- A text whose first character passes a test is none of the texts where none of theirs does. -/
theorem not_contains_of_first {texts : List String} {p : Char → Bool} (is : p c = true)
    (none : (texts.filterMap (·.toList.head?)).all (!p ·) = true) :
    texts.contains (String.ofList (c :: taken)) = false := by
  rw [Bool.eq_false_iff]
  intro member
  have first : c ∈ texts.filterMap (·.toList.head?) :=
    List.mem_filterMap.mpr ⟨_, List.contains_iff_mem.mp member, by simp⟩
  have other := List.all_eq_true.mp none c first
  rw [is] at other
  cases other

theorem Begins.isUnreserved (h : Begins c taken kind) (start stop : Nat) :
    Token.isUnreserved ⟨kind, start, stop, String.ofList (c :: taken)⟩ = true := by
  have literal {p : Char → Bool} (is : p c = true)
      (none : (Token.reserved.filterMap (·.toList.head?)).all (!p ·) = true) :
      Token.isUnreserved ⟨kind, start, stop, String.ofList (c :: taken)⟩ = true := by
    simp only [Token.isUnreserved, not_contains_of_first is none, Bool.not_false, Bool.or_true]
  cases kind with
  | identifier =>
    rcases h with rfl | ⟨starts, word⟩
    · exact literal (beq_self_eq_true '\x60') (by decide)
    · have operator : operators.contains (String.ofList (c :: taken)) = false :=
        not_contains_of_first starts (by decide)
      have sign : ["\x7b", "\x7d", "!in", "!is", ""].contains (String.ofList (c :: taken)) = false :=
        not_contains_of_first starts (by decide)
      have free : Token.reserved.contains (String.ofList (c :: taken)) = false := by
        rw [Token.reserved, List.contains_append, List.contains_append, operator, word, sign]
        rfl
      simp only [Token.isUnreserved, free, Bool.not_false, Bool.or_true]
  | integerLiteral => exact literal (p := Char.isDigit) h (by decide)
  | floatLiteral => exact literal (p := Char.isDigit) h (by decide)
  | charLiteral => exact literal (p := (· == '\x27')) (beq_iff_eq.mpr h) (by decide)
  | _ => rfl

/-- Every token begins as its kind does. -/
theorem Lexes.begins {tokens : List Token} (h : Lexes modes cs tokens) (settled : Settled modes cs) :
    ∀ t ∈ tokens, ∃ c taken, t.text = String.ofList (c :: taken) ∧ Begins c taken t.kind := by
  induction h with
  | nil => simp
  | @cons modes c cs s ts start stop read tail ih =>
    have whole : c :: s.cut.taken ++ s.cut.rest = c :: cs := by rw [List.cons_append, s.cut.whole]
    intro t member
    rcases List.mem_cons.mp member with rfl | member
    · exact ⟨c, s.cut.taken, rfl, step_begins settled read⟩
    · rw [← whole] at settled
      exact ih ((step_moves read).settled settled) t member

theorem tokenize_begins {source : String} {tokens : List Token} (h : tokenize source = .ok tokens) :
    ∀ t ∈ tokens, ∃ c taken, t.text = String.ofList (c :: taken) ∧ Begins c taken t.kind :=
  (tokenize_lexes h).begins (.inl (by simp [Nameless]))

theorem tokenize_unreserved {source : String} {tokens : List Token} (h : tokenize source = .ok tokens) :
    ∀ t ∈ tokens, t.isUnreserved = true := by
  rintro ⟨kind, start, stop, text⟩ member
  obtain ⟨c, taken, spelled, begins⟩ := tokenize_begins h _ member
  cases spelled
  exact begins.isUnreserved start stop

/-- No token is empty. -/
theorem tokenize_filled {source : String} {tokens : List Token} (h : tokenize source = .ok tokens) :
    ∀ t ∈ tokens, t.text ≠ "" := by
  intro t member
  obtain ⟨c, taken, spelled, -⟩ := tokenize_begins h t member
  rw [spelled]
  simp

theorem tokenize_escape {source : String} {tokens : List Token} (h : tokenize source = .ok tokens) :
    ∀ t ∈ tokens, t.kind = .escapeSequence → t.text.toList.head? = some '\\' := by
  intro t member kind
  obtain ⟨c, taken, spelled, begins⟩ := tokenize_begins h t member
  rw [kind] at begins
  obtain rfl := begins
  simp [spelled]

theorem tokenize_semicolon {source : String} {tokens : List Token} (h : tokenize source = .ok tokens) :
    ∀ t ∈ tokens, t.kind = .semicolon → t.text = ";" := by
  intro t member kind
  obtain ⟨c, taken, spelled, begins⟩ := tokenize_begins h t member
  rw [kind] at begins
  obtain ⟨rfl, rfl⟩ := begins
  exact spelled

end Lexer

end KotlinSyntax
