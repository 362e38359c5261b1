import Mathlib.Data.List.Chain
import KotlinSyntax.Proofs.Pushdown
import KotlinSyntax.Text.Blank

/-! Tokens and the lines they stand on. Blanks are blank throughout. Any other token, the text of a string apart, shows
something on its first line and on its last one. The text of a string may be blank, but no blank and no comment
stands next to it. -/
namespace KotlinSyntax

namespace Text

/-- Whether nothing but blanks stands in front of the first line feed, or of the end. -/
def blankStart (cs : List Char) : Bool := (cs.takeWhile (· != '\n')).all isLayout

def blankEnd (cs : List Char) : Bool := (cs.reverse.takeWhile (· != '\n')).all isLayout

variable {c : Char} {as bs : List Char}

theorem blankEnd_eq (cs : List Char) : blankEnd cs = blankStart cs.reverse := rfl

theorem blankStart_cons (c : Char) (cs : List Char) :
    blankStart (c :: cs) = (c == '\n' || (isLayout c && blankStart cs)) := by
  by_cases feed : c = '\n'
  · simp [blankStart, feed]
  · simp [blankStart, feed]

theorem blankStart_line (inline : '\n' ∉ as) : blankStart as = as.all isLayout := by
  induction as with
  | nil => rfl
  | cons c as ih =>
    simp only [List.mem_cons, not_or] at inline
    have other : (c == '\n') = false := beq_false_of_ne (Ne.symm inline.1)
    rw [blankStart_cons, other, ih inline.2, Bool.false_or, List.all_cons]

/-- Blanks within a line change nothing. -/
theorem blankStart_inline (blank : as.all isLayout = true) (inline : '\n' ∉ as) :
    blankStart (as ++ bs) = blankStart bs := by
  induction as with
  | nil => rfl
  | cons c as ih =>
    simp only [List.all_cons, Bool.and_eq_true, List.mem_cons, not_or] at blank inline
    have other : (c == '\n') = false := beq_false_of_ne (Ne.symm inline.1)
    rw [List.cons_append, blankStart_cons, other, blank.1, ih blank.2 inline.2, Bool.false_or, Bool.true_and]

/-- Behind blanks that end the line nothing counts. -/
theorem blankStart_lineEnd (blank : as.all isLayout = true) (feed : '\n' ∈ as) : blankStart (as ++ bs) = true := by
  induction as with
  | nil => cases feed
  | cons c as ih =>
    simp only [List.all_cons, Bool.and_eq_true] at blank
    rw [List.cons_append, blankStart_cons]
    rcases List.mem_cons.mp feed with rfl | feed
    · rfl
    · rw [ih blank.2 feed, blank.1, Bool.and_self, Bool.or_true]

theorem blankStart_append (shown : blankStart as = false) (bs : List Char) : blankStart (as ++ bs) = false := by
  induction as with
  | nil => cases shown
  | cons c as ih =>
    rw [blankStart_cons] at shown
    rw [List.cons_append, blankStart_cons]
    simp only [Bool.or_eq_false_iff, Bool.and_eq_false_iff] at shown ⊢
    exact ⟨shown.1, shown.2.imp_right ih⟩

theorem blankEnd_inline (blank : bs.all isLayout = true) (inline : '\n' ∉ bs) :
    blankEnd (as ++ bs) = blankEnd as := by
  rw [blankEnd_eq, List.reverse_append, blankStart_inline (by rwa [List.all_reverse]) (by rwa [List.mem_reverse]),
    ← blankEnd_eq]

theorem blankEnd_lineEnd (blank : bs.all isLayout = true) (feed : '\n' ∈ bs) : blankEnd (as ++ bs) = true := by
  rw [blankEnd_eq, List.reverse_append,
    blankStart_lineEnd (by rwa [List.all_reverse]) (by rwa [List.mem_reverse])]

theorem blankEnd_append (as : List Char) (shown : blankEnd bs = false) : blankEnd (as ++ bs) = false := by
  rw [blankEnd_eq] at shown ⊢
  rw [List.reverse_append]
  exact blankStart_append shown _

structure Shown (cs : List Char) : Prop where
  first : blankStart cs = false
  last : blankEnd cs = false

namespace Shown

/-- A text of one line on which something stands. -/
theorem ofLine (inline : '\n' ∉ as) (some : as.all isLayout = false) : Shown as :=
  ⟨by rw [blankStart_line inline, some],
    by rw [blankEnd_eq, blankStart_line (by rwa [List.mem_reverse]), List.all_reverse, some]⟩

/-- A text that is blank neither at its start nor at its end. -/
theorem ofEnds {d : Char} (first : isLayout c = false) (last : isLayout d = false)
    (ends : (c :: as).getLast? = some d) : Shown (c :: as) := by
  have begins {e : Char} (es : List Char) (shown : isLayout e = false) : blankStart (e :: es) = false := by
    have feed : (e == '\n') = false := beq_false_of_ne (by rintro rfl; cases shown)
    rw [blankStart_cons, feed, shown]
    rfl
  obtain ⟨front, whole⟩ : ∃ front, c :: as = front ++ [d] := List.getLast?_eq_some_iff.mp ends
  refine ⟨begins as first, ?_⟩
  rw [whole, blankEnd_eq, List.reverse_append]
  exact begins _ last

/-- A text without any blank. -/
theorem ofInk (ink : (c :: as).all (!isLayout ·) = true) : Shown (c :: as) := by
  refine .ofLine (fun feed => ?_) ?_
  · have blank := List.all_eq_true.mp ink _ feed
    cases blank
  · simp only [List.all_cons, Bool.and_eq_true, Bool.not_eq_true'] at ink
    rw [List.all_cons, ink.1]
    rfl

theorem append (h : Shown as) (k : Shown bs) : Shown (as ++ bs) :=
  ⟨blankStart_append h.first bs, blankEnd_append as k.last⟩

end Shown

end Text

def Text.isInk (p : Char → Bool) : Bool := [' ', '\t', '\r', '\n', '\x0c'].all (!p ·)

theorem Text.not_isLayout_of {p : Char → Bool} (ink : isInk p = true) {c : Char} (h : p c = true) :
    isLayout c = false := by
  rw [Bool.eq_false_iff]
  intro layout
  have blank : c ∈ [' ', '\t', '\r', '\n', '\x0c'] := by simpa [isLayout, or_assoc] using layout
  have fails := List.all_eq_true.mp ink c blank
  rw [h] at fails
  cases fails

def Cut.Inked {cs : List Char} (k : Cut cs) : Prop := k.taken.all (!Text.isLayout ·) = true

namespace Cut.Inked

variable {c : Char} {cs : List Char}

theorem ofAll {p : Char → Bool} {k : Cut cs} (ink : Text.isInk p = true) (h : k.taken.all p = true) : k.Inked := by
  rw [Inked, List.all_eq_true] at *
  intro c member
  rw [Text.not_isLayout_of ink (h c member)]
  rfl

theorem span {p : Char → Bool} (ink : Text.isInk p = true) (cs : List Char) : (Cut.span p cs).Inked :=
  .ofAll ink List.all_takeWhile

theorem cons {k : Cut cs} (ink : Text.isLayout c = false) (h : k.Inked) : (Cut.cons c k).Inked := by
  rw [Inked, Cut.cons, List.all_cons, ink]
  exact h

theorem append {k : Cut cs} {l : Cut k.rest} (h : k.Inked) (i : l.Inked) : (k.append l).Inked := by
  rw [Inked, Cut.append, List.all_append, Bool.and_eq_true]
  exact ⟨h, i⟩

theorem shown {k : Cut cs} (ink : Text.isLayout c = false) (h : k.Inked) : Text.Shown (c :: k.taken) :=
  .ofInk (cons ink h)

end Cut.Inked

namespace Lexer

open Text

variable {modes : List Mode} {c : Char} {cs : List Char} {kind : TokenKind} {k : Cut cs} {isDigit : Char → Bool}

theorem integerMark_inked (cs : List Char) : (integerMark cs).Inked := by
  unfold integerMark
  split <;> rfl

theorem floatMark_inked (cs : List Char) : (floatMark cs).Inked := by
  unfold floatMark
  split <;> rfl

abbrev isInkedRun (isDigit : Char → Bool) : Bool := isInk fun c => isDigit c || c == '_'

theorem digitRun_inked (ink : isInkedRun isDigit = true) (cs : List Char) : (digitRun isDigit cs).Inked := .span ink cs

theorem digits?_inked (ink : isInkedRun isDigit = true)
    (h : digits? isDigit cs = some k) : k.Inked := by
  unfold digits? at h
  split at h
  · split at h
    · rename_i digit
      cases h
      exact .cons (not_isLayout_of ink (by rw [digit]; rfl)) (digitRun_inked ink _)
    · cases h
  · cases h

theorem decimal_ink : isInkedRun Char.isDigit = true := by decide

theorem basedInteger?_inked {lower upper : Char} (letters : isLayout lower = false ∧ isLayout upper = false)
    (ink : isInkedRun isDigit = true)
    (h : basedInteger? lower upper isDigit cs = some k) : k.Inked := by
  unfold basedInteger? at h
  split at h
  · rename_i x cs
    split at h
    · rename_i letter
      obtain ⟨ds, digits, rfl⟩ := Option.map_eq_some_iff.mp h
      have mark : isLayout x = false := by
        simp only [Bool.or_eq_true, beq_iff_eq] at letter
        rcases letter with rfl | rfl
        · exact letters.1
        · exact letters.2
      exact .cons mark (.append (digits?_inked ink digits) (integerMark_inked _))
    · cases h
  · cases h

theorem signedDigits?_inked (h : signedDigits? cs = some k) : k.Inked := by
  unfold signedDigits? at h
  split at h
  · rename_i s cs
    split at h
    · rename_i sign
      obtain ⟨ds, digits, rfl⟩ := Option.map_eq_some_iff.mp h
      have mark : isLayout s = false :=
        not_isLayout_of (p := fun s => s == '+' || s == '-') (by decide) sign
      exact .cons mark (digits?_inked decimal_ink digits)
    · exact digits?_inked decimal_ink h
  · cases h

theorem exponent?_inked (h : exponent? cs = some k) : k.Inked := by
  unfold exponent? at h
  split at h
  · rename_i e cs
    split at h
    · rename_i letter
      obtain ⟨ds, digits, rfl⟩ := Option.map_eq_some_iff.mp h
      have mark : isLayout e = false :=
        not_isLayout_of (p := fun e => e == 'e' || e == 'E') (by decide) letter
      exact .cons mark (signedDigits?_inked digits)
    · cases h
  · cases h

theorem fraction?_inked (h : fraction? cs = some k) : k.Inked := by
  unfold fraction? at h
  split at h
  · obtain ⟨ds, digits, rfl⟩ := Option.map_eq_some_iff.mp h
    exact .cons (by decide) (digits?_inked decimal_ink digits)
  · cases h

theorem floatPart?_inked (h : floatPart? cs = some k) : k.Inked := by
  unfold floatPart? at h
  split at h
  · rename_i fraction found
    cases h
    refine .append (.append (fraction?_inked found) ?_) (floatMark_inked _)
    cases further : exponent? fraction.rest with
    | none => rfl
    | some e => exact exponent?_inked further
  · split at h
    · rename_i found
      cases h
      exact .append (exponent?_inked found) (floatMark_inked _)
    · split at h <;> cases h
      exact floatMark_inked cs

theorem number?_inked (h : number? c cs = some (kind, k)) : k.Inked := by
  unfold number? at h
  simp only at h
  split at h
  · rename_i found
    cases h
    split at found
    · rcases Option.or_eq_some_iff.mp found with hex | ⟨-, binary⟩
      · exact basedInteger?_inked (by decide) (by decide) hex
      · exact basedInteger?_inked (by decide) (by decide) binary
    · cases found
  · split at h
    · split at h
      · rename_i found
        cases h
        exact .append (digitRun_inked decimal_ink _) (floatPart?_inked found)
      · cases h
        exact .append (digitRun_inked decimal_ink _) (integerMark_inked _)
    · cases h

/-! Texts that end in a mark of their own. -/

theorem blockComment?_last {depth : Nat} (h : blockComment? depth cs = some k) : k.taken.getLast? = some '/' := by
  induction depth, cs using blockComment?.induct with
  | case1 depth cs ih =>
    obtain ⟨inner, found, rfl⟩ := Option.map_eq_some_iff.mp h
    simp [Cut.cons, List.getLast?_cons, ih found]
  | case2 cs =>
    cases h
    rfl
  | case3 depth cs ih =>
    obtain ⟨inner, found, rfl⟩ := Option.map_eq_some_iff.mp h
    simp [Cut.cons, List.getLast?_cons, ih found]
  | case4 depth c cs noOpen noClose noEnd ih =>
    rw [blockComment?] at h
    · obtain ⟨inner, found, rfl⟩ := Option.map_eq_some_iff.mp h
      simp [Cut.cons, List.getLast?_cons, ih found]
    all_goals assumption
  | case5 => cases h

theorem closeChar?_taken (h : closeChar? cs = some k) : k.taken = ['\x27'] := by
  unfold closeChar? at h
  split at h <;> cases h
  rfl

theorem charLiteral?_last (h : charLiteral? cs = some k) : k.taken.getLast? = some '\x27' := by
  rcases Option.or_eq_some_iff.mp h with numbered | ⟨-, h⟩
  · unfold numberedChar? at numbered
    split at numbered
    · simp only [Option.bind_eq_bind, Option.bind_eq_some_iff] at numbered
      obtain ⟨digits, -, close, found, whole⟩ := numbered
      cases whole
      simp [Cut.cons, Cut.append, List.getLast?_cons, closeChar?_taken found]
    · cases numbered
  · rcases Option.or_eq_some_iff.mp h with escaped | ⟨-, plain⟩
    · unfold escapedChar? at escaped
      split at escaped
      · split at escaped
        · obtain ⟨close, found, rfl⟩ := Option.map_eq_some_iff.mp escaped
          simp [Cut.cons, closeChar?_taken found]
        · cases escaped
      · cases escaped
    · unfold plainChar? at plain
      split at plain
      · split at plain
        · obtain ⟨close, found, rfl⟩ := Option.map_eq_some_iff.mp plain
          simp [Cut.cons, closeChar?_taken found]
        · cases plain
      · cases plain

theorem closeName?_taken (h : closeName? cs = some k) : k.taken = ['\x60'] := by
  unfold closeName? at h
  split at h <;> cases h
  rfl

theorem quotedName?_last (h : quotedName? cs = some k) : k.taken.getLast? = some '\x60' := by
  unfold quotedName? at h
  simp only at h
  split at h
  · cases h
  · obtain ⟨close, found, rfl⟩ := Option.map_eq_some_iff.mp h
    simp [Cut.append, closeName?_taken found]

theorem operator?_spelled (h : operator? c cs = some k) : ∃ o ∈ operators, c :: k.taken = o.toList := by
  obtain ⟨o, found, rfl⟩ := Option.map_eq_some_iff.mp h
  have here := List.mem_of_find?_eq_some found
  have starts : o.toList.isPrefixOf (c :: cs) = true := by simpa using List.find?_some found
  refine ⟨o, here, ?_⟩
  have filled : ∀ o ∈ operators, 0 < o.length := by decide
  obtain ⟨last, size⟩ : ∃ last, o.length = last + 1 := ⟨o.length - 1, by have := filled o here; omega⟩
  rw [List.prefix_iff_eq_take.mp (List.isPrefixOf_iff_prefix.mp starts), String.length_toList, size]
  rfl

theorem negatedWord?_inked (h : negatedWord? cs = some k) : k.Inked := by
  unfold negatedWord? at h
  split at h
  · rename_i d cs
    split at h
    · rename_i word
      cases h
      simp only [Bool.and_eq_true, Bool.or_eq_true, beq_iff_eq] at word
      rcases word.1 with rfl | rfl <;> rfl
    · cases h
  · cases h

theorem rawOpen?_inked (h : rawOpen? cs = some k) : k.Inked := by
  unfold rawOpen? at h
  split at h <;> cases h
  rfl

theorem rawClose?_inked (h : rawClose? cs = some k) : k.Inked := by
  unfold rawClose? at h
  split at h
  · split at h <;> cases h
    rfl
  · cases h

theorem escape?_inked (h : escape? cs = some k) : k.Inked := by
  unfold escape? at h
  split at h
  · obtain ⟨digits, found, rfl⟩ := Option.map_eq_some_iff.mp h
    refine .cons (by decide) ?_
    unfold fourHexDigits? at found
    split at found
    · split at found
      · rename_i hex
        cases found
        exact .ofAll (p := isHexDigit) (by decide) hex
      · cases found
    · cases found
  · rename_i d cs _
    split at h
    · rename_i named
      cases h
      have ink := not_isLayout_of (by decide) named
      simp [Cut.Inked, ink]
    · cases h
  · cases h

def Shows (kind : TokenKind) (cs : List Char) : Prop :=
  match kind with
  | .whitespace => cs.all isLayout = true
  | .stringText => True
  | _ => Shown cs

theorem operator?_shows (h : operator? c cs = some k) : Shown (c :: k.taken) := by
  obtain ⟨o, here, spelled⟩ := operator?_spelled h
  have ink : ∀ o ∈ operators, o.toList.all (!isLayout ·) = true := by decide +kernel
  exact .ofInk (by rw [spelled]; exact ink o here)

theorem slash_shows {s : Step cs} (h : slash modes cs = .ok s) : Shows s.kind ('/' :: s.cut.taken) := by
  unfold slash at h
  split at h
  · cases h
    refine .ofLine (fun feed => ?_) rfl
    simp only [List.mem_cons, Cut.cons, lineComment, Cut.span] at feed
    rcases feed with feed | feed | feed
    · cases feed
    · cases feed
    · simpa using List.all_eq_true.mp List.all_takeWhile _ feed
  · split at h
    · rename_i found
      cases h
      exact .ofEnds (by decide) (d := '/') (by decide) (by
        simp [Cut.cons, List.getLast?_cons, blockComment?_last found])
    · cases h
  · split at h
    · rename_i found
      cases h
      exact operator?_shows found
    · cases h

theorem word_shows (starts : isLayout c = false) :
    Shows (wordKind (c :: (Cut.span continuesName cs).taken)) (c :: (Cut.span continuesName cs).taken) := by
  have shown := Cut.Inked.shown starts (.span (p := continuesName) (by decide) cs)
  rcases wordKind_eq (c :: (Cut.span continuesName cs).taken) with kind | kind <;>
  · rw [kind]
    exact shown

theorem startsName_ink (starts : startsName c = true) : isLayout c = false :=
  not_isLayout_of (by decide) starts

theorem plainCode_shows {s : Step cs} (h : plainCode modes c cs = .ok s) : Shows s.kind (c :: s.cut.taken) := by
  unfold plainCode at h
  split at h
  · rename_i starts
    cases h
    exact word_shows (startsName_ink starts)
  · split at h
    · rename_i digit
      split at h
      · rename_i kind k number
        cases h
        have shown := (number?_inked number).shown (not_isLayout_of (by decide) digit)
        rcases number_kind number with rfl | rfl <;> exact shown
      · cases h
    · split at h
      · rename_i found
        cases h
        exact operator?_shows found
      · cases h

theorem code_shows {s : Step cs} (h : Lexer.code modes c cs = .ok s) : Shows s.kind (c :: s.cut.taken) := by
  unfold Lexer.code at h
  split at h
  · rename_i layout
    cases h
    refine List.all_eq_true.mpr fun d member => ?_
    rcases List.mem_cons.mp member with rfl | member
    · exact layout
    · exact List.all_eq_true.mp List.all_takeWhile d member
  · split at h
    · exact slash_shows h
    · cases h
      unfold openString
      split
      · rename_i opened
        exact (rawOpen?_inked opened).shown (by decide)
      · exact .ofInk rfl
    · split at h
      · rename_i found
        cases h
        exact .ofEnds (by decide) (d := '\x27') (by decide) (by simp [List.getLast?_cons, charLiteral?_last found])
      · cases h
    · split at h
      · rename_i found
        cases h
        exact .ofEnds (by decide) (d := '\x60') (by decide) (by simp [List.getLast?_cons, quotedName?_last found])
      · cases h
    · split at h
      · rename_i found
        cases h
        exact (negatedWord?_inked found).shown (by decide)
      · exact plainCode_shows h
    · cases h
      exact .ofInk rfl
    · cases h
      exact .ofInk rfl
    · cases h
      unfold closeBrace
      split <;> exact .ofInk rfl
    · exact plainCode_shows h

theorem stringPart_shows {raw : Bool} {s : Step cs} (h : stringPart raw modes c cs = .ok s) :
    Shows s.kind (c :: s.cut.taken) := by
  unfold stringPart at h
  split at h
  · rename_i template
    simp only [Bool.and_eq_true, beq_iff_eq] at template
    obtain ⟨rfl, -⟩ := template
    split at h <;> cases h <;> exact .ofInk rfl
  · split at h <;> cases h
    trivial

/-- The name of a short template is open only in front of a name. -/
theorem step_shows {s : Step cs} (settled : Settled modes (c :: cs)) (h : step modes c cs = .ok s) :
    Shows s.kind (c :: s.cut.taken) := by
  unfold step at h
  split at h
  · unfold rawString at h
    split at h
    · rename_i closed
      cases h
      split at closed
      · rename_i quote
        obtain rfl : c = '"' := by simpa using quote
        exact (rawClose?_inked closed).shown (by decide)
      · cases closed
    · exact stringPart_shows h
  · unfold plainString at h
    split at h
    · rename_i quote
      obtain rfl : c = '"' := by simpa using quote
      cases h
      exact .ofInk rfl
    · split at h
      · rename_i escape
        obtain rfl : c = '\\' := by simpa using escape
        split at h
        · rename_i found
          cases h
          exact (escape?_inked found).shown (by decide)
        · cases h
      · split at h
        · cases h
        · exact stringPart_shows h
  · cases h
    rcases settled with nameless | ⟨_, d, ds, _, _, next, starts⟩
    · exact absurd rfl (nameless .name (by simp))
    · rw [← (List.cons.inj next).1] at starts
      exact word_shows (startsName_ink starts)
  · exact code_shows h

theorem Lexes.shows {tokens : List Token} (h : Lexes modes cs tokens) (settled : Settled modes cs) :
    ∀ t ∈ tokens, Shows t.kind t.text.toList := by
  induction h with
  | nil => simp
  | @cons modes c cs s ts start stop read tail ih =>
    have whole : c :: s.cut.taken ++ s.cut.rest = c :: cs := by rw [List.cons_append, s.cut.whole]
    intro t member
    rcases List.mem_cons.mp member with rfl | member
    · rw [String.toList_ofList]
      exact step_shows settled read
    · rw [← whole] at settled
      exact ih ((step_moves read).settled settled) t member

theorem tokenize_shows {source : String} {tokens : List Token} (h : tokenize source = .ok tokens) :
    ∀ t ∈ tokens, Shows t.kind t.text.toList :=
  (tokenize_lexes h).shows (.inl (by simp [Nameless]))

end Lexer

/-! What may stand next to each other. -/

def TokenKind.isGap : TokenKind → Bool
  | whitespace | lineComment | blockComment => true
  | _ => false

/-- The text of a string is next to no blank and to no comment. -/
def TokenKind.Meets (k l : TokenKind) : Prop :=
  ¬ (k = .stringText ∧ l.isGap = true) ∧ ¬ (k.isGap = true ∧ l = .stringText)

namespace Token

variable {frames after further : List Frame} {t u : Token}

theorem enter_stringText (text : t.kind = .stringText) (h : t.enter frames = some after) :
    (∃ quote outer, frames = .string quote :: outer) ∧ after = frames := by
  unfold enter at h
  split at h
  · simp only [inString, text] at h
    cases h
    exact ⟨⟨_, _, rfl⟩, rfl⟩
  · simp [text] at h
  · simp [inCode, text] at h

theorem enter_gap (gap : t.kind.isGap = true) (h : t.enter frames = some after) :
    (¬ ∃ quote outer, frames = .string quote :: outer) ∧ after = frames := by
  unfold enter at h
  split at h
  · cases kind : t.kind <;> simp [kind, TokenKind.isGap] at gap <;> simp [inString, kind] at h
  · cases kind : t.kind <;> simp [kind, TokenKind.isGap] at gap <;> simp [kind] at h
  · rename_i noString noName
    have same : t.inCode frames = some frames := by
      cases kind : t.kind <;> simp [kind, TokenKind.isGap] at gap <;> simp [inCode, kind]
    rw [same] at h
    cases h
    exact ⟨fun ⟨quote, outer, opened⟩ => noString quote outer opened, rfl⟩

theorem enter_meets (h : t.enter frames = some after) (k : u.enter after = some further) : t.kind.Meets u.kind := by
  constructor
  · rintro ⟨text, gap⟩
    obtain ⟨inside, rfl⟩ := enter_stringText text h
    exact (enter_gap gap k).1 inside
  · rintro ⟨gap, text⟩
    obtain ⟨outside, rfl⟩ := enter_gap gap h
    exact outside (enter_stringText text k).1

theorem enters_meet {ts : List Token} (h : ts.foldlM enter frames = some after) :
    (ts.map (·.kind)).IsChain TokenKind.Meets := by
  induction ts generalizing frames with
  | nil => exact .nil
  | cons t ts ih =>
    rw [List.foldlM_cons] at h
    obtain ⟨between, first, rest⟩ := Option.bind_eq_some_iff.mp h
    rw [List.map_cons, List.isChain_cons]
    refine ⟨?_, ih rest⟩
    cases ts with
    | nil => simp
    | cons u us =>
      obtain ⟨behind, second, -⟩ := Option.bind_eq_some_iff.mp rest
      rintro _ ⟨⟩
      exact enter_meets first second

end Token

theorem Lexer.tokenize_meets {source : String} {tokens : List Token} (h : tokenize source = .ok tokens) :
    (tokens.map (·.kind)).IsChain TokenKind.Meets := by
  unfold tokenize at h
  split at h
  · cases h
  · rename_i complete
    cases h
    exact Token.enters_meet (scan_checks [] 0 source.toList (.code .top) complete)

end KotlinSyntax
