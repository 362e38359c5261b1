import KotlinSyntax.Token.Lexer

/-! What the tokens of a text have in common. Their texts join to the source, a name follows each short
template, and quotes and templates close what they opened last. -/
namespace KotlinSyntax

def TokenKind.isMark : TokenKind → Bool
  | openQuote | closeQuote | longTemplateStart | longTemplateEnd => true
  | _ => false

def quoteText (raw : Bool) : String := if raw then "\"\"\"" else "\""

inductive Mark
  | quote (text : String)
  | template
  deriving DecidableEq, Repr

namespace Token

/-- What is open behind the token, if it closes only what was opened last. -/
def nest (marks : List Mark) (t : Token) : Option (List Mark) :=
  match t.kind, marks with
  | .openQuote, marks => some (.quote t.text :: marks)
  | .closeQuote, .quote text :: outer => if text = t.text then some outer else none
  | .longTemplateStart, marks => some (.template :: marks)
  | .longTemplateEnd, .template :: outer => some outer
  | .closeQuote, _ | .longTemplateEnd, _ => none
  | _, marks => some marks

def nestAll (marks : List Mark) : List Token → Option (List Mark)
  | [] => some marks
  | t :: ts => (t.nest marks).bind fun marks => nestAll marks ts

theorem nestAll_append (marks : List Mark) (ts us : List Token) :
    nestAll marks (ts ++ us) = (nestAll marks ts).bind fun marks => nestAll marks us := by
  induction ts generalizing marks with
  | nil => rfl
  | cons t ts ih =>
    simp only [List.cons_append, nestAll, Option.bind_assoc]
    congr 1
    funext marks
    exact ih marks

theorem nest_of_not_isMark {t : Token} (h : t.kind.isMark = false) (marks : List Mark) :
    t.nest marks = some marks := by
  unfold nest
  split <;> simp_all [TokenKind.isMark]

/-- What the grammar relies on: marks are spelled in one way each, and no word or literal is a sign that the
grammar looks for. -/
def isProper (t : Token) : Bool :=
  match t.kind with
  | .openQuote | .closeQuote => t.text == quoteText true || t.text == quoteText false
  | .shortTemplateStart => t.text == "$"
  | .longTemplateStart => t.text == "$\x7b"
  | .longTemplateEnd => t.text == "\x7d"
  | .identifier | .keyword | .integerLiteral | .floatLiteral | .charLiteral =>
    t.text != "," && t.text != "\x7b" && t.text != "@"
  | _ => true

/-- A name follows the sign of a short template at once. -/
def Named : List Token → Prop
  | [] => True
  | t :: ts =>
    (t.kind = .shortTemplateStart → ∃ u us, ts = u :: us ∧ (u.kind = .identifier ∨ u.kind = .keyword)) ∧
      Named ts

theorem Named.append_right {ts us : List Token} (h : Named (ts ++ us)) : Named us := by
  induction ts with
  | nil => exact h
  | cons t ts ih => exact ih h.2

end Token

def Lexing.behind (tokens : List Token) (l : Lexing) : Lexing := ⟨tokens ++ l.tokens, l.failure⟩

theorem Lexing.behind_append (ts us : List Token) (l : Lexing) : (l.behind us).behind ts = l.behind (ts ++ us) := by
  rw [behind, behind, behind, List.append_assoc]

namespace Lexer

/-- One token of a text, and then the rest of it. -/
theorem scan_step {modes : List Mode} {c : Char} {taken rest : List Char} {s : Step (taken ++ rest)} (offset : Nat)
    (read : step modes c (taken ++ rest) = .ok s) (takes : s.cut.taken = taken) :
    scan modes offset (c :: (taken ++ rest)) =
      (scan s.modes (offset + Text.width (c :: taken)) rest).behind
        [⟨s.kind, offset, offset + Text.width (c :: taken), String.ofList (c :: taken)⟩] := by
  have whole := s.cut.whole
  rw [takes] at whole
  have left : s.cut.rest = rest := List.append_cancel_left whole
  rw [scan, read]
  simp only [takes, left]
  rfl

inductive Lexes : List Mode → List Char → List Token → Prop
  | nil : Lexes [] [] []
  | cons {modes : List Mode} {c : Char} {cs : List Char} {s : Step cs} {ts : List Token} (start stop : Nat)
      (read : step modes c cs = .ok s) (tail : Lexes s.modes s.cut.rest ts) :
      Lexes modes (c :: cs) (⟨s.kind, start, stop, String.ofList (c :: s.cut.taken)⟩ :: ts)

theorem scan_lexes (modes : List Mode) (offset : Nat) (cs : List Char)
    (complete : (scan modes offset cs).failure = none) :
    Lexes modes cs (scan modes offset cs).tokens := by
  induction modes, offset, cs using scan.induct with
  | case1 modes offset =>
    rw [scan] at complete ⊢
    have closed : modes = [] := by simpa using complete
    subst closed
    exact .nil
  | case2 modes offset c cs cause failed =>
    rw [scan, failed] at complete
    cases complete
  | case3 modes offset c cs s read text stop ih =>
    rw [scan, read] at complete ⊢
    exact .cons offset stop read (ih complete)

theorem tokenize_lexes {source : String} {tokens : List Token} (h : tokenize source = .ok tokens) :
    Lexes [] source.toList tokens := by
  unfold tokenize at h
  split at h
  · cases h
  · rename_i complete
    cases h
    exact scan_lexes [] 0 source.toList complete

/-- No character is lost between two tokens. -/
theorem Lexes.text {modes : List Mode} {cs : List Char} {tokens : List Token} (h : Lexes modes cs tokens) :
    String.join (tokens.map (·.text)) = String.ofList cs := by
  induction h with
  | nil => rfl
  | @cons modes c cs s ts start stop read tail ih =>
    rw [List.map_cons, String.join_cons, ih, ← String.ofList_append, List.cons_append, s.cut.whole]

theorem tokenize_text {source : String} {tokens : List Token} (h : tokenize source = .ok tokens) :
    String.join (tokens.map (·.text)) = source := by
  rw [(tokenize_lexes h).text, String.ofList_toList]

/-- The marks of the modes; the name of a short template is none. -/
def Mode.mark? : Mode → Option Mark
  | quoted raw => some (.quote (quoteText raw))
  | template _ => some .template
  | name => none

def marks (modes : List Mode) : List Mark := modes.filterMap Mode.mark?

def Nameless (modes : List Mode) : Prop := ∀ m ∈ modes, m ≠ .name

/-- The signs that the grammar looks for and that begin no word and no literal. -/
def isSign (c : Char) : Bool := c == ',' || c == '{' || c == '@'

/-- What one step does to the modes, with the text of its token and the text that is left. -/
inductive Move (modes : List Mode) (c : Char) (taken rest : List Char) : TokenKind → List Mode → Prop
  | openQuote (noName : ∀ outer, modes ≠ .name :: outer) (raw : Bool)
      (text : String.ofList (c :: taken) = quoteText raw) :
      Move modes c taken rest .openQuote (.quoted raw :: modes)
  | closeQuote (raw : Bool) (outer : List Mode) (opened : modes = .quoted raw :: outer)
      (text : String.ofList (c :: taken) = quoteText raw) : Move modes c taken rest .closeQuote outer
  | longStart (noName : ∀ outer, modes ≠ .name :: outer) (text : String.ofList (c :: taken) = "$\x7b") :
      Move modes c taken rest .longTemplateStart (.template 0 :: modes)
  | longEnd (outer : List Mode) (opened : modes = .template 0 :: outer)
      (text : String.ofList (c :: taken) = "\x7d") : Move modes c taken rest .longTemplateEnd outer
  | shortStart (noName : ∀ outer, modes ≠ .name :: outer) (text : String.ofList (c :: taken) = "$")
      (d : Char) (ds : List Char) (next : rest = d :: ds) (name : Text.startsName d = true) :
      Move modes c taken rest .shortTemplateStart (.name :: modes)
  | shortName (outer : List Mode) (opened : modes = .name :: outer) (kind : TokenKind)
      (word : kind = .keyword ∨ kind = .identifier) : Move modes c taken rest kind outer
  | other (noName : ∀ outer, modes ≠ .name :: outer) (kind : TokenKind) (after : List Mode)
      (noMark : kind.isMark = false) (noStart : kind ≠ .shortTemplateStart)
      (same : marks after = marks modes) (nameless : Nameless modes → Nameless after)
      (proper : isSign c = true → kind = .operator ∨ kind = .stringText) : Move modes c taken rest kind after

theorem wordKind_eq (word : List Char) : wordKind word = .keyword ∨ wordKind word = .identifier := by
  unfold wordKind
  split
  · exact .inl rfl
  · exact .inr rfl

theorem marks_openBrace (modes : List Mode) : marks (openBrace modes) = marks modes := by
  unfold openBrace
  split <;> rfl

theorem nameless_openBrace {modes : List Mode} (h : Nameless modes) : Nameless (openBrace modes) := by
  unfold openBrace
  split
  · rename_i n outer
    simpa [Nameless] using h
  · exact h

variable {modes : List Mode} {c : Char} {cs : List Char}

/-- A test that no sign passes. -/
theorem not_isSign_of {test : Char → Bool} (h : test c = true)
    (none : (test ',' || test '{' || test '@') = false) : ¬ isSign c = true := by
  intro sign
  simp only [isSign, Bool.or_eq_true, beq_iff_eq] at sign
  simp only [Bool.or_eq_false_iff] at none
  rcases sign with (rfl | rfl) | rfl
  · exact absurd (h.symm.trans none.1.1) (by decide)
  · exact absurd (h.symm.trans none.1.2) (by decide)
  · exact absurd (h.symm.trans none.2) (by decide)

/-- A step that opens and closes nothing and leaves the modes alone. -/
theorem Move.keep {kind : TokenKind} {taken rest : List Char} (noName : ∀ outer, modes ≠ .name :: outer)
    (noMark : kind.isMark = false) (noStart : kind ≠ .shortTemplateStart)
    (proper : isSign c = true → kind = .operator ∨ kind = .stringText) :
    Move modes c taken rest kind modes :=
  .other noName kind modes noMark noStart rfl id proper

theorem slash_moves {s : Step cs} (noName : ∀ outer, modes ≠ .name :: outer) (h : slash modes cs = .ok s) :
    Move modes '/' s.cut.taken s.cut.rest s.kind s.modes := by
  unfold slash at h
  split at h
  · cases h
    exact .keep noName rfl (by simp) (by simp [isSign])
  · split at h
    · cases h
      exact .keep noName rfl (by simp) (by simp [isSign])
    · cases h
  · split at h
    · cases h
      exact .keep noName rfl (by simp) (by simp [isSign])
    · cases h

theorem openString_moves (noName : ∀ outer, modes ≠ .name :: outer) (cs : List Char) :
    Move modes '"' (openString modes cs).cut.taken (openString modes cs).cut.rest (openString modes cs).kind
      (openString modes cs).modes := by
  unfold openString
  split
  · rename_i k opened
    refine .openQuote noName true ?_
    unfold rawOpen? at opened
    split at opened <;> cases opened
    rfl
  · exact .openQuote noName false rfl

theorem number_kind {kind : TokenKind} {k : Cut cs} (h : number? c cs = some (kind, k)) :
    kind = .integerLiteral ∨ kind = .floatLiteral := by
  unfold number? at h
  simp only at h
  generalize (if (c == '0') = true then _ else _) = based at h
  cases based with
  | some k =>
    cases h
    exact .inl rfl
  | none =>
    simp only at h
    split at h
    · split at h <;> cases h
      · exact .inr rfl
      · exact .inl rfl
    · cases h

theorem plainCode_moves {s : Step cs} (noName : ∀ outer, modes ≠ .name :: outer)
    (h : plainCode modes c cs = .ok s) : Move modes c s.cut.taken s.cut.rest s.kind s.modes := by
  unfold plainCode at h
  split at h
  · rename_i starts
    cases h
    rcases wordKind_eq (c :: (Cut.span Text.continuesName cs).taken) with kind | kind <;>
    · rw [kind]
      exact .keep noName rfl (by simp) (fun sign => absurd sign (not_isSign_of starts (by decide)))
  · split at h
    · rename_i digit
      split at h
      · rename_i kind k number
        cases h
        have literal := number_kind number
        rcases literal with rfl | rfl <;>
        · exact .keep noName rfl (by simp) (fun sign => absurd sign (not_isSign_of digit (by decide)))
      · cases h
    · split at h
      · cases h
        exact .keep noName rfl (by simp) (fun _ => .inl rfl)
      · cases h

theorem closeBrace_moves (noName : ∀ outer, modes ≠ .name :: outer) (rest : List Char) :
    Move modes '}' [] rest (closeBrace modes).1 (closeBrace modes).2 := by
  unfold closeBrace
  split
  · exact .longEnd _ rfl rfl
  · exact .other noName _ _ rfl (by simp) rfl (by simp [Nameless]) (by simp [isSign])
  · exact .keep noName rfl (by simp) (by simp [isSign])

theorem code_moves {s : Step cs} (noName : ∀ outer, modes ≠ .name :: outer) (h : code modes c cs = .ok s) :
    Move modes c s.cut.taken s.cut.rest s.kind s.modes := by
  unfold code at h
  split at h
  · rename_i layout
    cases h
    exact .keep noName rfl (by simp) (fun sign => absurd sign (not_isSign_of layout (by decide)))
  · split at h
    · exact slash_moves noName h
    · cases h
      exact openString_moves noName cs
    · split at h <;> cases h
      exact .keep noName rfl (by simp) (by simp [isSign])
    · split at h <;> cases h
      exact .keep noName rfl (by simp) (by simp [isSign])
    · split at h
      · cases h
        exact .keep noName rfl (by simp) (by simp [isSign])
      · exact plainCode_moves noName h
    · cases h
      exact .keep noName rfl (by simp) (by simp [isSign])
    · cases h
      exact .other noName _ _ rfl (by simp) (marks_openBrace modes) nameless_openBrace (by simp [isSign])
    · cases h
      exact closeBrace_moves noName cs
    · exact plainCode_moves noName h

/-- A character that stands for itself is no dollar sign in front of a template. -/
theorem stringPart_of_isText {raw : Bool} (text : isStringText raw c cs = true) :
    stringPart raw modes c cs = .ok ⟨.stringText, stringText raw cs, modes⟩ := by
  have noTemplate : ¬ (c == '$' && startsTemplate cs) = true := by
    intro template
    simp only [Bool.and_eq_true] at template
    simp [isStringText, template] at text
  unfold stringPart
  rw [if_neg noTemplate, if_pos text]

theorem stringPart_moves {raw : Bool} {s : Step cs} (noName : ∀ outer, modes ≠ .name :: outer)
    (h : stringPart raw modes c cs = .ok s) : Move modes c s.cut.taken s.cut.rest s.kind s.modes := by
  unfold stringPart at h
  split at h
  · rename_i template
    simp only [Bool.and_eq_true, beq_iff_eq] at template
    obtain ⟨rfl, starts⟩ := template
    split at h
    · cases h
      exact .longStart noName rfl
    · rename_i notBrace
      cases h
      cases cs with
      | nil => cases starts
      | cons d ds =>
        have name : Text.startsName d = true := by
          have notOpen : d ≠ '{' := by
            rintro rfl
            exact notBrace _ rfl
          simpa [startsTemplate, notOpen] using starts
        exact .shortStart noName rfl d ds rfl name
  · split at h
    · cases h
      exact .keep noName rfl (by simp) (fun _ => .inr rfl)
    · cases h

theorem rawString_moves {outer : List Mode} {s : Step cs}
    (h : rawString (.quoted true :: outer) outer c cs = .ok s) :
    Move (.quoted true :: outer) c s.cut.taken s.cut.rest s.kind s.modes := by
  unfold rawString at h
  split at h
  · rename_i k closed
    cases h
    split at closed
    · rename_i quote
      have : c = '"' := by simpa using quote
      subst this
      refine .closeQuote true outer rfl ?_
      unfold rawClose? at closed
      split at closed
      · split at closed <;> cases closed
        rfl
      · cases closed
    · cases closed
  · exact stringPart_moves (by simp) h

theorem plainString_moves {outer : List Mode} {s : Step cs}
    (h : plainString (.quoted false :: outer) outer c cs = .ok s) :
    Move (.quoted false :: outer) c s.cut.taken s.cut.rest s.kind s.modes := by
  unfold plainString at h
  split at h
  · rename_i quote
    have : c = '"' := by simpa using quote
    subst this
    cases h
    exact .closeQuote false outer rfl rfl
  · split at h
    · rename_i escape
      have : c = '\\' := by simpa using escape
      subst this
      split at h <;> cases h
      exact .keep (by simp) rfl (by simp) (by simp [isSign])
    · split at h
      · cases h
      · exact stringPart_moves (by simp) h

/-- All that a step can do. -/
theorem step_moves {s : Step cs} (h : step modes c cs = .ok s) :
    Move modes c s.cut.taken s.cut.rest s.kind s.modes := by
  unfold step at h
  split at h
  · exact rawString_moves h
  · exact plainString_moves h
  · cases h
    exact .shortName _ rfl _ (wordKind_eq _)
  · rename_i noName
    exact code_moves (fun outer => noName outer) h

/-- The name of a short template is open only where it comes next. -/
def Settled (modes : List Mode) (cs : List Char) : Prop :=
  Nameless modes ∨ ∃ outer d ds, modes = .name :: outer ∧ Nameless outer ∧ cs = d :: ds ∧
    Text.startsName d = true

theorem Settled.nameless (h : Settled modes cs) (noName : ∀ outer, modes ≠ .name :: outer) :
    Nameless modes := by
  rcases h with h | ⟨outer, _, _, opened, _⟩
  · exact h
  · exact absurd opened (noName outer)

theorem Nameless.tail {m : Mode} (h : Nameless (m :: modes)) : Nameless modes :=
  fun n member => h n (List.mem_cons_of_mem m member)

theorem Move.settled {taken rest : List Char} {kind : TokenKind} {after : List Mode}
    (h : Move modes c taken rest kind after) (before : Settled modes (c :: taken ++ rest)) :
    Settled after rest := by
  cases h with
  | openQuote noName raw text =>
    have outer := before.nameless noName
    exact .inl (by simpa [Nameless] using outer)
  | closeQuote raw outer opened text =>
    subst opened
    exact .inl (before.nameless (by simp)).tail
  | longStart noName text =>
    have outer := before.nameless noName
    exact .inl (by simpa [Nameless] using outer)
  | longEnd outer opened text =>
    subst opened
    exact .inl (before.nameless (by simp)).tail
  | shortStart noName text d ds next name =>
    exact .inr ⟨modes, d, ds, rfl, before.nameless noName, next, name⟩
  | shortName outer opened kind word =>
    subst opened
    rcases before with before | ⟨outer', _, _, opened, nameless, _⟩
    · exact absurd rfl (before .name (by simp))
    · cases opened
      exact .inl nameless
  | other noName kind after noMark noStart same nameless proper =>
    exact .inl (nameless (before.nameless noName))

/-- A text that begins with another character is no sign. -/
theorem ofList_ne_sign {taken : List Char} (h : isSign c = false) :
    (String.ofList (c :: taken) != "," && String.ofList (c :: taken) != "\x7b" &&
      String.ofList (c :: taken) != "@") = true := by
  have other : ∀ d : Char, isSign d = true → String.ofList (c :: taken) ≠ String.ofList [d] := by
    intro d sign text
    have chars := congrArg String.toList text
    rw [String.toList_ofList, String.toList_ofList] at chars
    rw [(List.cons.inj chars).1, sign] at h
    cases h
  have comma := other ',' rfl
  have brace := other '{' rfl
  have at_ := other '@' rfl
  simp only [Bool.and_eq_true, bne_iff_ne]
  exact ⟨⟨comma, brace⟩, at_⟩

theorem Move.proper {taken rest : List Char} {kind : TokenKind} {after : List Mode}
    (h : Move modes c taken rest kind after) (before : Settled modes (c :: taken ++ rest))
    (start stop : Nat) : Token.isProper ⟨kind, start, stop, String.ofList (c :: taken)⟩ = true := by
  cases h with
  | openQuote noName raw text | closeQuote raw outer opened text =>
    cases raw <;> simp [Token.isProper, text]
  | longStart noName text | longEnd outer opened text | shortStart noName text =>
    simp [Token.isProper, text]
  | shortName outer opened kind word =>
    subst opened
    rcases before with before | ⟨_, d, ds, _, _, next, name⟩
    · exact absurd rfl (before .name (by simp))
    · have first : c = d := (List.cons.inj next).1
      have noSign : isSign c = false := by
        rw [← first] at name
        simpa using not_isSign_of name (by decide)
      rcases word with rfl | rfl <;> exact ofList_ne_sign noSign
  | other noName kind after noMark noStart same nameless proper =>
    by_cases sign : isSign c = true
    · rcases proper sign with rfl | rfl <;> rfl
    · have noSign : isSign c = false := by simpa using sign
      have text := @ofList_ne_sign c taken noSign
      cases kind <;> first | rfl | exact text | contradiction

/-- The marks that are open behind a token are those of the modes behind it. -/
theorem Move.nest {taken rest : List Char} {kind : TokenKind} {after : List Mode}
    (h : Move modes c taken rest kind after) (start stop : Nat) :
    Token.nest (marks modes) ⟨kind, start, stop, String.ofList (c :: taken)⟩ = some (marks after) := by
  cases h with
  | openQuote noName raw text => simp [Token.nest, marks, Mode.mark?, text]
  | closeQuote raw outer opened text => simp [Token.nest, opened, marks, Mode.mark?, text]
  | longStart noName text => simp [Token.nest, marks, Mode.mark?]
  | longEnd outer opened text => simp [Token.nest, opened, marks, Mode.mark?]
  | shortStart noName text d ds next name => rfl
  | shortName outer opened kind word =>
    rw [opened]
    have noMark : kind.isMark = false := by
      rcases word with rfl | rfl <;> rfl
    rw [Token.nest_of_not_isMark noMark]
    rfl
  | other noName kind after noMark noStart same nameless proper =>
    rw [Token.nest_of_not_isMark noMark, same]

/-- A step that leaves a name open is followed by the step that reads the name. -/
theorem Lexes.name_follows {outer : List Mode} {tokens : List Token} (h : Lexes (.name :: outer) cs tokens) :
    ∃ t ts, tokens = t :: ts ∧ (t.kind = .identifier ∨ t.kind = .keyword) := by
  cases h with
  | cons start stop read tail =>
    cases read
    exact ⟨_, _, rfl, (wordKind_eq _).symm⟩

theorem Lexes.named {tokens : List Token} (h : Lexes modes cs tokens) : Token.Named tokens := by
  induction h with
  | nil => trivial
  | @cons modes c cs s ts start stop read tail ih =>
    refine ⟨?_, ih⟩
    intro (starts : s.kind = .shortTemplateStart)
    obtain ⟨kind, cut, after⟩ := s
    cases step_moves read with
    | shortStart noName text d ds next name => exact tail.name_follows
    | shortName outer opened kind word =>
      rcases word with rfl | rfl <;> cases starts
    | other noName kind after noMark noStart same nameless proper => exact absurd starts noStart
    | _ => cases starts

theorem Lexes.proper {tokens : List Token} (h : Lexes modes cs tokens) (settled : Settled modes cs) :
    ∀ t ∈ tokens, t.isProper = true := by
  induction h with
  | nil => simp
  | @cons modes c cs s ts start stop read tail ih =>
    have move := step_moves read
    have whole : c :: s.cut.taken ++ s.cut.rest = c :: cs := by rw [List.cons_append, s.cut.whole]
    rw [← whole] at settled
    intro t member
    rcases List.mem_cons.mp member with rfl | member
    · exact move.proper settled start stop
    · exact ih (move.settled settled) t member

theorem Lexes.nests {tokens : List Token} (h : Lexes modes cs tokens) :
    Token.nestAll (marks modes) tokens = some [] := by
  induction h with
  | nil => rfl
  | @cons modes c cs s ts start stop read tail ih =>
    simp only [Token.nestAll, (step_moves read).nest start stop, Option.bind_some]
    exact ih

variable {source : String} {tokens : List Token}

theorem tokenize_proper (h : tokenize source = .ok tokens) : ∀ t ∈ tokens, t.isProper = true :=
  (tokenize_lexes h).proper (.inl (by simp [Nameless]))

theorem tokenize_named (h : tokenize source = .ok tokens) : Token.Named tokens :=
  (tokenize_lexes h).named

/-- Quotes and templates close what they opened last, and all are closed in the end. -/
theorem tokenize_nests (h : tokenize source = .ok tokens) : Token.nestAll [] tokens = some [] :=
  (tokenize_lexes h).nests

end Lexer

end KotlinSyntax
