import Mathlib.Data.List.Basic
import KotlinSyntax.Proofs.Lexing

/-! Tokens against a pushdown checker that knows nothing but the tokens. It remembers the open strings with their
quotes, the open templates with their braces, and where the name of a short template has to stand. The modes of the
lexer are its frames, so that the tokens of every text lead from no frame to no frame. -/
namespace KotlinSyntax

/-- What is open around a token; with no frame it is code at the top level. -/
inductive Frame
  /-- A string, with the text of its quote. -/
  | string (quote : String)
  /-- The code of a template, with the braces opened in it. -/
  | template (braces : Nat)
  /-- The name of a short template, which begins at the offset. -/
  | name (offset : Nat)
  deriving DecidableEq, Repr

namespace Token

/-- Braces balance in a template; at the top level they are operators as all others. -/
def brace (frames : List Frame) (text : String) : Option (List Frame) :=
  match frames with
  | .template n :: outer =>
    if text = "\x7b" then some (.template (n + 1) :: outer)
    else if text = "\x7d" then if n = 0 then none else some (.template (n - 1) :: outer)
    else some frames
  | _ => some frames

def inCode (frames : List Frame) (t : Token) : Option (List Frame) :=
  match t.kind with
  | .openQuote => some (.string t.text :: frames)
  | .operator => brace frames t.text
  | .longTemplateEnd =>
    match frames with
    | .template 0 :: .string quote :: outer => some (.string quote :: outer)
    | _ => none
  | .closeQuote | .longTemplateStart | .shortTemplateStart | .stringText | .escapeSequence => none
  | _ => some frames

def inString (quote : String) (outer : List Frame) (t : Token) : Option (List Frame) :=
  match t.kind with
  | .closeQuote => if t.text = quote then some outer else none
  | .longTemplateStart => some (.template 0 :: .string quote :: outer)
  | .shortTemplateStart => some (.name t.stop :: .string quote :: outer)
  | .stringText => some (.string quote :: outer)
  | .escapeSequence => if quote = quoteText true then none else some (.string quote :: outer)
  | _ => none

/-- What is open behind a token, if it may stand inside the frames. -/
def enter (frames : List Frame) (t : Token) : Option (List Frame) :=
  match frames with
  | .string quote :: outer => t.inString quote outer
  | .name offset :: outer =>
    if (t.kind = .identifier ∨ t.kind = .keyword) ∧ t.start = offset then some outer else none
  | _ => t.inCode frames

end Token

namespace Lexer

def Mode.frame (offset : Nat) : Mode → Frame
  | quoted raw => .string (quoteText raw)
  | template braces => .template braces
  | name => .name offset

def frames (offset : Nat) (modes : List Mode) : List Frame := modes.map (Mode.frame offset)

/-- Modes of code: each template stands in a string, and each string in code. -/
inductive Coded : List Mode → Prop
  | top : Coded []
  | template (braces : Nat) (raw : Bool) {outer : List Mode} (code : Coded outer) :
      Coded (.template braces :: .quoted raw :: outer)

inductive Stacked : List Mode → Prop
  | code {modes : List Mode} (code : Coded modes) : Stacked modes
  | quoted (raw : Bool) {outer : List Mode} (code : Coded outer) : Stacked (.quoted raw :: outer)
  | name (raw : Bool) {outer : List Mode} (code : Coded outer) : Stacked (.name :: .quoted raw :: outer)

/-- Only the name of a short template depends on where it stands. -/
theorem Coded.frames_eq {modes : List Mode} (code : Coded modes) (start stop : Nat) :
    frames start modes = frames stop modes := by
  induction code with
  | top => rfl
  | template braces raw code ih =>
    simp only [frames, List.map_cons, List.cons.injEq] at ih ⊢
    exact ⟨rfl, rfl, ih⟩

theorem Coded.enter {modes : List Mode} (code : Coded modes) (offset : Nat) (t : Token) :
    t.enter (frames offset modes) = t.inCode (frames offset modes) := by
  cases code <;> rfl

/-- The checker goes with a step: it accepts the token and stands in the frames of the modes behind it. -/
structure Step.Checks {cs : List Char} (modes : List Mode) (c : Char) (s : Step cs) : Prop where
  stacked : Stacked s.modes
  enter (start stop : Nat) :
    Token.enter (frames start modes) ⟨s.kind, start, stop, String.ofList (c :: s.cut.taken)⟩ =
      some (frames stop s.modes)

variable {modes outer : List Mode} {c : Char} {cs : List Char} {s : Step cs}

def isPlain : TokenKind → Bool
  | .whitespace | .lineComment | .blockComment | .semicolon | .identifier | .keyword | .integerLiteral
  | .floatLiteral | .charLiteral => true
  | _ => false

/-- In code the checker may be asked for its answer to code, with the frames as they are in front of the token. -/
theorem Coded.checks (code : Coded modes) (stacked : Stacked s.modes)
    (inCode : ∀ start stop, Token.inCode (frames stop modes)
      ⟨s.kind, start, stop, String.ofList (c :: s.cut.taken)⟩ = some (frames stop s.modes)) :
    s.Checks modes c where
  stacked := stacked
  enter start stop := by rw [code.enter, code.frames_eq start stop, inCode start stop]

theorem Coded.plain (code : Coded modes) {kind : TokenKind} (plain : isPlain kind = true) (cut : Cut cs) :
    Step.Checks modes c ⟨kind, cut, modes⟩ := by
  refine code.checks (.code code) fun start stop => ?_
  cases kind <;> first | rfl | cases plain

/-- A text that begins with another character is not the text of one character. -/
theorem ofList_ne_single {d : Char} (h : c ≠ d) (taken : List Char) :
    String.ofList (c :: taken) ≠ String.ofList [d] := by
  intro text
  have chars := congrArg String.toList text
  rw [String.toList_ofList, String.toList_ofList] at chars
  exact h (List.cons.inj chars).1

/-- An operator that is no brace. -/
theorem Coded.operator (code : Coded modes) (notOpen : c ≠ '{') (notClose : c ≠ '}') (cut : Cut cs) :
    Step.Checks modes c ⟨.operator, cut, modes⟩ := by
  refine code.checks (.code code) fun start stop => ?_
  cases code with
  | top => rfl
  | template braces raw code =>
    exact (if_neg (ofList_ne_single notOpen cut.taken)).trans (if_neg (ofList_ne_single notClose cut.taken))

theorem openBrace_checks (code : Coded modes) (cut : Cut cs) (single : cut.taken = []) :
    Step.Checks modes '{' ⟨.operator, cut, openBrace modes⟩ := by
  cases code with
  | top => exact Coded.top.checks (.code .top) fun start stop => rfl
  | template braces raw code =>
    refine (Coded.template braces raw code).checks (.code (.template (braces + 1) raw code)) fun start stop => ?_
    rw [single]
    rfl

theorem closeBrace_checks (code : Coded modes) (cut : Cut cs) (single : cut.taken = []) :
    Step.Checks modes '}' ⟨(closeBrace modes).1, cut, (closeBrace modes).2⟩ := by
  cases code with
  | top => exact Coded.top.checks (.code .top) fun start stop => rfl
  | template braces raw code =>
    cases braces with
    | zero => exact (Coded.template 0 raw code).checks (.quoted raw code) fun start stop => rfl
    | succ n =>
      refine (Coded.template (n + 1) raw code).checks (.code (.template n raw code)) fun start stop => ?_
      rw [single]
      rfl

theorem slash_checks (code : Coded modes) (h : slash modes cs = .ok s) : s.Checks modes '/' := by
  unfold slash at h
  split at h
  · cases h
    exact code.plain rfl _
  · split at h <;> cases h
    exact code.plain rfl _
  · split at h <;> cases h
    exact code.operator (by decide) (by decide) _

theorem openString_checks (code : Coded modes) (cs : List Char) : (openString modes cs).Checks modes '"' := by
  unfold openString
  split
  · rename_i k opened
    refine code.checks (.quoted true code) fun start stop => ?_
    unfold rawOpen? at opened
    split at opened <;> cases opened
    rfl
  · exact code.checks (.quoted false code) fun start stop => rfl

theorem plainCode_checks (code : Coded modes) (notOpen : c ≠ '{') (notClose : c ≠ '}')
    (h : plainCode modes c cs = .ok s) : s.Checks modes c := by
  unfold plainCode at h
  split at h
  · cases h
    rcases wordKind_eq (c :: (Cut.span Text.continuesName cs).taken) with kind | kind <;>
    · rw [kind]
      exact code.plain rfl _
  · split at h
    · split at h
      · rename_i kind k number
        cases h
        rcases number_kind number with rfl | rfl <;> exact code.plain rfl _
      · cases h
    · split at h <;> cases h
      exact code.operator notOpen notClose _

theorem code_checks (code : Coded modes) (h : Lexer.code modes c cs = .ok s) : s.Checks modes c := by
  unfold Lexer.code at h
  split at h
  · cases h
    exact code.plain rfl _
  · split at h
    · exact slash_checks code h
    · cases h
      exact openString_checks code cs
    · split at h <;> cases h
      exact code.plain rfl _
    · split at h <;> cases h
      exact code.plain rfl _
    · split at h
      · cases h
        exact code.plain rfl _
      · exact plainCode_checks code (by decide) (by decide) h
    · cases h
      exact code.plain rfl _
    · cases h
      exact openBrace_checks code _ rfl
    · cases h
      exact closeBrace_checks code _ rfl
    · rename_i notOpen notClose
      exact plainCode_checks code notOpen notClose h

/-- In a string the checker may be asked for its answer to strings. -/
theorem Coded.checksQuoted {raw : Bool} (code : Coded outer) (stacked : Stacked s.modes)
    (inString : ∀ start stop, Token.inString (quoteText raw) (frames stop outer)
      ⟨s.kind, start, stop, String.ofList (c :: s.cut.taken)⟩ = some (frames stop s.modes)) :
    s.Checks (.quoted raw :: outer) c where
  stacked := stacked
  enter start stop := by
    rw [frames, List.map_cons, ← frames, code.frames_eq start stop]
    exact inString start stop

theorem stringPart_checks {raw : Bool} (code : Coded outer)
    (h : stringPart raw (.quoted raw :: outer) c cs = .ok s) : s.Checks (.quoted raw :: outer) c := by
  unfold stringPart at h
  split at h
  · split at h <;> cases h
    · exact code.checksQuoted (.code (.template 0 raw code)) fun start stop => rfl
    · exact code.checksQuoted (.name raw code) fun start stop => rfl
  · split at h <;> cases h
    exact code.checksQuoted (.quoted raw code) fun start stop => rfl

theorem rawString_checks (code : Coded outer) (h : rawString (.quoted true :: outer) outer c cs = .ok s) :
    s.Checks (.quoted true :: outer) c := by
  unfold rawString at h
  split at h
  · rename_i k closed
    cases h
    split at closed
    · rename_i quote
      have : c = '"' := by simpa using quote
      subst this
      refine code.checksQuoted (.code code) fun start stop => ?_
      unfold rawClose? at closed
      split at closed
      · split at closed <;> cases closed
        rfl
      · cases closed
    · cases closed
  · exact stringPart_checks code h

theorem plainString_checks (code : Coded outer) (h : plainString (.quoted false :: outer) outer c cs = .ok s) :
    s.Checks (.quoted false :: outer) c := by
  unfold plainString at h
  split at h
  · rename_i quote
    have : c = '"' := by simpa using quote
    subst this
    cases h
    exact code.checksQuoted (.code code) fun start stop => rfl
  · split at h
    · split at h <;> cases h
      exact code.checksQuoted (.quoted false code) fun start stop => rfl
    · split at h
      · cases h
      · exact stringPart_checks code h

/-- The name of a short template stands where the checker expects it, and leads back to the string. -/
theorem shortName_checks {raw : Bool} (code : Coded outer) {kind : TokenKind}
    (word : kind = .keyword ∨ kind = .identifier) (cut : Cut cs) :
    Step.Checks (.name :: .quoted raw :: outer) c ⟨kind, cut, .quoted raw :: outer⟩ where
  stacked := .quoted raw code
  enter start stop := by
    refine (if_pos ⟨word.symm, rfl⟩).trans ?_
    rw [frames, List.map_cons, ← frames, code.frames_eq start stop]
    rfl

/-- Whatever the modes, the checker goes with the step. -/
theorem step_checks (stacked : Stacked modes) (h : step modes c cs = .ok s) : s.Checks modes c := by
  cases stacked with
  | code code =>
    cases code with
    | top => exact code_checks .top h
    | template braces raw code => exact code_checks (.template braces raw code) h
  | quoted raw code =>
    cases raw with
    | true => exact rawString_checks code h
    | false => exact plainString_checks code h
  | name raw code =>
    cases h
    exact shortName_checks code (wordKind_eq _) _

/-- From the frames of its modes the checker comes to no frame at the end of a text without an error. -/
theorem scan_checks (modes : List Mode) (offset : Nat) (cs : List Char) (stacked : Stacked modes)
    (complete : (scan modes offset cs).failure = none) :
    (scan modes offset cs).tokens.foldlM Token.enter (frames offset modes) = some [] := by
  induction modes, offset, cs using scan.induct with
  | case1 modes offset =>
    rw [scan] at complete ⊢
    have closed : modes = [] := by simpa using complete
    subst closed
    rfl
  | case2 modes offset c cs cause failed =>
    rw [scan, failed] at complete
    cases complete
  | case3 modes offset c cs s read text stop ih =>
    have checks := step_checks stacked read
    rw [scan, read] at complete ⊢
    rw [List.foldlM_cons, checks.enter offset stop]
    exact ih checks.stacked complete

/-- Strings, templates and braces are well nested in the tokens of a text. The checker starts in code at the top
level, accepts each token in the frames that the tokens before it opened, and ends in code at the top level. -/
theorem tokenize_accepted (source : String) (tokens : List Token) (h : tokenize source = .ok tokens) :
    tokens.foldlM Token.enter [] = some [] := by
  unfold tokenize at h
  split at h
  · cases h
  · rename_i complete
    cases h
    exact scan_checks [] 0 source.toList (.code .top) complete

/-- A name, and a template with braces in code, in a string. -/
theorem tokenize_accepted_templates :
    List.foldlM Token.enter [] [⟨.openQuote, 0, 1, "\""⟩, ⟨.shortTemplateStart, 1, 2, "$"⟩, ⟨.identifier, 2, 3, "a"⟩,
      ⟨.longTemplateStart, 3, 5, "$\x7b"⟩, ⟨.operator, 5, 6, "\x7b"⟩, ⟨.operator, 6, 7, "\x7d"⟩,
      ⟨.longTemplateEnd, 7, 8, "\x7d"⟩, ⟨.closeQuote, 8, 9, "\""⟩, ⟨.operator, 9, 10, "\x7d"⟩] = some [] :=
  tokenize_accepted "\"$a$\x7b\x7b\x7d\x7d\"\x7d" _ (by decide +kernel)

end Lexer

end KotlinSyntax
