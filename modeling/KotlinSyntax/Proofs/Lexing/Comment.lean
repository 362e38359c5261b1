import KotlinSyntax.Proofs.Lexing.RawString
import KotlinSyntax.Proofs.Spans

/-! Block comments. The lexer counts how many comments are open and looks at two units at a time, while the grammar
of comments says nothing of either: a comment holds items between its marks, and an item is a comment or a single unit
at which no mark begins. Both agree on every text. -/
namespace KotlinSyntax

namespace Text

theorem charUnits_single {c : Char} (single : isSingle c = true) : charUnits c = [c.toNat] := if_pos single

theorem charUnits_pair {c : Char} (pair : isSingle c = false) :
    ∃ high low, charUnits c = [high, low] ∧ 0xD800 ≤ high ∧ 0xD800 ≤ low := by
  refine ⟨_, _, if_neg (by simp [pair]), ?_, ?_⟩ <;> omega

/-- A unit below the halves of pairs stands for its character. -/
theorem flatMap_charUnits_eq_cons {a : Char} (small : a.toNat < 0xD800) {cs : List Char} {us : List Nat}
    (h : cs.flatMap charUnits = a.toNat :: us) : ∃ ds, cs = a :: ds ∧ ds.flatMap charUnits = us := by
  cases cs with
  | nil => cases h
  | cons c cs =>
    rw [List.flatMap_cons] at h
    cases single : isSingle c with
    | true =>
      rw [charUnits_single single] at h
      obtain ⟨same, rest⟩ := List.cons.inj h
      exact ⟨cs, by rw [Char.toNat_inj.mp same], rest⟩
    | false =>
      obtain ⟨high, low, pair, bound, -⟩ := charUnits_pair single
      rw [pair] at h
      have same := (List.cons.inj h).1
      omega

theorem flatMap_charUnits_eq_nil {cs : List Char} (h : cs.flatMap charUnits = []) : cs = [] := by
  cases cs with
  | nil => rfl
  | cons c cs =>
    have none := length_flatMap_charUnits (c :: cs)
    have some := unitsOf_pos c
    rw [h, width_cons, List.length_nil] at none
    omega

/-- Two beginnings of a text that have the same units are the same. -/
theorem eq_of_flatMap_charUnits {as bs cs ds : List Char} (whole : as ++ bs = cs ++ ds)
    (same : as.flatMap charUnits = cs.flatMap charUnits) : as = cs := by
  induction as generalizing cs with
  | nil => exact (flatMap_charUnits_eq_nil same.symm).symm
  | cons a as ih =>
    cases cs with
    | nil => exact flatMap_charUnits_eq_nil same
    | cons c cs =>
      obtain ⟨rfl, rest⟩ := List.cons.inj whole
      rw [List.flatMap_cons, List.flatMap_cons] at same
      rw [ih rest (List.append_cancel_left same)]

end Text

namespace Lexer

open Text

/-! The grammar. -/

def opening : List Nat := ['/'.toNat, '*'.toNat]

def closing : List Nat := ['*'.toNat, '/'.toNat]

def Marks (us : List Nat) : Prop := opening <+: us ∨ closing <+: us

instance (us : List Nat) : Decidable (Marks us) := inferInstanceAs (Decidable (_ ∨ _))

inductive CommentPart
  | comment
  | items
  deriving DecidableEq, Repr

/-- The part derives the first units in front of the second ones. -/
inductive Derives : CommentPart → List Nat → List Nat → Prop
  | comment {body behind : List Nat} (items : Derives .items body (closing ++ behind)) :
      Derives .comment (opening ++ body ++ closing) behind
  | none (behind : List Nat) : Derives .items [] behind
  | nested {inner more behind : List Nat} (first : Derives .comment inner (more ++ behind))
      (others : Derives .items more behind) : Derives .items (inner ++ more) behind
  | unit {u : Nat} {more behind : List Nat} (plain : ¬ Marks (u :: (more ++ behind)))
      (others : Derives .items more behind) : Derives .items (u :: more) behind

/-- The first units are a comment in front of the second ones. -/
abbrev IsComment (us behind : List Nat) : Prop := Derives .comment us behind

/-! The count. -/

/-- The first units close the comment that is open and `depth` more around it, and they end there. -/
inductive Closes : Nat → List Nat → List Nat → Prop
  | opens {depth : Nat} {us behind : List Nat} (inside : Closes (depth + 1) us behind) :
      Closes depth (opening ++ us) behind
  | last (behind : List Nat) : Closes 0 closing behind
  | closes {depth : Nat} {us behind : List Nat} (outside : Closes depth us behind) :
      Closes (depth + 1) (closing ++ us) behind
  | unit {depth u : Nat} {us behind : List Nat} (plain : ¬ Marks (u :: (us ++ behind)))
      (others : Closes depth us behind) : Closes depth (u :: us) behind

variable {depth u : Nat} {us vs behind : List Nat} {c : Char} {cs : List Char}

theorem marks_cons : Marks (u :: us) ↔
    (u = '/'.toNat ∧ us.head? = some '*'.toNat) ∨ (u = '*'.toNat ∧ us.head? = some '/'.toNat) := by
  cases us with
  | nil => simp [Marks, opening, closing]
  | cons v us => simp [Marks, opening, closing, eq_comm]

/-- What a part derives leaves the count as it was. -/
theorem Derives.passes {part : CommentPart} (h : Derives part us behind) (depth : Nat) {more last : List Nat}
    (split : behind = more ++ last) (rest : Closes depth more last) : Closes depth (us ++ more) last := by
  induction h generalizing depth more last with
  | @comment body behind items ih =>
    have inside : Closes (depth + 1) (body ++ (closing ++ more)) last :=
      ih (depth + 1) (by rw [split, List.append_assoc]) (.closes rest)
    simpa only [List.append_assoc] using Closes.opens inside
  | none behind => exact rest
  | @nested inner others behind first tail ihFirst ihTail =>
    rw [List.append_assoc]
    exact ihFirst depth (by rw [split, List.append_assoc]) (ihTail depth split rest)
  | @unit u others behind plain tail ih =>
    have front : ¬ Marks (u :: (others ++ more ++ last)) := by rwa [List.append_assoc, ← split]
    exact .unit front (ih depth split rest)

def Layers : Nat → List Nat → List Nat → Prop
  | 0, us, behind => ∃ body, us = body ++ closing ∧ Derives .items body (closing ++ behind)
  | depth + 1, us, behind => ∃ body outer, us = body ++ (closing ++ outer) ∧
      Derives .items body (closing ++ (outer ++ behind)) ∧ Layers depth outer behind

/-- What is an item in front of the innermost layer belongs to it. -/
theorem Layers.prepend {front : List Nat} (h : Layers depth us behind)
    (item : ∀ body rest, body ++ rest = us ++ behind → Derives .items body rest →
      Derives .items (front ++ body) rest) : Layers depth (front ++ us) behind := by
  cases depth with
  | zero =>
    obtain ⟨body, rfl, items⟩ := h
    exact ⟨front ++ body, (List.append_assoc ..).symm, item body _ (List.append_assoc ..).symm items⟩
  | succ depth =>
    obtain ⟨body, outer, rfl, items, layers⟩ := h
    exact ⟨front ++ body, outer, (List.append_assoc ..).symm, item body _ (by simp) items, layers⟩

theorem Closes.layers (h : Closes depth us behind) : Layers depth us behind := by
  induction h with
  | @opens depth us behind inside ih =>
    obtain ⟨body, outer, rfl, items, layers⟩ := ih
    have comment : Derives .comment (opening ++ body ++ closing) (outer ++ behind) := .comment items
    have whole : Layers depth (opening ++ body ++ closing ++ outer) behind :=
      layers.prepend fun more rest split others => .nested (split ▸ comment) others
    simpa only [List.append_assoc] using whole
  | last behind => exact ⟨[], rfl, .none _⟩
  | @closes depth us behind outside ih => exact ⟨[], us, rfl, .none _, ih⟩
  | @unit depth u us behind plain others ih =>
    have whole : Layers depth ([u] ++ us) behind :=
      ih.prepend fun more rest split items => .unit (split ▸ plain) items
    exact whole

theorem Derives.opened (h : IsComment us behind) : ∃ inner, us = opening ++ inner := by
  cases h with
  | @comment body behind items => exact ⟨body ++ closing, List.append_assoc ..⟩

/-- Behind its opening mark a comment is what closes it, with no comment around it. -/
theorem isComment_iff_closes : IsComment (opening ++ us) behind ↔ Closes 0 us behind := by
  constructor
  · intro comment
    generalize whole : opening ++ us = all at comment
    cases comment with
    | @comment body behind items =>
      have same : us = body ++ closing := by
        rw [List.append_assoc] at whole
        exact List.append_cancel_left whole
      rw [same]
      exact items.passes 0 rfl (.last behind)
  · intro closes
    obtain ⟨body, rfl, items⟩ := closes.layers
    rw [← List.append_assoc]
    exact .comment items

/-! The first units tell what comes first. -/

theorem Closes.of_opening (h : Closes depth us behind) (whole : us ++ behind = opening ++ vs) :
    ∃ inner, us = opening ++ inner ∧ vs = inner ++ behind ∧ Closes (depth + 1) inner behind := by
  cases h with
  | @opens _ inner _ inside =>
    rw [List.append_assoc] at whole
    exact ⟨inner, rfl, (List.append_cancel_left whole).symm, inside⟩
  | last => cases whole
  | closes => cases whole
  | @unit _ u us _ plain others =>
    have same : u :: (us ++ behind) = opening ++ vs := whole
    rw [same] at plain
    exact absurd (.inl (List.prefix_append ..)) plain

theorem Closes.of_closing (h : Closes depth us behind) (whole : us ++ behind = closing ++ vs) :
    (depth = 0 ∧ us = closing) ∨ ∃ lower outer, depth = lower + 1 ∧ us = closing ++ outer ∧
      vs = outer ++ behind ∧ Closes lower outer behind := by
  cases h with
  | opens => cases whole
  | last => exact .inl ⟨rfl, rfl⟩
  | @closes lower outer _ outside =>
    rw [List.append_assoc] at whole
    exact .inr ⟨lower, outer, rfl, rfl, (List.append_cancel_left whole).symm, outside⟩
  | @unit _ u us _ plain others =>
    have same : u :: (us ++ behind) = closing ++ vs := whole
    rw [same] at plain
    exact absurd (.inr (List.prefix_append ..)) plain

theorem Closes.of_plain (h : Closes depth us behind) (whole : us ++ behind = u :: vs) (plain : ¬ Marks (u :: vs)) :
    ∃ more, us = u :: more ∧ vs = more ++ behind ∧ Closes depth more behind := by
  rw [← whole] at plain
  cases h with
  | opens =>
    rw [List.append_assoc] at plain
    exact absurd (.inl (List.prefix_append ..)) plain
  | last => exact absurd (.inr (List.prefix_append ..)) plain
  | closes =>
    rw [List.append_assoc] at plain
    exact absurd (.inr (List.prefix_append ..)) plain
  | @unit _ v more _ _ others =>
    obtain ⟨rfl, rest⟩ := List.cons.inj whole
    exact ⟨more, rfl, rest.symm, others⟩

/-- No mark begins with half of a pair. -/
theorem not_marks_of_half (half : 0xD800 ≤ u) : ¬ Marks (u :: us) := by
  have slash : '/'.toNat = 47 := rfl
  have star : '*'.toNat = 42 := rfl
  rw [marks_cons]
  omega

/-- Marks are told by characters as well as by units. -/
theorem not_marks_of_char (noOpen : ∀ ds, c = '/' → cs = '*' :: ds → False)
    (noClose : ∀ ds, c = '*' → cs = '/' :: ds → False) : ¬ Marks (c.toNat :: cs.flatMap charUnits) := by
  rw [marks_cons]
  rintro (⟨first, second⟩ | ⟨first, second⟩)
  · obtain ⟨us, next⟩ := List.head?_eq_some_iff.mp second
    obtain ⟨ds, rfl, -⟩ := flatMap_charUnits_eq_cons (by decide) next
    exact noOpen ds (Char.toNat_inj.mp first) rfl
  · obtain ⟨us, next⟩ := List.head?_eq_some_iff.mp second
    obtain ⟨ds, rfl, -⟩ := flatMap_charUnits_eq_cons (by decide) next
    exact noClose ds (Char.toNat_inj.mp first) rfl

/-- Where no mark begins, a character adds its units, be they one or two. -/
theorem closes_char_iff (noOpen : ∀ ds, c = '/' → cs = '*' :: ds → False)
    (noClose : ∀ ds, c = '*' → cs = '/' :: ds → False) (whole : us ++ behind = (c :: cs).flatMap charUnits) :
    Closes depth us behind ↔
      ∃ more, us = charUnits c ++ more ∧ cs.flatMap charUnits = more ++ behind ∧ Closes depth more behind := by
  rw [List.flatMap_cons] at whole
  cases single : isSingle c with
  | true =>
    have plain := not_marks_of_char noOpen noClose
    rw [charUnits_single single] at whole ⊢
    constructor
    · intro h
      exact h.of_plain whole plain
    · rintro ⟨more, rfl, rest, h⟩
      rw [rest] at plain
      exact .unit plain h
  | false =>
    obtain ⟨high, low, pair, highHalf, lowHalf⟩ := charUnits_pair single
    rw [pair] at whole ⊢
    constructor
    · intro h
      obtain ⟨_, rfl, rest, h⟩ := h.of_plain whole (not_marks_of_half highHalf)
      obtain ⟨more, rfl, rest, h⟩ := h.of_plain rest.symm (not_marks_of_half lowHalf)
      exact ⟨more, rfl, rest, h⟩
    · rintro ⟨more, rfl, rest, h⟩
      exact .unit (not_marks_of_half highHalf) (.unit (not_marks_of_half lowHalf) h)

/-! The lexer. -/

/-- What the lexer takes is what closes the comments that are open, and no other beginning does. -/
theorem closes_iff_found (depth : Nat) (cs : List Char) {us behind : List Nat}
    (whole : us ++ behind = cs.flatMap charUnits) :
    Closes depth us behind ↔ ∃ k, blockComment? depth cs = some k ∧ k.taken.flatMap charUnits = us := by
  induction depth, cs using blockComment?.induct generalizing us with
  | case1 depth cs ih =>
    rw [blockComment?]
    constructor
    · intro h
      obtain ⟨inner, rfl, rest, inside⟩ := h.of_opening whole
      obtain ⟨k, found, rfl⟩ := (ih rest.symm).mp inside
      exact ⟨_, Option.map_eq_some_iff.mpr ⟨k, found, rfl⟩, rfl⟩
    · rintro ⟨_, found, rfl⟩
      obtain ⟨k, inside, rfl⟩ := Option.map_eq_some_iff.mp found
      have split : opening ++ (k.taken.flatMap charUnits ++ behind) = opening ++ cs.flatMap charUnits := whole
      have rest := List.append_cancel_left split
      exact .opens ((ih rest).mpr ⟨k, inside, rfl⟩)
  | case2 cs =>
    rw [blockComment?]
    constructor
    · intro h
      rcases h.of_closing whole with ⟨-, rfl⟩ | ⟨lower, outer, more, -⟩
      · exact ⟨_, rfl, rfl⟩
      · cases more
    · rintro ⟨_, ⟨⟩, rfl⟩
      exact .last behind
  | case3 depth cs ih =>
    rw [blockComment?]
    constructor
    · intro h
      rcases h.of_closing whole with ⟨none, -⟩ | ⟨lower, outer, more, rfl, rest, outside⟩
      · cases none
      · cases more
        obtain ⟨k, found, rfl⟩ := (ih rest.symm).mp outside
        exact ⟨_, Option.map_eq_some_iff.mpr ⟨k, found, rfl⟩, rfl⟩
    · rintro ⟨_, found, rfl⟩
      obtain ⟨k, outside, rfl⟩ := Option.map_eq_some_iff.mp found
      have split : closing ++ (k.taken.flatMap charUnits ++ behind) = closing ++ cs.flatMap charUnits := whole
      have rest := List.append_cancel_left split
      exact .closes ((ih rest).mpr ⟨k, outside, rfl⟩)
  | case4 depth c cs noOpen noLast noClose ih =>
    have goesOn : blockComment? depth (c :: cs) = (blockComment? depth cs).map (.cons c) := by
      rw [blockComment?] <;> assumption
    have noClosing (ds : List Char) (star : c = '*') (slash : cs = '/' :: ds) : False := by
      cases depth with
      | zero => exact noLast ds rfl star slash
      | succ depth => exact noClose depth ds rfl star slash
    rw [goesOn, closes_char_iff noOpen noClosing whole]
    constructor
    · rintro ⟨more, rfl, rest, h⟩
      obtain ⟨k, found, rfl⟩ := (ih rest.symm).mp h
      exact ⟨_, Option.map_eq_some_iff.mpr ⟨k, found, rfl⟩, rfl⟩
    · rintro ⟨_, found, rfl⟩
      obtain ⟨k, others, rfl⟩ := Option.map_eq_some_iff.mp found
      have split : charUnits c ++ (k.taken.flatMap charUnits ++ behind) = charUnits c ++ cs.flatMap charUnits := by
        simpa [Cut.cons] using whole
      have rest := List.append_cancel_left split
      exact ⟨_, rfl, rest.symm, (ih rest).mpr ⟨k, others, rfl⟩⟩
  | case5 depth =>
    constructor
    · intro h
      obtain ⟨rfl, -⟩ := List.append_eq_nil_iff.mp whole
      cases h
    · rintro ⟨_, ⟨⟩, -⟩

/-- A comment at an opening mark is what the lexer takes there. -/
theorem isComment_iff_found (rest : List Char) (whole : us ++ behind = ('/' :: '*' :: rest).flatMap charUnits) :
    IsComment us behind ↔
      ∃ k, blockComment? 0 rest = some k ∧ ('/' :: '*' :: k.taken).flatMap charUnits = us := by
  constructor
  · intro comment
    obtain ⟨inner, rfl⟩ := comment.opened
    have split : opening ++ (inner ++ behind) = opening ++ rest.flatMap charUnits := whole
    have inside := List.append_cancel_left split
    obtain ⟨k, found, rfl⟩ := (closes_iff_found 0 rest inside).mp (isComment_iff_closes.mp comment)
    exact ⟨k, found, rfl⟩
  · rintro ⟨k, found, rfl⟩
    have split : opening ++ (k.taken.flatMap charUnits ++ behind) = opening ++ rest.flatMap charUnits := whole
    have inside := List.append_cancel_left split
    exact isComment_iff_closes.mpr ((closes_iff_found 0 rest inside).mpr ⟨k, found, rfl⟩)

theorem scan_comment {modes : List Mode} (code : InCode modes) (offset : Nat) {rest : List Char} {k : Cut rest}
    (found : blockComment? 0 rest = some k) :
    scan modes offset ('/' :: '*' :: rest) =
      (scan modes (offset + width ('/' :: '*' :: k.taken)) k.rest).behind [⟨.blockComment, offset,
        offset + width ('/' :: '*' :: k.taken), String.ofList ('/' :: '*' :: k.taken)⟩] := by
  obtain ⟨taken, rest, rfl⟩ := k
  have read : Lexer.step modes '/' ('*' :: taken ++ rest) =
      .ok ⟨.blockComment, ⟨'*' :: taken, rest, rfl⟩, modes⟩ := by
    rw [code.step]
    change slash modes ('*' :: (taken ++ rest)) = _
    rw [slash, found]
    rfl
  exact scan_step offset read rfl

theorem scan_unterminated {modes : List Mode} (code : InCode modes) (offset : Nat) {rest : List Char}
    (none : blockComment? 0 rest = none) :
    scan modes offset ('/' :: '*' :: rest) = ⟨[], some ⟨.unterminatedComment, offset⟩⟩ := by
  have read : Lexer.step modes '/' ('*' :: rest) = .error .unterminatedComment := by
    rw [code.step]
    change slash modes ('*' :: rest) = _
    rw [slash, none]
  rw [scan, read]

/-- A block comment is lexed by its grammar. Where code goes on with an opening mark, the lexer yields a block comment
of some text exactly if the text is a beginning of what is left and the grammar derives its units there. There is no
more than one such beginning, and the comment is unterminated exactly if there is none. -/
theorem block_comment_derived {modes : List Mode} (code : InCode modes) (offset : Nat) (rest : List Char) :
    let left := '/' :: '*' :: rest
    let lexed := scan modes offset left
    (∀ text : String,
      (∃ next : Lexing, lexed = next.behind [⟨.blockComment, offset, offset + (units text).length, text⟩]) ↔
        ∃ behind, text.toList ++ behind = left ∧ IsComment (units text) (behind.flatMap charUnits)) ∧
    (∀ us behind us' behind' : List Nat, us ++ behind = left.flatMap charUnits →
      us' ++ behind' = left.flatMap charUnits → IsComment us behind → IsComment us' behind' → us = us') ∧
    (lexed = ⟨[], some ⟨.unterminatedComment, offset⟩⟩ ↔
      ∀ us behind : List Nat, us ++ behind = left.flatMap charUnits → ¬ IsComment us behind) := by
  intro left lexed
  have taken_whole {k : Cut rest} : '/' :: '*' :: k.taken ++ k.rest = left := congrArg ('/' :: '*' :: ·) k.whole
  refine ⟨fun text => ⟨?_, ?_⟩, ?_, ?_, ?_⟩
  · rintro ⟨next, read⟩
    cases found : blockComment? 0 rest with
    | none =>
      have failed := scan_unterminated code offset found
      cases failed.symm.trans read
    | some k =>
      have tokens := congrArg Lexing.tokens ((scan_comment code offset found).symm.trans read)
      have same : String.ofList ('/' :: '*' :: k.taken) = text := congrArg Token.text (List.cons.inj tokens).1
      rw [← same, String.toList_ofList, units_ofList]
      have split : ('/' :: '*' :: k.taken).flatMap charUnits ++ k.rest.flatMap charUnits = left.flatMap charUnits := by
        rw [← List.flatMap_append, taken_whole]
      exact ⟨k.rest, taken_whole, (isComment_iff_found rest split).mpr ⟨k, found, rfl⟩⟩
  · rintro ⟨behind, whole, comment⟩
    have split : units text ++ behind.flatMap charUnits = left.flatMap charUnits := by
      rw [← whole, List.flatMap_append]
      rfl
    obtain ⟨k, found, same⟩ := (isComment_iff_found rest split).mp comment
    have text_taken : text = String.ofList ('/' :: '*' :: k.taken) := by
      rw [eq_of_flatMap_charUnits (taken_whole.trans whole.symm) same, String.ofList_toList]
    rw [text_taken, units_ofList, length_flatMap_charUnits]
    exact ⟨_, scan_comment code offset found⟩
  · intro us behind us' behind' whole whole' comment comment'
    obtain ⟨k, found, rfl⟩ := (isComment_iff_found rest whole).mp comment
    obtain ⟨k', found', rfl⟩ := (isComment_iff_found rest whole').mp comment'
    rw [found] at found'
    cases found'
    rfl
  · intro failed us behind whole comment
    obtain ⟨k, found, -⟩ := (isComment_iff_found rest whole).mp comment
    cases failed.symm.trans (scan_comment code offset found)
  · intro none
    cases found : blockComment? 0 rest with
    | none => exact scan_unterminated code offset found
    | some k =>
      have split : ('/' :: '*' :: k.taken).flatMap charUnits ++ k.rest.flatMap charUnits = left.flatMap charUnits := by
        rw [← List.flatMap_append, taken_whole]
      exact absurd ((isComment_iff_found rest split).mpr ⟨k, found, rfl⟩) (none _ _ split)

/-- A comment in a comment, with units that could belong to two marks, in a template. -/
theorem block_comment_derived_in_template : ∃ next : Lexing,
    scan [.template 0, .quoted true] 5 ['/', '*', '/', '/', '*', '*', '/', '*', '*', '/', '+'] =
      next.behind [⟨.blockComment, 5, 15, String.ofList ['/', '*', '/', '/', '*', '*', '/', '*', '*', '/']⟩] := by
  have inner : IsComment [47, 42, 42, 47] [42, 42, 47, 43] := .comment (.none _)
  have items : Derives .items [47, 47, 42, 42, 47, 42] [42, 47, 43] :=
    .unit (by decide) (.nested inner (.unit (by decide) (.none _)))
  have outer : IsComment [47, 42, 47, 47, 42, 42, 47, 42, 42, 47] [43] := .comment items
  have read := block_comment_derived (.inr ⟨0, [.quoted true], rfl⟩) 5 ['/', '/', '*', '*', '/', '*', '*', '/', '+']
  have text := (read.1 (String.ofList ['/', '*', '/', '/', '*', '*', '/', '*', '*', '/'])).mpr
  rw [String.toList_ofList, units_ofList] at text
  exact text ⟨['+'], rfl, outer⟩

end Lexer

end KotlinSyntax
