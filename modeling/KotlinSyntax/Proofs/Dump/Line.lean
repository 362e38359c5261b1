import Mathlib.Tactic.SplitIfs
import KotlinSyntax.Node.Dump

/-! Lines of a verbose dump. The blanks in front of a line say how deep its node is, its name ends at the first
bracket and tells the kind, and behind it stand the text and the flags, with marks that no value holds unescaped. So a
line tells all that the node holds itself, and no line holds a line feed. -/
namespace KotlinSyntax

/-- The fields for flags. All others that hold no nodes are for texts. -/
def Field.isFlag : Field → Bool
  | wildcard | asterisk | isRaw | isShort | startsLine | endsLine => true
  | _ => false

def Scalar.isFlag : Scalar → Bool
  | text _ => false
  | flag _ => true

/-- The node is of a known kind, its own fields hold texts and flags as they are declared, and if it is a keyword, it
has one of the spellings that there are. -/
structure Node.Typed (n : Node) : Prop where
  kind : ∃ k, n.tag = .kind k ∧ (k = .keyword → (Keyword.name? n.text).isSome = true)
  held : ∀ a ∈ n.scalars, a.2.isFlag = a.1.isFlag

/-- What stands in front of the first element that fails the test can be told from what stands behind. -/
theorem append_inj_of_stop {α : Type} {p : α → Bool} {as bs rest rest' : List α} (h : as ++ rest = bs ++ rest')
    (front : as.all p = true) (stop : ∀ a ∈ rest.head?, p a = false) (front' : bs.all p = true)
    (stop' : ∀ a ∈ rest'.head?, p a = false) : as = bs ∧ rest = rest' := by
  have taken {cs rest : List α} (front : cs.all p = true) (stop : ∀ a ∈ rest.head?, p a = false) :
      (cs ++ rest).takeWhile p = cs := by
    rw [List.takeWhile_append_of_pos (List.all_eq_true.mp front)]
    cases rest with
    | nil => rw [List.takeWhile_nil, List.append_nil]
    | cons a rest => rw [List.takeWhile_cons_of_neg (by simp [stop a rfl]), List.append_nil]
  have same : as = bs := by rw [← taken front stop, h, taken front' stop']
  subst same
  exact ⟨rfl, List.append_cancel_left h⟩

namespace Dump

variable {c d : Char} {v w r s : List Char}

/-! Escaped texts. -/

def unescapeChar : Char → Char
  | 'n' => '\n'
  | 'r' => '\r'
  | 't' => '\t'
  | 'b' => '\x08'
  | c => c

theorem escapeChar_cases (c : Char) :
    (∃ m, escapeChar c = ['\\', m] ∧ unescapeChar m = c ∧ m ≠ '\n') ∨
      (escapeChar c = [c] ∧ c ≠ '\\' ∧ c ≠ '"' ∧ c ≠ '\n') := by
  unfold escapeChar
  split
  case h_7 => exact .inr ⟨rfl, by assumption, by assumption, by assumption⟩
  all_goals exact .inl ⟨_, rfl, rfl, by decide⟩

theorem escapeChar_append_inj (h : escapeChar c ++ r = escapeChar d ++ s) : c = d ∧ r = s := by
  rcases escapeChar_cases c with ⟨m, escaped, is, -⟩ | ⟨plain, back, -⟩ <;>
  rcases escapeChar_cases d with ⟨k, escaped', is', -⟩ | ⟨plain', back', -⟩
  · rw [escaped, escaped'] at h
    obtain ⟨-, rfl, rfl⟩ : '\\' = '\\' ∧ m = k ∧ r = s := by simpa using h
    exact ⟨is.symm.trans is', rfl⟩
  · rw [escaped, plain'] at h
    exact absurd (List.cons.inj h).1.symm back'
  · rw [plain, escaped'] at h
    exact absurd (List.cons.inj h).1 back
  · rw [plain, plain'] at h
    exact List.cons.inj h

theorem escapeChar_append_ne_quote (c : Char) (r s : List Char) : escapeChar c ++ r ≠ '"' :: s := by
  intro h
  rcases escapeChar_cases c with ⟨m, escaped, -, -⟩ | ⟨plain, -, quote, -⟩
  · rw [escaped] at h
    cases (List.cons.inj h).1
  · rw [plain] at h
    exact quote (List.cons.inj h).1

/-- An escaped text ends at the first quote that stands for itself. -/
theorem escape_append_inj (h : v.flatMap escapeChar ++ '"' :: r = w.flatMap escapeChar ++ '"' :: s) :
    v = w ∧ r = s := by
  induction v generalizing w with
  | nil =>
    cases w with
    | nil => exact ⟨rfl, (List.cons.inj h).2⟩
    | cons d w =>
      rw [List.flatMap_cons, List.append_assoc] at h
      exact absurd h.symm (escapeChar_append_ne_quote d _ _)
  | cons c v ih =>
    cases w with
    | nil =>
      rw [List.flatMap_cons, List.append_assoc] at h
      exact absurd h (escapeChar_append_ne_quote c _ _)
    | cons d w =>
      rw [List.flatMap_cons, List.flatMap_cons, List.append_assoc, List.append_assoc] at h
      obtain ⟨rfl, tail⟩ := escapeChar_append_inj h
      obtain ⟨rfl, same⟩ := ih tail
      exact ⟨rfl, same⟩

theorem escape_oneLine (v : List Char) : '\n' ∉ v.flatMap escapeChar := by
  intro member
  obtain ⟨c, -, inside⟩ := List.mem_flatMap.mp member
  rcases escapeChar_cases c with ⟨m, escaped, -, feed⟩ | ⟨plain, -, -, feed⟩
  · rw [escaped] at inside
    rcases List.mem_cons.mp inside with same | inside
    · cases same
    · exact feed (List.mem_singleton.mp inside).symm
  · rw [plain] at inside
    exact feed (List.mem_singleton.mp inside).symm

/-! Attributes. -/

def entry (a : Field × Scalar) : List Char :=
  a.1.key.toList ++ '=' :: '"' :: ((scalarText a.2).toList.flatMap escapeChar ++ ['"'])

def further : List (Field × Scalar) → List Char
  | [] => ['\x7d']
  | a :: rest => ',' :: ' ' :: (entry a ++ further rest)

theorem attributes_cons (a : Field × Scalar) (rest : List (Field × Scalar)) :
    (attributes (a :: rest)).toList = '\x7b' :: (entry a ++ further rest) := by
  have joined (a : Field × Scalar) (rest : List (Field × Scalar)) :
      List.intercalate [',', ' '] ((a :: rest).map entry) ++ ['\x7d'] = entry a ++ further rest := by
    induction rest generalizing a with
    | nil => simp [further]
    | cons b rest ih =>
      rw [List.map_cons, List.map_cons, List.intercalate_cons_cons, List.append_assoc, ← List.map_cons, ih b]
      simp [further]
  have texts : (String.toList ∘ fun a : Field × Scalar => a.1.key ++ "=\"" ++ escape (scalarText a.2) ++ "\"") =
      entry := by
    funext a
    simp [entry, escape]
  rw [← joined]
  simp only [attributes, String.toList_append, String.toList_intercalate, List.map_map, texts]
  rfl

theorem mem_fields (f : Field) : f ∈ Field.all := List.mem_of_getElem? (i := f.ctorIdx) (by cases f <;> rfl)

/-- Written out, a text shows its characters at once. -/
theorem all_ofList {p : Char → Bool} {cs : List Char} (h : cs.all p = true) :
    (String.ofList cs).toList.all p = true := by
  rw [String.toList_ofList]
  exact h

/-- The names of fields are made of letters. -/
theorem key_letters (f : Field) : f.key.toList.all Char.isAlpha = true := by
  cases f <;> exact all_ofList rfl

/-- No two fields have one name. -/
theorem key_inj {f g : Field} (h : f.key = g.key) : f = g := by
  have back : ∀ f ∈ Field.all, Field.ofKey? f.key = some f := by decide +kernel
  exact Option.some.inj ((back f (mem_fields f)).symm.trans (h ▸ back g (mem_fields g)))

theorem scalarText_inj {a b : Scalar} (sort : a.isFlag = b.isFlag) (h : scalarText a = scalarText b) : a = b := by
  cases a with
  | text s =>
    cases b with
    | text t => exact congrArg Scalar.text h
    | flag c => cases sort
  | flag c =>
    cases b with
    | text t => cases sort
    | flag d => cases c <;> cases d <;> first | rfl | exact absurd h (by decide)

theorem entry_append_inj {a b : Field × Scalar} (held : a.2.isFlag = a.1.isFlag) (held' : b.2.isFlag = b.1.isFlag)
    (h : entry a ++ r = entry b ++ s) : a = b ∧ r = s := by
  simp only [entry, List.append_assoc, List.cons_append, List.nil_append] at h
  obtain ⟨keys, values⟩ := append_inj_of_stop h (key_letters a.1) (by simp) (key_letters b.1) (by simp)
  obtain ⟨texts, rest⟩ := escape_append_inj (List.cons.inj (List.cons.inj values).2).2
  have field : a.1 = b.1 := key_inj (String.toList_inj.mp keys)
  have value : a.2 = b.2 := scalarText_inj (by rw [held, held', field]) (String.toList_inj.mp texts)
  exact ⟨Prod.ext field value, rest⟩

theorem further_inj {as bs : List (Field × Scalar)} (held : ∀ a ∈ as, a.2.isFlag = a.1.isFlag)
    (held' : ∀ b ∈ bs, b.2.isFlag = b.1.isFlag) (h : further as = further bs) : as = bs := by
  induction as generalizing bs with
  | nil =>
    cases bs with
    | nil => rfl
    | cons b bs => cases h
  | cons a as ih =>
    cases bs with
    | nil => cases h
    | cons b bs =>
      obtain ⟨rfl, rest⟩ := entry_append_inj (held a (List.mem_cons_self ..)) (held' b (List.mem_cons_self ..))
        (List.cons.inj (List.cons.inj h).2).2
      rw [ih (fun c member => held c (List.mem_cons_of_mem a member))
        (fun c member => held' c (List.mem_cons_of_mem a member)) rest]

theorem attributes_inj {as bs : List (Field × Scalar)} (held : ∀ a ∈ as, a.2.isFlag = a.1.isFlag)
    (held' : ∀ b ∈ bs, b.2.isFlag = b.1.isFlag) (h : (attributes as).toList = (attributes bs).toList) : as = bs := by
  cases as with
  | nil =>
    cases bs with
    | nil => rfl
    | cons b bs =>
      rw [attributes_cons] at h
      cases h
  | cons a as =>
    cases bs with
    | nil =>
      rw [attributes_cons] at h
      cases h
    | cons b bs =>
      rw [attributes_cons, attributes_cons] at h
      obtain ⟨rfl, rest⟩ := entry_append_inj (held a (List.mem_cons_self ..)) (held' b (List.mem_cons_self ..))
        (List.cons.inj h).2
      rw [further_inj (fun c member => held c (List.mem_cons_of_mem a member))
        (fun c member => held' c (List.mem_cons_of_mem a member)) rest]

/-! Names. -/

theorem mem_kinds (k : Kind) : k ∈ Kind.all := List.mem_of_getElem? (i := k.ctorIdx) (by cases k <;> rfl)

theorem name_inj {k l : Kind} (h : k.name = l.name) : k = l := by
  have back : ∀ k ∈ Kind.all, Kind.ofName? k.name = some k := by decide +kernel
  exact Option.some.inj ((back k (mem_kinds k)).symm.trans (h ▸ back l (mem_kinds l)))

abbrev Spells (k : Kind) (text : String) : Prop := k = .keyword → (Keyword.name? text).isSome = true

def heading? (k : Kind) : Option String := if k = .keyword then some "Keyword" else Node.group? k

def ownName (k : Kind) (text : String) : String := if k = .keyword then Keyword.listedName text else k.name

/-- The name of a keyword is made of letters, and so are those of all kinds. -/
theorem ownName_letters {k : Kind} {text : String} (spelled : Spells k text) :
    (ownName k text).toList.all Char.isAlpha = true := by
  have words : ∀ w ∈ Keyword.names, w.2.toList.all Char.isAlpha = true := by decide +kernel
  unfold ownName
  split
  · rename_i keyword
    obtain ⟨name, found⟩ := Option.isSome_iff_exists.mp (spelled keyword)
    rw [Keyword.listedName, found]
    obtain ⟨before, after, whole, -⟩ := List.lookup_eq_some_iff.mp found
    exact words (text, name) (whole ▸ List.mem_append_right before (List.mem_cons_self ..))
  · cases k <;> exact all_ofList rfl

theorem heading_mem {k : Kind} {heading : String} (h : heading? k = some heading) :
    heading ∈ ["Keyword", "Extra", "Declaration", "Expression", "Type"] := by
  unfold heading? Node.group? at h
  split at h
  · cases h
    simp
  · split_ifs at h <;> cases h <;> simp

theorem heading_letters {k : Kind} {heading : String} (h : heading? k = some heading) :
    heading.toList.all Char.isAlpha = true := by
  have letters : ∀ heading ∈ ["Keyword", "Extra", "Declaration", "Expression", "Type"],
      heading.toList.all Char.isAlpha = true := by decide +kernel
  exact letters heading (heading_mem h)

theorem heading_keyword {k : Kind} : heading? k = some "Keyword" ↔ k = .keyword := by
  constructor
  · intro h
    unfold heading? Node.group? at h
    split_ifs at h with keyword
    · exact keyword
    all_goals simp at h
  · rintro rfl
    rfl

theorem ownName_inj {k l : Kind} {text text' : String} (headings : heading? k = heading? l)
    (h : ownName k text = ownName l text') : k = l := by
  by_cases keyword : k = .keyword
  · rw [keyword]
    exact (heading_keyword.mp (headings ▸ heading_keyword.mpr keyword)).symm
  · have keyword' : l ≠ .keyword := fun is => keyword (heading_keyword.mp (headings ▸ heading_keyword.mpr is))
    rw [ownName, ownName, if_neg keyword, if_neg keyword'] at h
    exact name_inj h

theorem qualifiedName_eq (k : Kind) (text : String) :
    Node.qualifiedName (.kind k) text = match heading? k with
      | some heading => "Node." ++ heading ++ "." ++ ownName k text
      | none => "Node." ++ ownName k text := by
  by_cases keyword : k = .keyword
  · subst keyword
    rfl
  · rw [heading?, ownName, if_neg keyword, if_neg keyword]
    unfold Node.qualifiedName
    split
    · exact absurd (Tag.kind.inj (by assumption)) keyword
    · rename_i same
      cases same
      cases Node.group? k <;> rfl
    · contradiction

theorem qualifiedName_of_headed {k : Kind} {heading : String} (h : heading? k = some heading) (text : String) :
    (Node.qualifiedName (.kind k) text).toList =
      "Node.".toList ++ (heading.toList ++ '.' :: (ownName k text).toList) := by
  rw [qualifiedName_eq, h]
  simp

theorem qualifiedName_of_bare {k : Kind} (h : heading? k = none) (text : String) :
    (Node.qualifiedName (.kind k) text).toList = "Node.".toList ++ (ownName k text).toList := by
  rw [qualifiedName_eq, h]
  simp

/-- The name of a node ends at the first bracket, and tells the kind. -/
theorem qualifiedName_append_inj {k l : Kind} {text text' : String} (spelled : Spells k text)
    (spelled' : Spells l text') (stop : ∀ c ∈ r.head?, c = '\x7b') (stop' : ∀ c ∈ s.head?, c = '\x7b')
    (h : (Node.qualifiedName (.kind k) text).toList ++ r = (Node.qualifiedName (.kind l) text').toList ++ s) :
    k = l ∧ r = s := by
  have ends {r : List Char} (stop : ∀ c ∈ r.head?, c = '\x7b') : ∀ c ∈ r.head?, c.isAlpha = false := by
    intro c next
    rw [stop c next]
    rfl
  have own := ownName_letters spelled
  have own' := ownName_letters spelled'
  cases heading : heading? k with
  | none =>
    rw [qualifiedName_of_bare heading, List.append_assoc] at h
    cases heading' : heading? l with
    | none =>
      rw [qualifiedName_of_bare heading', List.append_assoc] at h
      obtain ⟨names, rest⟩ := append_inj_of_stop (List.append_cancel_left h) own (ends stop) own' (ends stop')
      exact ⟨ownName_inj (heading.trans heading'.symm) (String.toList_inj.mp names), rest⟩
    | some g =>
      rw [qualifiedName_of_headed heading', List.append_assoc, List.append_assoc] at h
      obtain ⟨-, rfl⟩ := append_inj_of_stop (List.append_cancel_left h) own (ends stop) (heading_letters heading')
        (by simp)
      simp at stop
  | some g =>
    rw [qualifiedName_of_headed heading, List.append_assoc, List.append_assoc] at h
    cases heading' : heading? l with
    | none =>
      rw [qualifiedName_of_bare heading', List.append_assoc] at h
      obtain ⟨-, rfl⟩ := append_inj_of_stop (List.append_cancel_left h) (heading_letters heading) (by simp) own'
        (ends stop')
      simp at stop'
    | some g' =>
      rw [qualifiedName_of_headed heading', List.append_assoc, List.append_assoc] at h
      obtain ⟨headings, rest⟩ := append_inj_of_stop (List.append_cancel_left h) (heading_letters heading) (by simp)
        (heading_letters heading') (by simp)
      obtain ⟨names, rest⟩ := append_inj_of_stop (List.cons.inj rest).2 own (ends stop) own' (ends stop')
      have same : heading? k = heading? l := by rw [heading, heading', String.toList_inj.mp headings]
      exact ⟨ownName_inj same (String.toList_inj.mp names), rest⟩

theorem qualifiedName_oneLine {k : Kind} {text : String} (spelled : Spells k text) :
    '\n' ∉ (Node.qualifiedName (.kind k) text).toList := by
  have absent {word : List Char} (letters : word.all Char.isAlpha = true) : '\n' ∉ word := fun member => by
    simpa using List.all_eq_true.mp letters _ member
  have own := absent (ownName_letters spelled)
  cases heading : heading? k with
  | none => simp [qualifiedName_of_bare heading, own]
  | some g => simp [qualifiedName_of_headed heading, own, absent (heading_letters heading)]

theorem attributes_oneLine (as : List (Field × Scalar)) : '\n' ∉ (attributes as).toList := by
  have key (f : Field) : '\n' ∉ f.key.toList := fun member => by
    simpa using List.all_eq_true.mp (key_letters f) _ member
  have one (a : Field × Scalar) : '\n' ∉ entry a := by simp [entry, key, escape_oneLine, -List.mem_flatMap]
  have more (as : List (Field × Scalar)) : '\n' ∉ further as := by
    induction as with
    | nil => simp [further]
    | cons a as ih => simp [further, one, ih]
  cases as with
  | nil => simp [attributes]
  | cons a as => simp [attributes_cons, one, more]

/-! Lines. -/

/-- The line of a node in a verbose dump. -/
def row (depth : Nat) (n : Node) : String := line { verbose := true } depth "" n.tag n.scalars

theorem row_toList (depth : Nat) (n : Node) :
    (row depth n).toList = List.replicate (2 * depth) ' ' ++
      ((Node.qualifiedName n.tag n.text).toList ++ (attributes n.scalars).toList) := by
  have whole : row depth n = indent depth ++ "" ++ Node.qualifiedName n.tag n.text ++ attributes n.scalars := rfl
  rw [whole]
  simp [indent]

variable {n m : Node} {depth depth' : Nat}

/-- The line of a node tells its kind, its text and its flags. -/
theorem row_inj (typed : n.Typed) (typed' : m.Typed) (h : row depth n = row depth m) :
    n.tag = m.tag ∧ n.scalars = m.scalars := by
  have stop (as : List (Field × Scalar)) : ∀ c ∈ (attributes as).toList.head?, c = '\x7b' := by
    cases as with
    | nil => simp [attributes]
    | cons a as => simp [attributes_cons]
  obtain ⟨k, kind, spelled⟩ := typed.kind
  obtain ⟨l, kind', spelled'⟩ := typed'.kind
  have whole := congrArg String.toList h
  rw [row_toList, row_toList, kind, kind'] at whole
  obtain ⟨rfl, attributes⟩ :=
    qualifiedName_append_inj spelled spelled' (stop _) (stop _) (List.append_cancel_left whole)
  exact ⟨kind.trans kind'.symm, attributes_inj typed.held typed'.held attributes⟩

theorem row_oneLine (typed : n.Typed) (depth : Nat) : '\n' ∉ (row depth n).toList := by
  obtain ⟨k, kind, spelled⟩ := typed.kind
  rw [row_toList, kind]
  simp [qualifiedName_oneLine spelled, attributes_oneLine]

def Indented (depth : Nat) (l : String) : Prop :=
  ∃ rest, l.toList = List.replicate (2 * depth) ' ' ++ 'N' :: rest

theorem row_indented (depth : Nat) (n : Node) : Indented depth (row depth n) := by
  have begins : (Node.qualifiedName n.tag n.text).toList.head? = some 'N' := by
    unfold Node.qualifiedName
    repeat' split
    all_goals simp
  obtain ⟨name, starts⟩ := List.head?_eq_some_iff.mp begins
  refine ⟨name ++ (attributes n.scalars).toList, ?_⟩
  rw [row_toList, starts, List.cons_append]

theorem Indented.unique {l : String} (h : Indented depth l) (k : Indented depth' l) : depth = depth' := by
  obtain ⟨rest, whole⟩ := h
  obtain ⟨rest', whole'⟩ := k
  have blanks (depth : Nat) : (List.replicate (2 * depth) ' ').all (· == ' ') = true := by simp
  obtain ⟨same, -⟩ := append_inj_of_stop (whole.symm.trans whole') (blanks depth) (by simp) (blanks depth') (by simp)
  have lengths := congrArg List.length same
  simp only [List.length_replicate] at lengths
  omega

end Dump

end KotlinSyntax
