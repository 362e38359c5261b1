import KotlinSyntax.Proofs.Types.Facing

/-! Parsing a type. The grammar reads the words of each part of a modest type back as the raw tree of that part, in
front of anything that does not go on with it. -/
namespace KotlinSyntax

open Grammar
open Conversion (one opt many)
open Lexer (isIdentifier)

variable {ts : List Token} {scope : Scope} {b : Builder} {part : TypePart} {n name type : Node} {args : Option Node}
  {ns : List Node} {rest : List String} {m : Marker} {es : List RawElement}

abbrev Grammar.ReadsBack (ts : List Token) (scope : Scope) (g : Grammar Parsed) (n : Node) (rest : List String) : Prop :=
  ∀ b : Builder, b.Faces ts (n.words ++ rest) → Reads scope g b fun p b' => p.Shows n.raw ∧ b'.Faces ts rest

/-- Behind a type nothing stands, or a sign that cannot go on with it. -/
def EndsType (rest : List String) : Prop := ∀ w ∈ rest.head?, w ∈ [",", ">", ")"]

def EndsName (rest : List String) : Prop := rest.head? ≠ some "<" ∧ (rest.head? = some "." → ¬rest[1]?.any isIdentifier)

def TypePart.Read (ts : List Token) (scope : Scope) (n : Node) : TypePart → Prop
  | .name => True
  | .argument => ∀ rest, EndsType rest → ReadsBack ts scope (typeArgument Recur.whole) n rest
  | .arguments => ∀ rest, ReadsBack ts scope (typeArguments Recur.whole) n rest
  | .qualifier => ∀ rest, rest.head? ≠ some "<" → ∀ b : Builder, b.Faces ts (n.words ++ rest) →
      Reads scope (typeSegment Recur.whole) b fun m b' =>
        ∃ es, n.raw = .node .typeQualifier none es ∧ es ≠ [] ∧ m.Shows es ∧ b'.Faces ts rest
  | .simple => ∀ rest, EndsName rest → ReadsBack ts scope (namedType Recur.whole false) n rest
  | .nullable => ∀ rest, rest.head? ≠ some "?" → ∀ b : Builder, b.Faces ts (n.words ++ rest) →
      Reads scope (namedType Recur.whole false) b fun p b' =>
        Reads scope (nullableIf p) b' fun p' b'' => p'.Shows n.raw ∧ b''.Faces ts rest
  | .parameter => ∀ rest, EndsType rest → ReadsBack ts scope (functionTypeParameter Recur.whole) n rest
  | .parameters => ∀ rest, ReadsBack ts scope
      (bracketed .functionTypeParameterList "(" ")" (functionTypeParameter Recur.whole)) n rest
  | .function => ∀ rest, EndsType rest → ReadsBack ts scope (typeBody Recur.whole false) n rest
  | .reference => ∀ rest, EndsType rest → ReadsBack ts scope (Recur.whole (.typeReference false)) n rest

/-! Lists. -/

theorem Phrase.front {ws : List String} (h : Phrase ws) (rest : List String) : ∃ w ∈ (ws ++ rest).head?,
    w ∉ [">", ")", ".", ":"] := by
  obtain ⟨w, first, fine⟩ := h.first
  exact ⟨w, List.mem_head?_append_of_mem_head? first, fine⟩

/-- Items and the commas between them. -/
theorem commaList_reads {item : Grammar Parsed} {close : String} (closing : close ∈ [">", ")"])
    (each : ∀ n ∈ ns, Phrase n.words ∧ ∀ rest, EndsType rest → ReadsBack ts scope item n rest) (shown : m.Shows es)
    (h : b.Faces ts (joinWords "," (ns.map Node.words) ++ close :: rest)) :
    Reads scope (commaList m close item) b fun m' b' =>
      m'.Shows (es ++ (ns.map Node.raw).intersperse (wordLeaf ",")) ∧ b'.Faces ts (close :: rest) := by
  refine .iterate ?_
  induction ns generalizing b m es with
  | nil =>
    refine .stop (.look (.yes h.seen (.pure ⟨rfl, rfl⟩))) ⟨?_, h⟩
    simpa using shown
  | cons n ns ih =>
    obtain ⟨phrase, reads⟩ := each n (List.mem_cons_self ..)
    have unseen (more : List String) (h : b.Faces ts (n.words ++ more)) : b.sees close = false := by
      obtain ⟨w, first, fine⟩ := phrase.front more
      refine h.unseen fun same => fine ?_
      obtain rfl : w = close := Option.some.inj (first.symm.trans same)
      simp at closing ⊢
      tauto
    cases ns with
    | nil =>
      have ends : EndsType (close :: rest) := by
        intro w first
        obtain rfl : close = w := Option.some.inj first
        simp at closing ⊢
        tauto
      have h : b.Faces ts (n.words ++ close :: rest) := h
      refine .turn (.look (.no (Bool.eq_false_iff.mp (unseen _ h)) (.bind (reads _ ends b h) ?_)))
      rintro p b₁ ⟨shown', faces⟩
      have comma : b₁.sees "," = false := by
        refine faces.unseen fun same => ?_
        obtain rfl : close = "," := Option.some.inj same
        exact absurd closing (by decide)
      exact .look (.no (Bool.eq_false_iff.mp comma) (.pure ⟨shown.add shown', faces⟩))
    | cons n' ns =>
      have spelled : joinWords "," ((n :: n' :: ns).map Node.words) ++ close :: rest =
          n.words ++ "," :: (joinWords "," ((n' :: ns).map Node.words) ++ close :: rest) := by
        simp [joinWords]
      have listed : es ++ ((n :: n' :: ns).map Node.raw).intersperse (wordLeaf ",") =
          es ++ [n.raw] ++ [wordLeaf ","] ++ ((n' :: ns).map Node.raw).intersperse (wordLeaf ",") := by
        simp
      rw [spelled] at h
      rw [listed]
      have ends : EndsType ("," :: (joinWords "," ((n' :: ns).map Node.words) ++ close :: rest)) := by
        intro w first
        obtain rfl : "," = w := Option.some.inj first
        decide
      refine .turn (.look (.no (Bool.eq_false_iff.mp (unseen _ h)) (.bind (reads _ ends b h) ?_)))
      rintro p b₁ ⟨shown', faces⟩
      refine .look (.yes faces.seen (.bind (faces.advance (shown.add shown')) ?_))
      rintro m' b₂ ⟨shown'', faces'⟩
      refine .pure ⟨?_, ih (fun m member => each m (List.mem_cons_of_mem n member)) shown'' faces'⟩
      simp only [faces'.remaining, h.remaining, List.length_append, List.length_cons]
      omega

/-- A list between two signs, as a node of its own. -/
theorem bracketed_reads {item : Grammar Parsed} {opening close : String} (closing : close ∈ [">", ")"])
    (each : ∀ n ∈ ns, Phrase n.words ∧ ∀ rest, EndsType rest → ReadsBack ts scope item n rest) (kind : RawKind)
    (h : b.Faces ts (opening :: joinWords "," (ns.map Node.words) ++ [close] ++ rest)) :
    Reads scope (bracketed kind opening close item) b fun p b' =>
      p.Shows (.node kind none (wordLeaf opening :: (ns.map Node.raw).intersperse (wordLeaf ",") ++ [wordLeaf close])) ∧
        b'.Faces ts rest := by
  rw [List.append_assoc] at h
  refine .bind (h.expect .empty) ?_
  rintro m b₁ ⟨shown, faces⟩
  refine .bind (commaList_reads closing each shown faces) ?_
  rintro m b₂ ⟨shown, faces⟩
  refine .bind (faces.expect shown) ?_
  rintro m b₃ ⟨shown, faces⟩
  refine (shown.done (by simp)).mono ?_
  rintro p b₄ ⟨shown, rfl⟩
  exact ⟨by simpa using shown, faces⟩

/-! Named types. -/

theorem Modest.name_words (h : Modest .name n) : ∃ w, n.words = [w] ∧ n.raw = wordLeaf w ∧ isTypeName w = true := by
  cases h with
  | @name _ text is => exact ⟨text, words_name .., raw_name .., is⟩

/-- A name and its arguments. -/
theorem typeSegment_reads (is : Modest .name name) (has : ∀ list ∈ args, Modest .arguments list)
    (each : ∀ list ∈ args, TypePart.Read ts scope list .arguments) (ends : rest.head? ≠ some "<")
    (h : b.Faces ts (name.words ++ optWords args ++ rest)) : Reads scope (typeSegment Recur.whole) b fun m b' =>
      m.Shows (name.raw :: args.toList.map Node.raw) ∧ b'.Faces ts rest := by
  obtain ⟨w, word, leaf, plain⟩ := is.name_words
  rw [word, List.append_assoc, List.singleton_append] at h
  rw [leaf]
  refine .bind (h.expectName plain .empty) ?_
  rintro m b₁ ⟨shown, faces⟩
  cases args with
  | none =>
    exact .look (.no (Bool.eq_false_iff.mp (faces.unseen ends)) (.pure ⟨shown, faces⟩))
  | some list =>
    obtain ⟨vs, front⟩ := (has list rfl).arguments_words
    have seen : b₁.sees "<" = true := by
      rw [optWords_some, front] at faces
      exact faces.seen
    refine .look (.yes seen (.bind (each list rfl rest b₁ faces) ?_))
    rintro p b₂ ⟨shown', faces⟩
    exact .pure ⟨shown.add shown', faces⟩

theorem qualifier_read (is : Modest .name name) (has : ∀ list ∈ args, Modest .arguments list)
    (each : ∀ list ∈ args, TypePart.Read ts scope list .arguments) (id : Nat) :
    TypePart.Read ts scope (.mk id (.kind .simpleTypeQualifier) [] (one .name name ++ opt .typeArgs args)) .qualifier := by
  intro rest ends b h
  rw [words_qualifier] at h
  rw [raw_qualifier]
  refine (typeSegment_reads is has each ends h).mono ?_
  rintro m b' ⟨shown, faces⟩
  exact ⟨_, rfl, by simp, shown, faces⟩

/-- In front of the rest the words begin with a name, and what follows it tells it from the name of a parameter. -/
def NameFirst (ws rest : List String) : Prop :=
  ∃ w vs, ws ++ rest = w :: vs ∧ isTypeName w = true ∧ (vs = rest ∨ ∃ v ∈ vs.head?, v ∈ ["<", ".", "?"])

/-- With more behind the words the name is still in front. -/
theorem NameFirst.append {ws : List String} {v : String} {vs : List String} (h : NameFirst ws (v :: vs ++ rest))
    (sign : v ∈ ["<", ".", "?"]) : NameFirst (ws ++ v :: vs) rest := by
  obtain ⟨w, us, whole, plain, next⟩ := h
  refine ⟨w, us, ?_, plain, .inr ?_⟩
  · rw [List.append_assoc]
    exact whole
  · rcases next with rfl | next
    · exact ⟨v, rfl, sign⟩
    · exact next

theorem nameFirst_segment (is : Modest .name name) (has : ∀ list ∈ args, Modest .arguments list) (rest : List String) :
    NameFirst (name.words ++ optWords args) rest := by
  obtain ⟨w, word, _, plain⟩ := is.name_words
  rw [word]
  cases args with
  | none => exact ⟨w, rest, rfl, plain, .inl rfl⟩
  | some list =>
    obtain ⟨vs, front⟩ := (has list rfl).arguments_words
    refine ⟨w, list.words ++ rest, rfl, plain, .inr ⟨"<", ?_, by decide⟩⟩
    rw [front]
    rfl

theorem nameFirst_dotted (qualified : ∀ q ∈ ns, Modest .qualifier q) (is : Modest .name name)
    (has : ∀ list ∈ args, Modest .arguments list) (rest : List String) :
    NameFirst (ns.flatMap (fun q => q.words ++ ["."]) ++ (name.words ++ optWords args)) rest := by
  cases ns with
  | nil => exact nameFirst_segment is has rest
  | cons q ns =>
    have first := qualified q (List.mem_cons_self ..)
    cases first with
    | qualifier is' has' =>
      rw [List.flatMap_cons, words_qualifier, List.append_assoc, List.append_assoc]
      exact (nameFirst_segment is' has' _).append (by decide)

def Grammar.dotGoesOn (b : Builder) : Bool :=
  b.sees "." && b.seesName 1 && (!false || b.sees "." 2 || b.sees "<" 2 || b.sees "?" 2)

def Grammar.dotTurn (a : Marker × Marker) : Grammar (Turn (Marker × Marker)) := do
  if dotGoesOn (← look) then return .again (← qualifierTurn Recur.whole a) else return .stop a

theorem dotted_reads (qualified : ∀ q ∈ ns, Modest .qualifier q ∧ TypePart.Read ts scope q .qualifier)
    (is : Modest .name name) (has : ∀ list ∈ args, Modest .arguments list)
    (each : ∀ list ∈ args, TypePart.Read ts scope list .arguments) (ends : EndsName rest) (shown : m.Shows es)
    (h : b.Faces ts (ns.flatMap (fun q => q.words ++ ["."]) ++ (name.words ++ optWords args ++ rest))) :
    Reads scope (typeSegment Recur.whole) b fun segment b' => b'.remaining ≤ b.remaining ∧
      Loops scope dotTurn (m, segment) b' fun a b'' => (a.1.absorb a.2).Shows
        (es ++ (ns.flatMap (fun q => [q.raw, wordLeaf "."]) ++ name.raw :: args.toList.map Node.raw)) ∧
          b''.Faces ts rest := by
  induction ns generalizing b m es with
  | nil =>
    refine (typeSegment_reads is has each ends.1 h).mono ?_
    rintro segment b₁ ⟨shown', faces⟩
    have stops : dotGoesOn b₁ = false := by
      have named : b₁.seesName 1 = rest[1]?.any isIdentifier := faces.seesName 1
      by_cases first : rest.head? = some "."
      · have unnamed := ends.2 first
        simp [dotGoesOn, named, unnamed]
      · simp [dotGoesOn, faces.unseen first]
    refine ⟨?_, .stop (.look (.no (Bool.eq_false_iff.mp stops) (.pure ⟨rfl, rfl⟩))) ⟨shown.absorb shown', faces⟩⟩
    rw [faces.remaining, h.remaining, List.length_append, List.length_append]
    omega
  | cons q ns ih =>
    obtain ⟨⟨_, reads⟩, later⟩ := List.forall_mem_cons.mp qualified
    obtain ⟨w, vs, begins, plain, _⟩ := nameFirst_dotted (fun q member => (later q member).1) is has rest
    rw [List.append_assoc] at begins
    rw [List.flatMap_cons, List.append_assoc, List.append_assoc, List.singleton_append] at h
    refine (reads _ (by simp) b h).mono ?_
    rintro segment b₁ ⟨es', whole, some, shown', faces⟩
    have less : b₁.remaining ≤ b.remaining := by
      rw [faces.remaining, h.remaining, List.length_append]
      omega
    have goesOn : dotGoesOn b₁ = true := by
      have dot := faces.seen
      have named : b₁.seesName 1 = true := by
        rw [begins] at faces
        exact (faces.seesName 1).trans (isIdentifier_of_isTypeName plain)
      simp [dotGoesOn, dot, named]
    refine ⟨less, .turn (.look (.yes goesOn ?_))⟩
    refine .bind (R := fun a b' => b'.remaining < b₁.remaining ∧ Loops scope dotTurn a b' _) ?_ fun a b' turned => .pure turned
    refine .bind (shown'.done some) ?_
    rintro p b₂ ⟨shown'', rfl⟩
    refine .bind (faces.advance (shown.add shown'')) ?_
    rintro m' b₃ ⟨shown₃, faces₃⟩
    refine .bind (ih later shown₃ faces₃) ?_
    rintro segment' b₄ ⟨less', loops⟩
    refine .pure ⟨?_, ?_⟩
    · rw [faces₃.remaining] at less'
      rw [faces.remaining, List.length_cons]
      omega
    · have listed : es ++ ((q :: ns).flatMap (fun q => [q.raw, wordLeaf "."]) ++ name.raw :: args.toList.map Node.raw) =
          es ++ [.node .typeQualifier none es'] ++ [wordLeaf "."] ++
            (ns.flatMap (fun q => [q.raw, wordLeaf "."]) ++ name.raw :: args.toList.map Node.raw) := by
        simp [whole]
      rw [listed]
      exact loops

/-- Names joined by dots, as a type of their own. -/
theorem namedType_reads (qualified : ∀ q ∈ ns, Modest .qualifier q ∧ TypePart.Read ts scope q .qualifier)
    (is : Modest .name name) (has : ∀ list ∈ args, Modest .arguments list)
    (each : ∀ list ∈ args, TypePart.Read ts scope list .arguments) (id : Nat) : TypePart.Read ts scope
      (.mk id (.kind .simpleType) [] (many .qualifiers ns ++ one .name name ++ opt .typeArgs args)) .simple := by
  intro rest ends b h
  have whole : ns.flatMap (fun q => q.words ++ ["."]) ++ name.words ++ optWords args ++ rest =
      ns.flatMap (fun q => q.words ++ ["."]) ++ (name.words ++ optWords args ++ rest) := by
    simp
  rw [words_simple, whole] at h
  rw [raw_simple]
  have static : b.sees "dynamic" = false := by
    obtain ⟨w, vs, begins, plain, _⟩ := nameFirst_dotted (fun q member => (qualified q member).1) is has rest
    rw [← List.append_assoc, begins] at h
    refine h.unseen fun same => ?_
    obtain rfl : w = "dynamic" := Option.some.inj same
    exact absurd plain (by decide)
  refine .look (.no (by simp [static]) ?_)
  refine .bind (dotted_reads qualified is has each ends .empty h) ?_
  rintro segment b₁ ⟨_, loops⟩
  refine .bind (.iterate loops) ?_
  rintro ⟨m, segment⟩ b₂ ⟨shown, faces⟩
  refine (shown.done (by simp)).mono ?_
  rintro p b₃ ⟨shown, rfl⟩
  exact ⟨shown, faces⟩

/-- What begins a type that a function may extend. -/
theorem Modest.nameFirst (h : Modest part n) (named : part.isNamed = true) (rest : List String) : NameFirst n.words rest := by
  have simple {n : Node} (h : Modest .simple n) (rest : List String) : NameFirst n.words rest := by
    cases h with
    | simple qualified is has =>
      rw [words_simple, List.append_assoc]
      exact nameFirst_dotted qualified is has rest
  cases h with
  | simple qualified is has => exact simple (.simple qualified is has) rest
  | nullable is =>
    rw [words_nullable]
    exact (simple is _).append (by decide)
  | _ => cases named

theorem nullable_reads (read : TypePart.Read ts scope type .simple) (id : Nat) :
    TypePart.Read ts scope (.mk id (.kind .nullableType) [] (one .type type)) .nullable := by
  intro rest other b h
  rw [words_nullable, List.append_assoc, List.singleton_append] at h
  rw [raw_nullable]
  have ends : EndsName ("?" :: rest) := ⟨by simp, by simp⟩
  refine (read _ ends b h).mono ?_
  rintro p b₁ ⟨shown, faces⟩
  refine .look (.yes (by simp [faces.seen, faces.adjacent]) (.bind (faces.advance shown) ?_))
  rintro m b₂ ⟨shown, faces⟩
  refine .bind (shown.done (by simp)) ?_
  rintro p b₃ ⟨shown, rfl⟩
  exact .look (.no (by simp [faces.unseen other]) (.pure ⟨shown, faces⟩))

theorem EndsType.endsName (ends : EndsType rest) : EndsName rest := by
  constructor
  · intro first
    exact absurd (ends _ first) (by decide)
  · intro first
    exact absurd (ends _ first) (by decide)

/-- A named type and the question mark behind it, if it has one. -/
theorem named_reads (named : part.isNamed = true) (read : part.Read ts scope n) (ends : EndsName rest)
    (other : rest.head? ≠ some "?") (h : b.Faces ts (n.words ++ rest)) :
    Reads scope (namedType Recur.whole false) b fun p b' =>
      Reads scope (nullableIf p) b' fun p' b'' => p'.Shows n.raw ∧ b''.Faces ts rest := by
  cases part with
  | simple =>
    refine (read _ ends b h).mono ?_
    rintro p b₁ ⟨shown, faces⟩
    exact .look (.no (by simp [faces.unseen other]) (.pure ⟨shown, faces⟩))
  | nullable => exact read _ other b h
  | _ => cases named

/-- In front of a name no type in parentheses begins, and no context. -/
theorem NameFirst.plain {ws : List String} (first : NameFirst ws rest) (h : b.Faces ts (ws ++ rest)) :
    b.sees "(" = false ∧ (b.sees "context" && b.sees "(" 1) = false := by
  obtain ⟨w, vs, whole, plain, _⟩ := first
  rw [whole] at h
  have is := isIdentifier_of_isTypeName plain
  constructor
  · refine h.unseen fun same => ?_
    obtain rfl : w = "(" := Option.some.inj same
    exact absurd is (by decide)
  · have second : b.sees "(" 1 = false := by
      refine (h.sees "(" 1).trans (beq_eq_false_iff_ne.mpr fun same => ?_)
      cases vs with
      | nil => cases same
      | cons v vs =>
        obtain rfl : v = "(" := Option.some.inj same
        have fine := h.touch
        simp [touch, is] at fine
    rw [second, Bool.and_false]

theorem typeBody_named (named : part.isNamed = true) (is : Modest part n) (read : part.Read ts scope n) (ends : EndsType rest) :
    ReadsBack ts scope (typeBody Recur.whole false) n rest := by
  intro b h
  obtain ⟨unopened, contextless⟩ := (is.nameFirst named rest).plain h
  have other : rest.head? ≠ some "?" := fun first => absurd (ends _ first) (by decide)
  have undotted : rest.head? ≠ some "." := fun first => absurd (ends _ first) (by decide)
  refine .look (.no (by simp [unopened]) (.no (by simp [contextless]) ?_))
  refine .bind (named_reads named read ends.endsName other h) ?_
  intro p b₁ marked
  refine .bind marked ?_
  rintro p b₂ ⟨shown, faces⟩
  exact .look (.no (by simp [faces.unseen undotted]) (.pure ⟨shown, faces⟩))

/-! Function types. -/

theorem Modest.parameters_words (h : Modest .parameters n) : ∃ inside, n.words = "(" :: inside ++ [")"] ∧ Matched inside := by
  cases h with
  | @parameters _ elements each =>
    refine ⟨_, words_parameters .., ?_⟩
    cases elements with
    | nil => exact .nil
    | cons p ps =>
      obtain ⟨first, later⟩ := List.forall_mem_cons.mp each
      rw [List.map_cons]
      refine (first.phrase.list ?_).matched
      simpa using fun p member => (later p member).phrase

variable {params result : Node}

/-- The parameters and the result behind what the marker holds. -/
theorem functionType_reads (takes : TypePart.Read ts scope params .parameters)
    (gives : TypePart.Read ts scope result .reference) (ends : EndsType rest) (shown : m.Shows es)
    (h : b.Faces ts (params.words ++ "->" :: (result.words ++ rest))) :
    Reads scope (functionType Recur.whole m) b fun p b' =>
      p.Shows (.node .functionType none (es ++ [params.raw, wordLeaf "->", result.raw])) ∧ b'.Faces ts rest := by
  refine .bind (takes _ b h) ?_
  rintro p b₁ ⟨shown₁, faces⟩
  refine .bind (faces.expect (shown.add shown₁)) ?_
  rintro m b₂ ⟨shown₂, faces⟩
  refine .bind (gives rest ends b₂ faces) ?_
  rintro p b₃ ⟨shown₃, faces⟩
  refine ((shown₂.add shown₃).done (by simp)).mono ?_
  rintro p b₄ ⟨shown, rfl⟩
  exact ⟨by simpa using shown, faces⟩

/-- The parenthesis in front of parameters begins a function type. -/
theorem opens_function (is : Modest .parameters params) (front : List String) {vs : List String}
    (h : b.Faces ts (front ++ (params.words ++ "->" :: vs))) :
    b.sees "(" front.length = true ∧ b.startsFunctionType front.length = true := by
  obtain ⟨inside, words, matched⟩ := is.parameters_words
  rw [words] at h
  constructor
  · rw [h.sees]
    simp
  · exact h.startsFunctionType front matched

theorem function_reads (modest : Modest .parameters params) (takes : TypePart.Read ts scope params .parameters)
    (gives : TypePart.Read ts scope result .reference) (id : Nat) : TypePart.Read ts scope
      (.mk id (.kind .functionType) [] (one .params params ++ one .returnTypeRef result)) .function := by
  intro rest ends b h
  rw [words_function, List.append_assoc, List.cons_append] at h
  rw [raw_function]
  obtain ⟨opens, starts⟩ := opens_function modest [] h
  refine .look (.yes opens (.look (.yes starts ?_)))
  exact functionType_reads takes gives ends .empty h

theorem extension_reads (named : part.isNamed = true) (is : Modest part type) (read : part.Read ts scope type)
    (modest : Modest .parameters params) (takes : TypePart.Read ts scope params .parameters)
    (gives : TypePart.Read ts scope result .reference) (id receiver reference : Nat) :
    TypePart.Read ts scope (.mk id (.kind .functionType) [] (one .functionTypeReceiver
      (.mk receiver (.kind .functionTypeReceiver) [] (one .typeRef
        (.mk reference (.kind .typeRef) [] (one .type type)))) ++ one .params params ++ one .returnTypeRef result)) .function := by
  intro rest ends b h
  rw [words_extension, words_receiver, words_reference, List.append_assoc, List.append_assoc, List.append_assoc,
    List.cons_append, List.cons_append, List.nil_append] at h
  rw [raw_extension, raw_receiver, raw_reference]
  obtain ⟨inside, words, _⟩ := modest.parameters_words
  have endsName : EndsName ("." :: (params.words ++ "->" :: (result.words ++ rest))) := by
    have sign : isIdentifier "(" = false := by decide
    refine ⟨by simp, fun _ => ?_⟩
    simp [words, sign]
  obtain ⟨unopened, contextless⟩ := (is.nameFirst named _).plain h
  refine .look (.no (by simp [unopened]) (.no (by simp [contextless]) ?_))
  refine .bind (named_reads named read endsName (by simp) h) ?_
  intro p b₁ marked
  refine .bind marked ?_
  rintro p b₂ ⟨shown, faces⟩
  obtain ⟨opens, starts⟩ := opens_function modest ["."] faces
  have starts : b₂.startsFunctionType 1 = true := starts
  refine .look (.yes (by simp [faces.seen, starts]) ?_)
  refine .bind (shown.done (by simp)) ?_
  rintro p b₃ ⟨shown, rfl⟩
  refine .bind (faces.advance shown) ?_
  rintro m b₄ ⟨shown, faces⟩
  refine .bind (shown.done (by simp)) ?_
  rintro p b₅ ⟨shown, rfl⟩
  exact functionType_reads takes gives ends (.add .empty shown) faces

/-! References. -/

theorem typeBody_reads (held : part.isType = true) (is : Modest part n) (read : part.Read ts scope n) (ends : EndsType rest) :
    ReadsBack ts scope (typeBody Recur.whole false) n rest := by
  cases part with
  | simple => exact typeBody_named rfl is read ends
  | nullable => exact typeBody_named rfl is read ends
  | function => exact read rest ends
  | _ => cases held

/-- A type that stands alone is not taken for one in parentheses. -/
theorem not_grouped (held : part.isType = true) (is : Modest part n) (h : b.Faces ts (n.words ++ rest)) :
    (b.sees "(" && !b.startsFunctionType) = false := by
  have named {part : TypePart} {n : Node} {rest : List String} (named : part.isNamed = true) (is : Modest part n)
      (h : b.Faces ts (n.words ++ rest)) : (b.sees "(" && !b.startsFunctionType) = false := by
    rw [((is.nameFirst named rest).plain h).1, Bool.false_and]
  cases is with
  | simple qualified is has => exact named rfl (.simple qualified is has) h
  | nullable is => exact named rfl (.nullable is) h
  | function takes gives =>
    rw [words_function, List.append_assoc, List.cons_append] at h
    obtain ⟨_, starts⟩ := opens_function takes [] h
    have starts : b.startsFunctionType = true := starts
    rw [starts, Bool.not_true, Bool.and_false]
  | extension isNamed is takes gives =>
    rw [words_extension, words_receiver, words_reference, List.append_assoc, List.append_assoc, List.append_assoc] at h
    exact named isNamed is h
  | _ => cases held

theorem reference_reads (held : part.isType = true) (is : Modest part type) (read : part.Read ts scope type) (id : Nat) :
    TypePart.Read ts scope (.mk id (.kind .typeRef) [] (one .type type)) .reference := by
  intro rest ends b h
  rw [words_reference] at h
  rw [raw_reference]
  have alone := not_grouped held is h
  refine .whole h.placed trivial (.look (.no (by simp [alone]) ?_))
  refine .bind (h.modified (.inl rfl) .empty) ?_
  rintro _ _ ⟨rfl, rfl⟩
  refine .bind (typeBody_reads held is read ends _ h) ?_
  rintro p b₁ ⟨shown, faces⟩
  refine ((Marker.Shows.empty.add shown).done (by simp)).mono ?_
  rintro p b₂ ⟨shown, rfl⟩
  exact ⟨shown, faces⟩

/-- A type between parentheses, up to the second of them. -/
theorem groupedType_reads {Q : Parsed → Builder → Prop} (held : part.isType = true) (is : Modest part type)
    (read : part.Read ts scope type) (other : rest.head? ≠ some "->") (h : b.Faces ts ("(" :: type.words ++ [")"] ++ rest))
    (goesOn : ∀ m b', m.Shows [wordLeaf "(", type.raw, wordLeaf ")"] → b'.Faces ts rest → Reads scope (do
      let b ← look
      if b.sees "?" && b.adjacent then
        let nullable ← done (← advance m) .nullableType
        done (Marker.empty.add (← nullableSuffix nullable)) .typeReference
      else done m .typeReference) b' Q) : Reads scope (Recur.whole (.typeReference false)) b Q := by
  have starts : b.startsFunctionType = false :=
    (h.startsFunctionType [] is.phrase.matched).trans (beq_eq_false_iff_ne.mpr other)
  rw [List.cons_append, List.cons_append, List.append_assoc, List.singleton_append] at h
  refine .whole h.placed trivial (.look (.yes (by simp [h.seen, starts]) ?_))
  refine .bind (h.advance .empty) ?_
  rintro m b₁ ⟨shown, faces⟩
  refine .bind (faces.modified (.inl rfl) m) ?_
  rintro _ _ ⟨rfl, rfl⟩
  have ends : EndsType (")" :: rest) := by
    intro w first
    obtain rfl : ")" = w := Option.some.inj first
    decide
  refine .bind (typeBody_reads held is read ends _ faces) ?_
  rintro p b₂ ⟨shown', faces⟩
  refine .bind (faces.expect (shown.add shown')) ?_
  rintro m b₃ ⟨shown, faces⟩
  exact goesOn m b₃ shown faces

theorem grouped_reads (held : part.isType = true) (is : Modest part type) (read : part.Read ts scope type)
    (id left right : Nat) :
    TypePart.Read ts scope (.mk id (.kind .typeRef) [] (inParentheses left right type)) .reference := by
  intro rest ends b h
  rw [words_grouped] at h
  rw [raw_grouped]
  have noArrow : rest.head? ≠ some "->" := fun first => absurd (ends _ first) (by decide)
  have noMark : rest.head? ≠ some "?" := fun first => absurd (ends _ first) (by decide)
  refine groupedType_reads held is read noArrow h fun m b₁ shown faces => ?_
  refine .look (.no (by simp [faces.unseen noMark]) ((shown.done (by simp)).mono ?_))
  rintro p b₂ ⟨shown, rfl⟩
  exact ⟨shown, faces⟩

theorem groupedNullable_reads (held : part.isType = true) (is : Modest part type) (read : part.Read ts scope type)
    (id nullable left right : Nat) : TypePart.Read ts scope (.mk id (.kind .typeRef) [] (one .type
      (.mk nullable (.kind .nullableType) [] (inParentheses left right type)))) .reference := by
  intro rest ends b h
  have whole : "(" :: type.words ++ [")", "?"] ++ rest = "(" :: type.words ++ [")"] ++ "?" :: rest := by simp
  rw [words_reference, words_groupedNullable, whole] at h
  rw [raw_reference, raw_groupedNullable]
  have noMark : rest.head? ≠ some "?" := fun first => absurd (ends _ first) (by decide)
  refine groupedType_reads held is read (by simp) h fun m b₁ shown faces => ?_
  refine .look (.yes (by simp [faces.seen, faces.adjacent]) (.bind (faces.advance shown) ?_))
  rintro m b₂ ⟨shown, faces⟩
  refine .bind (shown.done (by simp)) ?_
  rintro p b₃ ⟨shown, rfl⟩
  have once : Reads scope (nullableSuffix p) b₃ fun p' b' => p' = p ∧ b' = b₃ :=
    .look (.no (by simp [faces.unseen noMark]) (.pure ⟨rfl, rfl⟩))
  refine .bind once ?_
  rintro _ _ ⟨rfl, rfl⟩
  refine ((Marker.Shows.empty.add shown).done (by simp)).mono ?_
  rintro p b₅ ⟨shown, rfl⟩
  exact ⟨shown, faces⟩

/-! Arguments and parameters. -/

/-- What may stand in front of a type: a name that is no parameter's, or a parenthesis. -/
theorem Modest.begins (h : Modest part n) (held : part.isType = true ∨ part = .reference) (rest : List String) :
    NameFirst n.words rest ∨ ∃ vs, n.words = "(" :: vs := by
  have type {part : TypePart} {n : Node} (h : Modest part n) (held : part.isType = true) :
      NameFirst n.words rest ∨ ∃ vs, n.words = "(" :: vs := by
    cases h with
    | simple qualified is has => exact .inl ((Modest.simple qualified is has).nameFirst rfl rest)
    | nullable is => exact .inl ((Modest.nullable is).nameFirst rfl rest)
    | function takes _ =>
      obtain ⟨inside, words, _⟩ := takes.parameters_words
      rw [words_function, words]
      exact .inr ⟨_, rfl⟩
    | extension named is _ _ =>
      rw [words_extension, words_receiver, words_reference, List.append_assoc, List.append_assoc, List.singleton_append]
      exact .inl ((is.nameFirst named _).append (by decide))
    | _ => cases held
  cases h with
  | reference isType is =>
    rw [words_reference]
    exact type is isType
  | grouped _ _ =>
    rw [words_grouped]
    exact .inr ⟨_, rfl⟩
  | groupedNullable _ _ =>
    rw [words_reference, words_groupedNullable]
    exact .inr ⟨_, rfl⟩
  | simple qualified is has => exact type (.simple qualified is has) rfl
  | nullable is => exact type (.nullable is) rfl
  | function takes gives => exact type (.function takes gives) rfl
  | extension named is takes gives => exact type (.extension named is takes gives) rfl
  | _ => simp [TypePart.isType] at held

theorem star_reads (id : Nat) : TypePart.Read ts scope (.mk id (.kind .typeArg) [(.asterisk, .flag true)] []) .argument := by
  intro rest _ b h
  rw [words_star] at h
  rw [raw_star]
  refine .look (.yes h.seen (.bind (h.advance .empty) ?_))
  rintro m b₁ ⟨shown, faces⟩
  refine (shown.done (by simp)).mono ?_
  rintro p b₂ ⟨shown, rfl⟩
  exact ⟨shown, faces⟩

theorem argument_reads (is : Modest .reference type) (read : TypePart.Read ts scope type .reference) (id : Nat) :
    TypePart.Read ts scope (.mk id (.kind .typeArg) [(.asterisk, .flag false)] (one .typeRef type)) .argument := by
  intro rest ends b h
  rw [words_argument] at h
  rw [raw_argument]
  have star : b.sees "*" = false := by
    rcases is.begins (.inr rfl) rest with ⟨w, vs, whole, plain, _⟩ | ⟨vs, words⟩
    · rw [whole] at h
      refine h.unseen fun first => ?_
      obtain rfl : w = "*" := Option.some.inj first
      exact absurd plain (by decide)
    · rw [words] at h
      exact h.unseen (by simp)
  refine .look (.no (by simp [star]) (.bind (h.modified (.inr rfl) .empty) ?_))
  rintro _ _ ⟨rfl, rfl⟩
  refine .bind (read rest ends _ h) ?_
  rintro p b₁ ⟨shown, faces⟩
  refine ((Marker.Shows.empty.add shown).done (by simp)).mono ?_
  rintro p b₂ ⟨shown, rfl⟩
  exact ⟨shown, faces⟩

/-- The name of a parameter and its colon, if it has one. -/
theorem label_reads {label : Option Node} (named : ∀ n ∈ label, Modest .name n) (is : Modest .reference type)
    (ends : EndsType rest) (h : b.Faces ts (endedWords label ":" ++ type.words ++ rest)) :
    Reads scope (advanceTwiceIf (fun b => b.seesName && b.sees ":" 1) Marker.empty) b fun m b' =>
      m.Shows (label.toList.flatMap fun n => [n.raw, wordLeaf ":"]) ∧ b'.Faces ts (type.words ++ rest) := by
  cases label with
  | none =>
    rw [endedWords_none, List.nil_append] at h
    have unlabelled : (b.seesName && b.sees ":" 1) = false := by
      rcases is.begins (.inr rfl) rest with ⟨w, vs, whole, _, next⟩ | ⟨vs, words⟩
      · have other : vs[0]? ≠ some ":" := by
          rw [← List.head?_eq_getElem?]
          rintro first
          rcases next with rfl | ⟨v, first', sign⟩
          · exact absurd (ends _ first) (by decide)
          · obtain rfl : v = ":" := Option.some.inj (first'.symm.trans first)
            exact absurd sign (by decide)
        have second : b.sees ":" 1 = false := by
          rw [whole] at h
          exact (h.sees ":" 1).trans (beq_eq_false_iff_ne.mpr other)
        rw [second, Bool.and_false]
      · rw [words] at h
        have opens : b.seesName = false := h.seesName 0
        rw [opens, Bool.false_and]
    exact .look (.no (by simp [unlabelled]) (.pure ⟨.empty, h⟩))
  | some label =>
    obtain ⟨w, word, leaf, plain⟩ := (named label rfl).name_words
    rw [endedWords_some, word, List.append_assoc, List.append_assoc, List.singleton_append, List.singleton_append] at h
    have named : b.seesName = true := (h.seesName 0).trans (isIdentifier_of_isTypeName plain)
    have colon : b.sees ":" 1 = true := h.sees ":" 1
    refine .look (.yes (by simp [named, colon]) (.bind (h.advance .empty) ?_))
    rintro m b₁ ⟨shown, faces⟩
    refine (faces.advance shown).mono ?_
    rintro m b₂ ⟨shown, faces⟩
    refine ⟨?_, faces⟩
    simpa [leaf] using shown

theorem parameter_reads {label : Option Node} (named : ∀ n ∈ label, Modest .name n) (is : Modest .reference type)
    (read : TypePart.Read ts scope type .reference) (id : Nat) :
    TypePart.Read ts scope (.mk id (.kind .functionTypeParam) [] (opt .name label ++ one .typeRef type)) .parameter := by
  intro rest ends b h
  rw [words_parameter] at h
  rw [raw_parameter]
  refine .bind (label_reads named is ends h) ?_
  rintro m b₁ ⟨shown, faces⟩
  refine .bind (read rest ends b₁ faces) ?_
  rintro p b₂ ⟨shown', faces⟩
  refine ((shown.add shown').done (by simp)).mono ?_
  rintro p b₃ ⟨shown, rfl⟩
  exact ⟨shown, faces⟩

/-! All parts together. -/

theorem Modest.read (h : Modest part n) : part.Read ts scope n := by
  induction h with
  | name _ => trivial
  | @star id => exact star_reads id
  | @argument id _ is read => exact argument_reads is read id
  | arguments each reads =>
    intro rest b h
    rw [words_arguments] at h
    rw [raw_arguments]
    exact bracketed_reads (by decide) (fun a member => ⟨(each a member).phrase, reads a member⟩) .typeArgumentList h
  | @qualifier id _ _ is has _ reads => exact qualifier_read is has reads id
  | @simple id _ _ _ each is has reads _ lists =>
    exact namedType_reads (fun q member => ⟨each q member, reads q member⟩) is has lists id
  | @nullable id _ _ read => exact nullable_reads read id
  | @parameter id _ _ named is _ read => exact parameter_reads named is read id
  | parameters each reads =>
    intro rest b h
    rw [words_parameters] at h
    rw [raw_parameters]
    exact bracketed_reads (by decide) (fun p member => ⟨(each p member).phrase, reads p member⟩) .functionTypeParameterList h
  | @function id _ _ takes _ read gives => exact function_reads takes read gives id
  | @extension id receiver reference _ _ _ _ named is takes _ read read' gives =>
    exact extension_reads named is read takes read' gives id receiver reference
  | @reference id _ _ held is read => exact reference_reads held is read id
  | @grouped id left right _ _ held is read => exact grouped_reads held is read id left right
  | @groupedNullable id nullable left right _ _ held is read =>
    exact groupedNullable_reads held is read id nullable left right

/-- The words of a modest type are parsed as its raw tree, and all of them are taken. -/
theorem Modest.parse (h : Modest .reference n) (sited : (Builder.ofTokens ts).At ts (facing n.words)) :
    ∃ p s, run (apply (.typeReference false)) ts = .ok p s ∧ s.faults = [] ∧ s.builder.atEnd = true ∧ p.Shows n.raw := by
  have faces : (Builder.ofTokens ts).Faces ts (n.words ++ []) := by
    rw [List.append_nil]
    exact ⟨sited, h.phrase.row⟩
  have read : TypePart.Read ts {} n .reference := h.read
  have reads := read [] (by simp [EndsType]) (Builder.ofTokens ts) faces
  have applied : Reads {} (apply (.typeReference false)) (.ofTokens ts) fun p b' => p.Shows n.raw ∧ b'.Faces ts [] := by
    have applies : Rule.Applies (Builder.ofTokens ts) (.typeReference false) := trivial
    apply Reads.apply faces.placed applies
    unfold Reads at reads ⊢
    rwa [whole_unfold faces.placed applies] at reads
  obtain ⟨p, s, ran, sound, shown, ended⟩ := applied.run
  exact ⟨p, s, ran, sound, by rw [ended.sited.atEnd]; rfl, shown⟩

end KotlinSyntax
