import KotlinSyntax.Proofs.Types.Conversion
import KotlinSyntax.Proofs.Types.Parsing

/-! Converting a type. What the raw tree of each part of a modest type is read as holds the same as that part. -/
namespace KotlinSyntax

open Conversion

namespace TypePart

/-- The kind of raw node that stands for the part. Names are leaves. -/
def kind? : TypePart → Option RawKind
  | .name => none
  | .argument => some .typeProjection
  | .arguments => some .typeArgumentList
  | .qualifier => some .typeQualifier
  | .simple => some .userType
  | .nullable => some .nullableType
  | .parameter => some .functionTypeParameter
  | .parameters => some .functionTypeParameterList
  | .function => some .functionType
  | .reference => some .typeReference

def goal : TypePart → Goal
  | .name => .expression
  | .simple | .nullable | .function => .type
  | .argument | .arguments | .qualifier | .parameter | .parameters | .reference => .part

end TypePart

variable {part : TypePart} {n name type params result : Node} {args : Option Node} {ns qualifiers : List Node}
  {es : List RawElement} {items : List Item} {o : Owner} {kind : RawKind}

theorem Modest.rawKind (h : Modest part n) : nodeKind? n.raw = part.kind? := by
  cases h <;> rfl

theorem Modest.name_text (h : Modest .name n) : ∃ id text, n = .mk id (.kind .nameExpression) [(.text, .text text)] [] ∧
    Lexer.isIdentifier text = true := by
  cases h with
  | @name id text is =>
    simp only [isTypeName, Bool.and_eq_true] at is
    exact ⟨id, text, rfl, is.1⟩

/-! Arguments. -/

theorem star_becomes (id : Nat) : Becomes .part (.mk id (.kind .typeArg) [(.asterisk, .flag true)] []) := by
  apply becomes_of_rule (raw_star id) fun _ _ _ => rfl
  intro o items h
  refine .bind h.skip ?_
  rintro _ items ⟨rfl, h⟩
  rw [h.eq_nil]
  exact finish_obtains (fun _ => rfl) fun _ => rfl

theorem argument_becomes (is : Modest .reference type) (reads : Becomes .part type) (id : Nat) :
    Becomes .part (.mk id (.kind .typeArg) [(.asterisk, .flag false)] (one .typeRef type)) := by
  apply becomes_of_rule (raw_argument id type) fun _ _ _ => rfl
  intro o items h
  refine .bind (h.noSkip (h.seesNone is.rawKind)) ?_
  rintro _ items ⟨rfl, h⟩
  refine .bind (h.noPart ((h.node is.rawKind).trans rfl)) ?_
  rintro _ items ⟨rfl, h⟩
  refine .bind (h.part is.rawKind reads) ?_
  rintro type' items ⟨same, h⟩
  rw [h.eq_nil]
  refine finish_obtains (fun _ => rfl) fun _ => ?_
  simp [Node.unnumbered, opt, same]

theorem arguments_becomes (each : ∀ a ∈ ns, Modest .argument a) (reads : ∀ a ∈ ns, Becomes .part a) (id : Nat) :
    Becomes .part (.mk id (.kind .typeArgs) [] (many .elements ns)) := by
  apply becomes_of_rule (raw_arguments id ns) fun _ _ _ => rfl
  intro o items h
  exact list_obtains (fun _ _ => rfl) (by decide) (fun a member => ⟨(each a member).rawKind, reads a member⟩) h

/-! Named types. -/

/-- A name with its arguments. -/
theorem named_obtains {Q : Node → Prop} (is : Modest .name name)
    (has : ∀ list ∈ args, Modest .arguments list) (reads : ∀ list ∈ args, Becomes .part list)
    (h : Along items (name.raw :: args.toList.map Node.raw)) {f : Node → Option Node → Reading Node}
    (next : ∀ name' args', name'.unnumbered = name.unnumbered → args'.map Node.unnumbered = args.map Node.unnumbered →
      Obtains (f name' args') o [] fun m _ => Q m) :
    Obtains (do let n ← Conversion.name; let args ← optionalPart .typeArgumentList; f n args) o items fun m _ => Q m := by
  obtain ⟨id, text, rfl, known⟩ := is.name_text
  rw [raw_name] at h
  refine .bind (h.name known) ?_
  rintro name' items ⟨same, h⟩
  rw [← List.append_nil (args.toList.map Node.raw)] at h
  refine .bind (h.optionalPart (fun list member => ⟨(has list member).rawKind, reads list member⟩) ?_) ?_
  · intro items' none
    rw [Along.eq_nil none]
    rfl
  · rintro args' items ⟨sames, h⟩
    rw [h.eq_nil]
    exact next name' args' same sames

theorem qualifier_becomes (is : Modest .name name) (has : ∀ list ∈ args, Modest .arguments list)
    (reads : ∀ list ∈ args, Becomes .part list) (id : Nat) :
    Becomes .part (.mk id (.kind .simpleTypeQualifier) [] (one .name name ++ opt .typeArgs args)) := by
  apply becomes_of_rule (raw_qualifier id name args) fun _ _ _ => rfl
  intro o items h
  apply named_obtains is has reads h
  intro name' args' same sames
  refine finish_obtains (fun _ => rfl) fun _ => ?_
  simp [Node.unnumbered, same, sames]

theorem qualifiers_obtain (each : ∀ q ∈ qualifiers, Modest .qualifier q) (reads : ∀ q ∈ qualifiers, Becomes .part q)
    {w : String} {rounds : Nat} (enough : qualifiers.length < rounds)
    (h : Along items (qualifiers.flatMap (fun q => [q.raw, wordLeaf "."]) ++ wordLeaf w :: es)) :
    Obtains (whileSees.rounds (seesNode .typeQualifier) (do
        let qualifier ← Conversion.part .typeQualifier
        let _ ← token "."
        return qualifier) rounds) o items
      fun qs items' => qs.map Node.unnumbered = qualifiers.map Node.unnumbered ∧ Along items' (wordLeaf w :: es) := by
  induction qualifiers generalizing items rounds with
  | nil =>
    obtain ⟨rounds, rfl⟩ : ∃ r, rounds = r + 1 := ⟨rounds - 1, by omega⟩
    exact .rest (.no (by simp [Along.noNode h]) (.pure ⟨rfl, h⟩))
  | cons q qualifiers ih =>
    obtain ⟨rounds, rfl⟩ : ∃ r, rounds = r + 1 := ⟨rounds - 1, by omega⟩
    rw [List.length_cons] at enough
    obtain ⟨is, each⟩ := List.forall_mem_cons.mp each
    obtain ⟨read, reads⟩ := List.forall_mem_cons.mp reads
    refine .rest (.yes ((Along.node h is.rawKind).trans rfl) ?_)
    refine .bind (R := fun q' items' => q'.unnumbered = q.unnumbered ∧ Along items'
      (qualifiers.flatMap (fun q => [q.raw, wordLeaf "."]) ++ wordLeaf w :: es)) (.bind (Along.part h is.rawKind read) ?_) ?_
    · rintro q' items' ⟨same, h⟩
      refine .bind (Along.token h) ?_
      rintro _ items' ⟨_, h⟩
      exact .pure ⟨same, h⟩
    · rintro q' items' ⟨same, h⟩
      refine .bind (ih each reads (by omega) h) ?_
      rintro qs items' ⟨sames, h⟩
      exact .pure ⟨congrArg₂ List.cons same sames, h⟩

theorem simple_becomes (each : ∀ q ∈ qualifiers, Modest .qualifier q) (reads : ∀ q ∈ qualifiers, Becomes .part q)
    (is : Modest .name name) (has : ∀ list ∈ args, Modest .arguments list) (lists : ∀ list ∈ args, Becomes .part list)
    (id : Nat) : Becomes .type (.mk id (.kind .simpleType) []
      (many .qualifiers qualifiers ++ one .name name ++ opt .typeArgs args)) := by
  apply becomes_of_rule (raw_simple id name args qualifiers) fun _ _ _ => rfl
  intro o items h
  obtain ⟨nameId, text, rfl, _⟩ := is.name_text
  rw [raw_name] at h
  have enough : qualifiers.length < items.length + 1 := by
    have all := h.length_eq
    simp at all
    omega
  refine .bind (.rest (qualifiers_obtain each reads enough h)) ?_
  rintro qs items ⟨sames, h⟩
  rw [← raw_name nameId] at h
  apply named_obtains is has lists h
  intro name' args' same sames'
  refine finish_obtains (fun _ => rfl) fun _ => ?_
  simp [Node.unnumbered, same, sames, sames']

/-! Types in parentheses or without them. -/

theorem TypePart.goal_of_isType (held : part.isType = true) : part.goal = .type := by
  cases part <;> first | rfl | cases held

theorem TypePart.isType_of_isNamed (named : part.isNamed = true) : part.isType = true := by
  cases part <;> first | rfl | cases named

theorem TypePart.kind_of_isType (held : part.isType = true) : ∃ kind, part.kind? = some kind ∧ kind ≠ .modifierList := by
  cases part with
  | simple | nullable | function => exact ⟨_, rfl, by decide⟩
  | _ => cases held

section

variable (held : part.isType = true) (is : nodeKind? type.raw = part.kind?) (reads : Becomes .type type)

include held is reads

theorem bare_obtains (h : Along items (type.raw :: es)) (behind : ∀ items', Along items' es → seesToken ")" 0 items' = false) :
    Obtains groupedType o items fun parts items' =>
      (∃ type', parts = one .type type' ∧ type'.unnumbered = type.unnumbered) ∧ Along items' es := by
  obtain ⟨kind, known, other⟩ := TypePart.kind_of_isType held
  have known : nodeKind? type.raw = some kind := is.trans known
  refine .bind (h.noKeyword (h.seesNone known)) ?_
  rintro _ items ⟨rfl, h⟩
  refine .bind (h.noPart ((h.node known).trans (beq_eq_false_iff_ne.mpr other))) ?_
  rintro _ items ⟨rfl, h⟩
  refine .bind (h.nextAs reads) ?_
  rintro type' items ⟨same, h⟩
  refine .bind (h.noKeyword (behind items h)) ?_
  rintro _ items ⟨rfl, h⟩
  exact .pure ⟨⟨type', by simp [opt], same⟩, h⟩

theorem grouped_obtains (left right : Nat) (h : Along items (wordLeaf "(" :: type.raw :: wordLeaf ")" :: es)) :
    Obtains groupedType o items fun parts items' =>
      (∃ l type' r, parts = one .lPar l ++ one .type type' ++ one .rPar r) ∧
        Node.unnumberedAll parts = Node.unnumberedAll (inParentheses left right type) ∧ Along items' es := by
  obtain ⟨kind, known, other⟩ := TypePart.kind_of_isType held
  have known : nodeKind? type.raw = some kind := is.trans known
  refine .bind h.optionalKeyword ?_
  rintro l items ⟨opened, h⟩
  obtain ⟨l, rfl, opens⟩ := Option.map_eq_some_iff.mp opened
  refine .bind (h.noPart ((h.node known).trans (beq_eq_false_iff_ne.mpr other))) ?_
  rintro _ items ⟨rfl, h⟩
  refine .bind (h.nextAs reads) ?_
  rintro type' items ⟨same, h⟩
  refine .bind h.optionalKeyword ?_
  rintro r items ⟨closed, h⟩
  obtain ⟨r, rfl, closes⟩ := Option.map_eq_some_iff.mp closed
  refine .pure ⟨⟨l, type', r, by simp [opt, one]⟩, ?_, h⟩
  simp [inParentheses, opt, one, Node.unnumbered, Node.unnumberedAll, opens, same, closes]

theorem reference_becomes (id : Nat) : Becomes .part (.mk id (.kind .typeRef) [] (one .type type)) := by
  apply becomes_of_rule (raw_reference id type) fun _ _ _ => rfl
  intro o items h
  refine .bind (bare_obtains held is reads h ?_) ?_
  · intro items' none
    rw [Along.eq_nil none]
    rfl
  · rintro _ items ⟨⟨type', rfl, same⟩, h⟩
    rw [h.eq_nil]
    refine finish_obtains (fun _ => rfl) fun _ => ?_
    simp [Node.unnumbered, same]

theorem grouped_becomes (id left right : Nat) : Becomes .part (.mk id (.kind .typeRef) [] (inParentheses left right type)) := by
  apply becomes_of_rule (raw_grouped id left right type) fun _ _ _ => rfl
  intro o items h
  refine .bind (grouped_obtains held is reads left right h) ?_
  rintro _ items ⟨⟨l, type', r, rfl⟩, same, h⟩
  rw [h.eq_nil]
  refine finish_obtains (fun _ => rfl) fun _ => ?_
  rw [Node.unnumbered, same, Node.unnumbered]

theorem groupedNullable_becomes (id left right : Nat) :
    Becomes .type (.mk id (.kind .nullableType) [] (inParentheses left right type)) := by
  apply becomes_of_rule (raw_groupedNullable id left right type) fun _ _ _ => rfl
  intro o items h
  refine .bind (grouped_obtains held is reads left right h) ?_
  rintro _ items ⟨⟨l, type', r, rfl⟩, same, h⟩
  refine .bind h.token ?_
  rintro _ items ⟨_, h⟩
  rw [h.eq_nil]
  refine finish_obtains (fun _ => rfl) fun _ => ?_
  rw [Node.unnumbered, same, Node.unnumbered]

theorem nullable_becomes (id : Nat) : Becomes .type (.mk id (.kind .nullableType) [] (one .type type)) := by
  apply becomes_of_rule (raw_nullable id type) fun _ _ _ => rfl
  intro o items h
  refine .bind (bare_obtains held is reads h fun _ h => h.sees.trans rfl) ?_
  rintro _ items ⟨⟨type', rfl, same⟩, h⟩
  refine .bind h.token ?_
  rintro _ items ⟨_, h⟩
  rw [h.eq_nil]
  refine finish_obtains (fun _ => rfl) fun _ => ?_
  simp [Node.unnumbered, same]

end

/-! Function types. -/

theorem label_obtains {label : Option Node} (named : ∀ n ∈ label, Modest .name n)
    (h : Along items (label.toList.flatMap (fun n => [n.raw, wordLeaf ":"]) ++ [type.raw])) :
    Obtains (onlyIf (seesToken ":" 1 items) Conversion.name) o items fun n items' =>
      n.map Node.unnumbered = label.map Node.unnumbered ∧ ∀ o', Obtains (tokenIf (seesToken ":" 1 items) ":") o' items'
        fun _ items'' => Along items'' [type.raw] := by
  cases label with
  | none =>
    have unseen : seesToken ":" 1 items = false := by
      obtain ⟨i, items', rfl, _, behind⟩ := Along.head h
      rw [behind.eq_nil]
      rfl
    exact .notDue unseen ⟨rfl, fun _ => Along.tokenNotDue h unseen⟩
  | some n =>
    obtain ⟨id, text, rfl, known⟩ := (named n rfl).name_text
    have h : Along items (wordLeaf text :: wordLeaf ":" :: [type.raw]) := by
      rw [← raw_name id]
      exact h
    have seen := h.seesSecond
    refine .due seen ((h.name known).mono ?_)
    rintro m items' ⟨same, behind⟩
    exact ⟨congrArg some same, fun _ => behind.tokenDue seen⟩

theorem parameter_becomes {label : Option Node} (named : ∀ n ∈ label, Modest .name n) (is : Modest .reference type)
    (reads : Becomes .part type) (id : Nat) :
    Becomes .part (.mk id (.kind .functionTypeParam) [] (opt .name label ++ one .typeRef type)) := by
  apply becomes_of_rule (raw_parameter id type label) fun _ _ _ => rfl
  intro o items h
  refine .rest (.bind (label_obtains named h) ?_)
  rintro n items' ⟨same, colon⟩
  refine .bind (colon o) ?_
  rintro _ items' h
  refine .bind (h.part is.rawKind reads) ?_
  rintro type' items' ⟨same', h⟩
  rw [h.eq_nil]
  refine finish_obtains (fun _ => rfl) fun _ => ?_
  simp [Node.unnumbered, same, same']

theorem parameters_becomes (each : ∀ p ∈ ns, Modest .parameter p) (reads : ∀ p ∈ ns, Becomes .part p) (id : Nat) :
    Becomes .part (.mk id (.kind .functionTypeParams) [] (many .elements ns)) := by
  apply becomes_of_rule (raw_parameters id ns) fun _ _ _ => rfl
  intro o items h
  exact list_obtains (fun _ _ => rfl) (by decide) (fun p member => ⟨(each p member).rawKind, reads p member⟩) h

theorem receiver_becomes (is : nodeKind? type.raw = some .typeReference) (reads : Becomes .part type) (id : Nat) :
    Becomes .part (.mk id (.kind .functionTypeReceiver) [] (one .typeRef type)) := by
  apply becomes_of_rule (raw_receiver id type) fun _ _ _ => rfl
  intro o items h
  refine .bind (h.part is reads) ?_
  rintro type' items ⟨same, h⟩
  refine .bind h.token ?_
  rintro _ items ⟨_, h⟩
  rw [h.eq_nil]
  refine finish_obtains (fun _ => rfl) fun _ => ?_
  simp [Node.unnumbered, same]

/-- The rule of function types, whose receiver may be missing. -/
theorem function_obtains (receiver : Option Node)
    (received : ∀ r ∈ receiver, nodeKind? r.raw = some .functionTypeReceiver ∧ Becomes .part r)
    (takes : Modest .parameters params) (reads : Becomes .part params)
    (gives : Modest .reference result) (reads' : Becomes .part result)
    (h : Along items (receiver.toList.map Node.raw ++ [params.raw, wordLeaf "->", result.raw])) :
    Obtains functionType o items fun m _ => m.unnumbered = (Node.mk 0 (.kind .functionType) []
      (opt .functionTypeReceiver receiver ++ one .params params ++ one .returnTypeRef result)).unnumbered := by
  have unseen : seesNode .contextReceiverList items = false := by
    cases receiver with
    | none => exact (Along.node h takes.rawKind).trans rfl
    | some r => exact (Along.node h (received r rfl).1).trans rfl
  refine .bind (Along.noPart h unseen) ?_
  rintro _ items ⟨rfl, h⟩
  refine .bind (h.optionalPart received fun _ h => (h.node takes.rawKind).trans rfl) ?_
  rintro r items ⟨same, h⟩
  refine .bind (h.part takes.rawKind reads) ?_
  rintro p items ⟨same', h⟩
  refine .bind h.token ?_
  rintro _ items ⟨_, h⟩
  refine .bind (h.part gives.rawKind reads') ?_
  rintro t items ⟨same'', h⟩
  rw [h.eq_nil]
  refine finish_obtains (fun _ => rfl) fun _ => ?_
  simp [Node.unnumbered, same, same', same'']
  rfl

theorem function_becomes (takes : Modest .parameters params) (reads : Becomes .part params)
    (gives : Modest .reference result) (reads' : Becomes .part result) (id : Nat) :
    Becomes .type (.mk id (.kind .functionType) [] (one .params params ++ one .returnTypeRef result)) := by
  apply becomes_of_rule (raw_function id params result) fun _ _ _ => rfl
  intro o items h
  exact function_obtains none nofun takes reads gives reads' h

theorem extension_becomes (held : part.isType = true) (is : nodeKind? type.raw = part.kind?) (read : Becomes .type type)
    (takes : Modest .parameters params) (reads : Becomes .part params) (gives : Modest .reference result)
    (reads' : Becomes .part result) (id receiver reference : Nat) :
    Becomes .type (.mk id (.kind .functionType) [] (one .functionTypeReceiver
      (.mk receiver (.kind .functionTypeReceiver) [] (one .typeRef
        (.mk reference (.kind .typeRef) [] (one .type type)))) ++ one .params params ++ one .returnTypeRef result)) := by
  apply becomes_of_rule (raw_extension id _ params result) fun _ _ _ => rfl
  intro o items h
  refine function_obtains (some _) ?_ takes reads gives reads' h
  intro r given
  cases Option.mem_some.mp given
  exact ⟨rfl, receiver_becomes rfl (reference_becomes held is read reference) receiver⟩

/-! All parts together. -/

theorem name_becomes {text : String} (is : isTypeName text = true) (id : Nat) :
    Becomes .expression (.mk id (.kind .nameExpression) [(.text, .text text)] []) := by
  have name := isIdentifier_of_isTypeName is
  have leaf : wordLeaf text = .leaf ⟨⟨.identifier, 0, 0, text⟩, false⟩ := by
    rw [wordLeaf, wordToken, if_pos name]
  rw [Becomes, raw_name, leaf]
  intro i h
  refine (isReadAs_name name i h).mono ?_
  rintro _ ⟨_, rfl⟩
  rfl

theorem Modest.becomes (h : Modest part n) : Becomes part.goal n := by
  induction h with
  | @name id text is => exact name_becomes is id
  | @star id => exact star_becomes id
  | @argument id _ is read => exact argument_becomes is read id
  | @arguments id _ each reads => exact arguments_becomes each reads id
  | @qualifier id _ _ is has _ reads => exact qualifier_becomes is has reads id
  | @simple id _ _ _ each is has reads _ lists => exact simple_becomes each reads is has lists id
  | @nullable id _ is read => exact nullable_becomes rfl is.rawKind read id
  | @parameter id _ _ named is _ read => exact parameter_becomes named is read id
  | @parameters id _ each reads => exact parameters_becomes each reads id
  | @function id _ _ takes gives read read' => exact function_becomes takes read gives read' id
  | @extension id receiver reference _ _ _ _ named is takes gives read read' read'' =>
    have held := TypePart.isType_of_isNamed named
    rw [TypePart.goal_of_isType held] at read
    exact extension_becomes held is.rawKind read takes read' gives read'' id receiver reference
  | @reference id _ _ held is read =>
    rw [TypePart.goal_of_isType held] at read
    exact reference_becomes held is.rawKind read id
  | @grouped id left right _ _ held is read =>
    rw [TypePart.goal_of_isType held] at read
    exact grouped_becomes held is.rawKind read id left right
  | @groupedNullable id nullable left right _ _ held is read =>
    rw [TypePart.goal_of_isType held] at read
    have inner := groupedNullable_becomes held is.rawKind read nullable left right
    have whole : TypePart.isType .nullable = true := rfl
    exact reference_becomes whole rfl inner id

end KotlinSyntax
