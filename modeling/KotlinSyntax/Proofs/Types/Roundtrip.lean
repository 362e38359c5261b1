import KotlinSyntax.Proofs.Types.Converting

/-! Types that return. What is written of a modest type is parsed and converted to a type that holds the same. -/
namespace KotlinSyntax

open Conversion (one opt many)

/-- A modest type comes back from its text: every token of it is taken, nothing is wrong, and beside the numbers the
tree is the one that was written. -/
theorem Modest.returns_from_text {n : Node} (h : Modest .reference n) : ∃ text tokens p s t s',
    ({} : Writer).write n = .ok text ∧ Lexer.tokenize text = .ok tokens ∧
      Grammar.run (Grammar.apply (.typeReference false)) tokens = .ok p s ∧ s.faults = [] ∧ s.builder.atEnd = true ∧
        Conversion.convert 0 p.element .part {} = .ok t s' ∧ t.unnumbered = n.unnumbered := by
  obtain ⟨tokens, lexed, sited⟩ := h.tokenize
  obtain ⟨p, s, ran, sound, ended, shown⟩ := h.parse sited
  have presents : Conversion.Presents ⟨⟨0, p.element⟩, Conversion.convert 0 p.element⟩ n.raw := by
    constructor
    · exact shown.element_bare
    · intro l member
      exact shown.known l (by rw [Marker.leaves_ofParsed]; exact List.mem_append_right _ member)
    · rfl
  obtain ⟨t, s', converted, same⟩ := h.becomes _ presents {}
  exact ⟨_, tokens, p, s, t, s', h.write, lexed, ran, sound, ended, converted, same⟩

/-- The type `a.b<*, C?>.(x: D, (E)) -> (F<G>?)?`. -/
def functionTower : Node :=
  let word (text : String) := Node.mk 0 (.kind .nameExpression) [(.text, .text text)] []
  let plain (text : String) (args : Option Node) :=
    Node.mk 0 (.kind .simpleType) [] (many .qualifiers [] ++ one .name (word text) ++ opt .typeArgs args)
  let reference (type : Node) := Node.mk 0 (.kind .typeRef) [] (one .type type)
  let argument (type : Node) := Node.mk 0 (.kind .typeArg) [(.asterisk, .flag false)] (one .typeRef (reference type))
  let nullable (type : Node) := Node.mk 0 (.kind .nullableType) [] (one .type type)
  let parameter (name : Option Node) (type : Node) :=
    Node.mk 0 (.kind .functionTypeParam) [] (opt .name name ++ one .typeRef type)
  let qualifier := Node.mk 0 (.kind .simpleTypeQualifier) [] (one .name (word "a") ++ opt .typeArgs none)
  let arguments := Node.mk 0 (.kind .typeArgs) [] (many .elements
    [.mk 0 (.kind .typeArg) [(.asterisk, .flag true)] [], argument (nullable (plain "C" none))])
  let receiver := Node.mk 0 (.kind .simpleType) []
    (many .qualifiers [qualifier] ++ one .name (word "b") ++ opt .typeArgs (some arguments))
  let params := Node.mk 0 (.kind .functionTypeParams) [] (many .elements
    [parameter (some (word "x")) (reference (plain "D" none)),
      parameter none (.mk 0 (.kind .typeRef) [] (inParentheses 0 0 (plain "E" none)))])
  let result := nullable (plain "F" (some (.mk 0 (.kind .typeArgs) [] (many .elements [argument (plain "G" none)]))))
  reference (.mk 0 (.kind .functionType) [] (one .functionTypeReceiver
    (.mk 0 (.kind .functionTypeReceiver) [] (one .typeRef (reference receiver))) ++ one .params params ++
      one .returnTypeRef (reference (.mk 0 (.kind .nullableType) [] (inParentheses 0 0 result)))))

theorem functionTower_modest : Modest .reference functionTower := by
  have simple : TypePart.isType .simple = true := rfl
  have nullable : TypePart.isType .nullable = true := rfl
  have function : TypePart.isType .function = true := rfl
  have extended : TypePart.isNamed .simple = true := rfl
  have a : isTypeName "a" = true := by decide
  have b : isTypeName "b" = true := by decide
  have x : isTypeName "x" = true := by decide
  have C : isTypeName "C" = true := by decide
  have D : isTypeName "D" = true := by decide
  have E : isTypeName "E" = true := by decide
  have F : isTypeName "F" = true := by decide
  have G : isTypeName "G" = true := by decide
  have absent {part : TypePart} : ∀ m ∈ (none : Option Node), Modest part m := nofun
  have given {part : TypePart} {n : Node} (is : Modest part n) : ∀ m ∈ some n, Modest part m := by simpa using is
  have single {part : TypePart} {n : Node} (is : Modest part n) : ∀ m ∈ [n], Modest part m := by simpa using is
  have plain {text : String} (is : isTypeName text = true) : Modest .simple (.mk 0 (.kind .simpleType) []
      (many .qualifiers [] ++ one .name (.mk 0 (.kind .nameExpression) [(.text, .text text)] []) ++ opt .typeArgs none)) :=
    .simple nofun (.name is) absent
  refine .reference function (.extension extended ?receiver ?params (.groupedNullable nullable ?result))
  case receiver =>
    exact .simple (single (.qualifier (.name a) absent)) (.name b) (given (.arguments
      (List.forall_mem_cons.mpr ⟨.star, single (.argument (.reference nullable (.nullable (plain C))))⟩)))
  case params =>
    exact .parameters (List.forall_mem_cons.mpr ⟨.parameter (given (.name x)) (.reference simple (plain D)),
      single (.parameter absent (.grouped simple (plain E)))⟩)
  case result =>
    exact .nullable (.simple nofun (.name F) (given (.arguments (single (.argument (.reference simple (plain G)))))))

theorem functionTower_returns_from_text : ({} : Writer).write functionTower = .ok "a.b<*,C?>.(x:D,(E))->(F<G>?)?" ∧
    ∃ text tokens p s t s', ({} : Writer).write functionTower = .ok text ∧ Lexer.tokenize text = .ok tokens ∧
      Grammar.run (Grammar.apply (.typeReference false)) tokens = .ok p s ∧ s.faults = [] ∧ s.builder.atEnd = true ∧
        Conversion.convert 0 p.element .part {} = .ok t s' ∧ t.unnumbered = functionTower.unnumbered := by
  constructor
  · rw [functionTower_modest.write]
    decide +kernel
  · exact functionTower_modest.returns_from_text

end KotlinSyntax
