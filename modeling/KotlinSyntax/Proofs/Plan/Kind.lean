import KotlinSyntax.Proofs.Plan

/-! The plan of each kind of raw node. -/
namespace KotlinSyntax

namespace Plan

/-! Cells that many plans share. -/

def wordsCell (texts : List String) : Cell := { texts }

def nodesCell (kinds : List RawKind) : Cell := { nodes := kinds }

def nameCell : Cell := { name := true }

/-- Kinds that stand for a value. Blocks are among them, since a branch may be one, and so are declarations, since
an object, a function or the subject of a choice may be declared where a value stands. -/
def operandKinds : List RawKind := [
  .ifExpression, .tryExpression, .forLoop, .whileLoop, .doWhileLoop, .binaryExpression, .infixExpression,
  .binaryWithType, .prefixExpression, .postfixExpression, .callableReferenceExpression, .classLiteralExpression,
  .parenthesized, .stringTemplate, .lambdaExpression, .thisExpression, .superExpression, .whenExpression,
  .throwExpression, .returnExpression, .continueExpression, .breakExpression, .collectionLiteralExpression,
  .labeledExpression, .annotatedExpression, .callExpression, .arrayAccessExpression, .block, .function,
  .classDeclaration, .property, .unsupported]

def operandCell : Cell := { value := true, nodes := operandKinds }

def statementCell : Cell := { value := true, nodes := .typeAlias :: operandKinds }

def declarationCell : Cell :=
  nodesCell [.classDeclaration, .function, .property, .typeAlias, .classInitializer, .secondaryConstructor]

def typeCell : Cell := nodesCell [.userType, .nullableType, .functionType, .dynamicType, .unsupported]

def classParentCell : Cell := nodesCell [.superTypeCall, .delegatedSuperType, .superType]

/-- A type in front of two colons has arguments; any other receiver is a value. -/
def receiverCell : Cell := { value := true, nodes := .userType :: operandKinds }

def stringPartCell : Cell := { kinds := [.stringText, .escapeSequence], nodes := [.shortTemplate, .longTemplate] }

def Cell.orComma (c : Cell) : Cell := { c with texts := "," :: c.texts }

/-! Terms that many plans share. -/

abbrev word (text : String) : Term := .cell (wordsCell [text])

abbrev words (texts : List String) : Term := .cell (wordsCell texts)

abbrev node (kind : RawKind) : Term := .cell (nodesCell [kind])

abbrev name : Term := .cell nameCell

abbrev operand : Term := .cell operandCell

/-- Parts and commas, if there are any. A part comes first. -/
abbrev items (c : Cell) : Term := opt [.cell c, .many [.cell (Cell.orComma c)]]

abbrev modifiers : Term := opt [node .modifierList]

abbrev typeParameters : Term := opt [node .typeParameterList]

abbrev typeArguments : Term := opt [node .typeArgumentList]

abbrev type : Term := opt [word ":", node .typeReference]

abbrev extended : Term := opt [node .typeReference, word "."]

abbrev label : Term := opt [word "@", name]

abbrev assigned : Plan := [word "=", operand]

abbrev bodied : Term := .either assigned [node .block]

abbrev body : Term := .either assigned [opt [node .block]]

/-- A type that may stand in parentheses and have modifiers. -/
abbrev grouped : Term := .either [word "(", modifiers, .cell typeCell, word ")"] [modifiers, .cell typeCell]

def list (opening closing : String) (item : RawKind) : Plan := [word opening, items (nodesCell [item]), word closing]

/-- The parts of the nodes of a kind. -/
def ofKind : RawKind → Plan
  | .file => [
    .many [node .annotationSet], opt [node .packageDirective], opt [node .importList], .many [.cell declarationCell]]
  | .script => [
    .many [node .annotationSet], opt [node .packageDirective], opt [node .importList], .many [.cell statementCell]]
  | .packageDirective => [word "package", name, .many [word ".", name]]
  | .importList => [.many [node .importDirective]]
  | .importDirective => [
    word "import", name, .many [word ".", name], opt [word ".", word "*"], opt [node .importAlias]]
  | .importAlias => [word "as", name]
  | .classDeclaration => [
    modifiers, words Keyword.classKinds, opt [name], typeParameters, opt [node .primaryConstructor],
    opt [node .superTypeList], opt [node .typeConstraintSet], opt [node .classBody]]
  | .superTypeList => [word ":", .cell classParentCell, .many [word ",", .cell classParentCell]]
  | .superTypeCall => [node .userType, node .valueArgumentList]
  | .delegatedSuperType => [node .userType, word "by", operand]
  | .superType => [node .userType]
  | .primaryConstructor => [modifiers, opt [word "constructor"], node .valueParameterList]
  | .classBody => [
    word "\x7b", .many [node .enumEntry, word ","], opt [node .enumEntry], .many [.cell declarationCell], word "\x7d"]
  | .enumEntry => [modifiers, name, opt [node .valueArgumentList], opt [node .classBody]]
  | .classInitializer => [modifiers, word "init", node .block]
  | .function => [
    modifiers, word "fun", typeParameters, extended, opt [name], node .valueParameterList, type,
    .many [.cell (nodesCell [.typeConstraintSet, .contract])], body]
  | .valueParameterList => list "(" ")" .valueParameter
  | .valueParameter => [modifiers, opt [words Keyword.valOrVar], name, type, opt assigned]
  | .property => [
    modifiers, words Keyword.valOrVar, typeParameters, extended,
    .either [word "(", items (nodesCell [.destructuringEntry]), word ")"] [name, type],
    opt [node .typeConstraintSet], .either assigned [opt [node .propertyDelegate]],
    .many [.cell (nodesCell [.propertyGetter, .propertySetter])]]
  | .propertyDelegate => [word "by", operand]
  | .propertyGetter => [modifiers, word "get", opt [word "(", word ")", type, bodied]]
  | .propertySetter => [modifiers, word "set", opt [node .valueParameterList, bodied]]
  | .destructuringEntry => [name, type]
  | .typeAlias => [modifiers, word "typealias", name, typeParameters, word "=", node .typeReference]
  | .secondaryConstructor => [
    modifiers, word "constructor", node .valueParameterList, opt [word ":", node .delegationCall], opt [node .block]]
  | .delegationCall => [words Keyword.delegationTargets, node .valueArgumentList]
  | .typeParameterList => list "<" ">" .typeParameter
  | .typeParameter => [modifiers, name, type]
  | .typeConstraintSet => [word "where", node .typeConstraintList]
  | .typeConstraintList => [items (nodesCell [.typeConstraint])]
  | .typeConstraint => [.many [node .annotationSet], name, word ":", node .typeReference]
  | .contract => [word "contract", node .contractEffectList]
  | .contractEffectList => list "[" "]" .contractEffect
  | .contractEffect => [operand]
  | .typeReference => [grouped]
  | .userType => [.many [node .typeQualifier, word "."], name, typeArguments]
  | .typeQualifier => [name, typeArguments]
  | .nullableType => [grouped, word "?"]
  | .functionType => [
    opt [node .contextReceiverList], opt [node .functionTypeReceiver], node .functionTypeParameterList, word "->",
    node .typeReference]
  | .functionTypeReceiver => [node .typeReference, word "."]
  | .functionTypeParameterList => list "(" ")" .functionTypeParameter
  | .functionTypeParameter => [opt [name, word ":"], node .typeReference]
  | .contextReceiverList => word "context" :: list "(" ")" .contextReceiver
  | .contextReceiver => [node .typeReference]
  | .dynamicType => [word "dynamic"]
  | .typeArgumentList => list "<" ">" .typeProjection
  | .typeProjection => [.either [word "*"] [modifiers, node .typeReference]]
  | .modifierList => [.many [.cell { texts := Keyword.modifiers, nodes := [.annotationSet] }]]
  | .annotationSet => [
    word "@", opt [words Keyword.annotationTargets, word ":"], opt [word "["], .many [node .annotationEntry],
    opt [word "]"]]
  | .annotationEntry => [node .userType, opt [node .valueArgumentList]]
  | .valueArgumentList => list "(" ")" .valueArgument
  | .valueArgument => [opt [name, word "="], opt [word "*"], operand]
  | .ifExpression => [word "if", word "(", operand, word ")", operand, opt [word "else", operand]]
  | .tryExpression => [
    word "try", node .block, .many [node .catchClause], opt [word "finally", node .block]]
  | .catchClause => [word "catch", node .valueParameterList, node .block]
  | .forLoop => [word "for", word "(", node .lambdaParameter, word "in", operand, word ")", operand]
  | .whileLoop => [word "while", word "(", operand, word ")", operand]
  | .doWhileLoop => [word "do", operand, word "while", word "(", operand, word ")"]
  | .binaryExpression => [operand, words Keyword.binaryOperators, operand]
  | .infixExpression => [operand, name, operand]
  | .binaryWithType => [operand, words Keyword.typeOperators, node .typeReference]
  | .prefixExpression => [words Keyword.prefixOperators, operand]
  | .postfixExpression => [operand, words Keyword.postfixOperators]
  | .callableReferenceExpression => [opt [.cell receiverCell], word "::", name]
  | .classLiteralExpression => [opt [.cell receiverCell], word "::", word "class"]
  | .parenthesized => [word "(", operand, word ")"]
  | .stringTemplate => [.cell { kinds := [.openQuote] }, .many [.cell stringPartCell], .cell { kinds := [.closeQuote] }]
  | .shortTemplate => [word "$", .cell { kinds := [.identifier, .keyword] }]
  | .longTemplate => [word "$\x7b", operand, word "\x7d"]
  | .lambdaExpression => [
    word "\x7b", opt [node .lambdaParameterList], opt [word "->"], opt [node .lambdaBody], word "\x7d"]
  | .lambdaParameterList => [items (nodesCell [.lambdaParameter])]
  | .lambdaParameter => [
    .either [word "(", items (nodesCell [.lambdaParameterVariable]), word ")", type] [node .lambdaParameterVariable]]
  | .lambdaParameterVariable => [modifiers, name, type]
  | .lambdaBody => [.many [.cell statementCell]]
  | .thisExpression => [word "this", label]
  | .superExpression => [word "super", opt [word "<", node .typeReference, word ">"], label]
  | .whenExpression => [
    word "when", opt [word "(", operand, word ")"], word "\x7b", .many [node .whenEntry], word "\x7d"]
  | .whenEntry => [.either [word "else"] [items (nodesCell [.whenCondition])], word "->", operand]
  | .whenCondition => [
    .either [words ["in", "!in"], operand] [.either [words ["is", "!is"], node .typeReference] [operand]]]
  | .throwExpression => [word "throw", operand]
  | .returnExpression => [word "return", label, opt [operand]]
  | .continueExpression => [word "continue", label]
  | .breakExpression => [word "break", label]
  | .collectionLiteralExpression => [word "[", items operandCell, word "]"]
  | .labeledExpression => [name, word "@", operand]
  | .annotatedExpression => [.many [node .annotationSet], operand]
  | .callExpression => [operand, typeArguments, opt [node .valueArgumentList], opt [node .lambdaArgument]]
  | .lambdaArgument => [.many [node .annotationSet], opt [name, word "@"], node .lambdaExpression]
  | .arrayAccessExpression => [operand, word "[", items operandCell, word "]"]
  | .block => [word "\x7b", .many [.cell statementCell], word "\x7d"]
  -- A tree without faults has no parts that were skipped.
  | .errorElement => []
  | .unsupported => []

end Plan

/-- What counts as trivia is of a kind that always does, or a comma. -/
def Leaf.Sorted (l : Leaf) : Prop := l.trivia = true → l.token.kind.isTrivia = true ∨ l.token.text = ","

/-- Every node of the element has the parts of its kind. What no node stands for may have any parts. -/
inductive Planned : RawElement → Prop
  | leaf (l : Leaf) (sorted : l.Sorted) : Planned (.leaf l)
  | node (kind : RawKind) (role : Option String) (children : List RawElement)
      (parts : kind = .unsupported ∨ Matches (Plan.ofKind kind) (RawElement.significant children))
      (below : ∀ e ∈ children, Planned e) : Planned (.node kind role children)

/-- A leaf that is a part. -/
theorem Planned.ofPart {l : Leaf} (part : l.trivia = false) : Planned (.leaf l) := by
  refine .leaf l fun trivia => ?_
  rw [part] at trivia
  cases trivia

/-- Blanks, comments, semicolons and commas are all that counts as trivia. -/
theorem Planned.sorted {e : RawElement} (h : Planned e) : ∀ l ∈ e.leaves, l.Sorted := by
  induction h with
  | leaf l sorted => exact fun m member => List.mem_singleton.mp member ▸ sorted
  | node kind role children parts below ih =>
    intro l member
    rw [RawElement.leaves, RawElement.leavesAll_eq] at member
    obtain ⟨e, inside, member⟩ := List.mem_flatMap.mp member
    exact ih e inside l member

end KotlinSyntax
