import KotlinSyntax.Keyword
import KotlinSyntax.Node.Field
import KotlinSyntax.Node.Kind

/-! Categories: sets of nodes given by kinds and by the spellings of keywords. A field of a node takes
the nodes of one category. -/
namespace KotlinSyntax

/-- The nodes of the kinds, and the keywords of the spellings. -/
structure Category where
  kinds : List Kind
  spellings : List String
  deriving DecidableEq, Repr

namespace Category

/-- The nodes of one kind. -/
def only (k : Kind) : Category := ⟨[k], []⟩

/-- The keywords of the spellings. -/
def keyword (spellings : List String) : Category := ⟨[], spellings⟩

def declaration : Category :=
  ⟨[.classDeclaration, .initDeclaration, .functionDeclaration, .propertyDeclaration,
    .typeAliasDeclaration, .secondaryConstructorDeclaration], []⟩

def expression : Category :=
  ⟨[.ifExpression, .tryExpression, .forExpression, .whileExpression, .doWhileExpression,
    .binaryExpression, .binaryInfixExpression, .prefixUnaryExpression, .postfixUnaryExpression,
    .binaryTypeExpression, .callableReferenceExpression, .classLiteralExpression,
    .parenthesizedExpression, .stringLiteralExpression, .constantLiteralExpression,
    .lambdaExpression, .thisExpression, .superExpression, .whenExpression,
    .objectLiteralExpression, .throwExpression, .returnExpression, .continueExpression,
    .breakExpression, .collectionLiteralExpression, .nameExpression, .labeledExpression,
    .annotatedExpression, .callExpression, .arrayAccessExpression, .anonymousFunctionExpression,
    .propertyExpression, .blockExpression], []⟩

/-- What a body may list: declarations and expressions. -/
def statement : Category := ⟨declaration.kinds ++ expression.kinds, []⟩

def type : Category := ⟨[.simpleType, .functionType, .nullableType, .dynamicType], []⟩

def classParent : Category := ⟨[.callConstructorParent, .delegatedTypeParent, .typeParent], []⟩

def accessor : Category := ⟨[.getter, .setter], []⟩

def stringEntry : Category := ⟨[.literalStringEntry, .escapeStringEntry, .templateStringEntry], []⟩

def doubleColonReceiver : Category := ⟨[.expressionReceiver, .typeReceiver], []⟩

def postModifier : Category := ⟨[.typeConstraintSet, .contract], []⟩

/-- The text that stands between constructs. -/
def extra : Category := ⟨[.whitespace, .comment, .semicolon, .trailingComma], []⟩

/-- Annotations and the keywords that modify a declaration. -/
def modifier : Category := ⟨[.annotationSet], Keyword.modifiers⟩

def anyKeyword : Category := only .keyword

end Category

end KotlinSyntax
