import KotlinSyntax.Conversion.Reading

/-! Types, modifiers, annotations and arguments. -/
namespace KotlinSyntax.Conversion

/-- A list of parts of one kind between two tokens, as a node of its own. -/
def list (k : Kind) (opening closing : String) (element : RawKind) : Reading Node := do
  let (elements, comma) ← bracketed opening closing (part element)
  finish k [] (many .elements elements ++ opt .trailingComma comma)

def modifierList : Reading Node := do
  let elements ← whileSees (!·.isEmpty) do
    if seesNode .annotationSet (← rest) then part .annotationSet else keywordOf Keyword.modifiers
  finish .modifiers [] (many .elements elements)

def annotationSet : Reading Node := do
  let sign ← keyword "@"
  let targeted := seesToken ":" 1 (← rest)
  let target ← onlyIf targeted (keywordOf Keyword.annotationTargets)
  let colon ← onlyIf targeted (keyword ":")
  let left ← optionalKeyword "["
  let entries ← whileSees (seesNode .annotationEntry) (part .annotationEntry)
  let right ← optionalKeyword "]"
  finish .annotationSet [] (one .atSymbol sign ++ opt .target target ++ opt .colon colon ++
    opt .lBracket left ++ many .annotations entries ++ opt .rBracket right)

def annotationEntry : Reading Node := do
  let type ← part .userType
  let args ← optionalPart .valueArgumentList
  finish .annotationEntry [] (one .type type ++ opt .args args)

/-- A type that may stand in parentheses and have modifiers. -/
def groupedType : Reading (List (Field × Node)) := do
  let left ← optionalKeyword "("
  let mods ← modifiers
  let type ← nextAs .type
  let right ← optionalKeyword ")"
  return opt .lPar left ++ opt .modifiers mods ++ one .type type ++ opt .rPar right

def typeReference : Reading Node := do
  finish .typeRef [] (← groupedType)

def nullableType : Reading Node := do
  let parts ← groupedType
  let _ ← token "?"
  finish .nullableType [] parts

def typeQualifier : Reading Node := do
  let n ← name
  let args ← optionalPart .typeArgumentList
  finish .simpleTypeQualifier [] (one .name n ++ opt .typeArgs args)

def userType : Reading Node := do
  let qualifiers ← whileSees (seesNode .typeQualifier) do
    let qualifier ← part .typeQualifier
    let _ ← token "."
    return qualifier
  let n ← name
  let args ← optionalPart .typeArgumentList
  finish .simpleType [] (many .qualifiers qualifiers ++ one .name n ++ opt .typeArgs args)

def typeProjection : Reading Node := do
  if ← skipToken "*" then finish .typeArg [(.asterisk, .flag true)] []
  else
    let mods ← modifiers
    let type ← part .typeReference
    finish .typeArg [(.asterisk, .flag false)] (opt .modifiers mods ++ one .typeRef type)

def contextReceiverList : Reading Node := do
  let _ ← token "context"
  list .contextReceivers "(" ")" .contextReceiver

def contextReceiver : Reading Node := do
  finish .contextReceiver [] (one .typeRef (← part .typeReference))

def functionTypeReceiver : Reading Node := do
  let type ← part .typeReference
  let _ ← token "."
  finish .functionTypeReceiver [] (one .typeRef type)

def functionTypeParameter : Reading Node := do
  let named := seesToken ":" 1 (← rest)
  let n ← onlyIf named name
  tokenIf named ":"
  let type ← part .typeReference
  finish .functionTypeParam [] (opt .name n ++ one .typeRef type)

def functionType : Reading Node := do
  let contexts ← optionalPart .contextReceiverList
  let receiver ← optionalPart .functionTypeReceiver
  let params ← part .functionTypeParameterList
  let _ ← token "->"
  let result ← part .typeReference
  finish .functionType [] (opt .contextReceivers contexts ++ opt .functionTypeReceiver receiver ++
    one .params params ++ one .returnTypeRef result)

def valueArgument : Reading Node := do
  let named := seesToken "=" 1 (← rest)
  let n ← onlyIf named name
  tokenIf named "="
  let spread ← skipToken "*"
  let e ← nextAs .expression
  finish .valueArg [(.asterisk, .flag spread)] (opt .name n ++ one .expression e)

def typeParameter : Reading Node := do
  let mods ← modifiers
  let n ← name
  let type ← optionalType
  finish .typeParam [] (opt .modifiers mods ++ one .name n ++ opt .typeRef type)

def typeConstraintSet : Reading Node := do
  let word ← keyword "where"
  let constraints ← node .typeConstraintList
  close
  let constraints ← constraints.convert .part
  build .typeConstraintSet [] (one .whereKeyword word ++ one .constraints constraints)

def typeConstraintList : Reading Node := do
  let (elements, _) ← separated none (part .typeConstraint)
  finish .typeConstraints [] (many .elements elements)

def typeConstraint : Reading Node := do
  let sets ← annotationSets
  let n ← name
  let _ ← token ":"
  let type ← part .typeReference
  finish .typeConstraint [] (many .annotationSets sets ++ one .name n ++ one .typeRef type)

end KotlinSyntax.Conversion
