import KotlinSyntax.Grammar.Basic

/-! Types. A parenthesis begins a function type where an arrow follows the matching one, and groups
otherwise. A question mark must touch the type that it makes nullable. -/
namespace KotlinSyntax.Grammar

/-- A modifier or an annotation. -/
def modifierTurn (recur : Recur) (place : ModifierPlace) (m : Marker) : Grammar (Turn Marker) := do
  let b ← look
  if b.sees "@" then return .again (m.add (← recur .annotationSet))
  else if standsModifier place b then return .again (← advance m)
  else return .stop m

/-- Modifiers and annotations, if there are any. -/
def modifierList (recur : Recur) (place : ModifierPlace) : Grammar (Option Parsed) := do
  doneUnlessEmpty (← iterate (modifierTurn recur place) Marker.empty) .modifierList

/-- A marker that begins with the modifiers. -/
def modified (recur : Recur) (place : ModifierPlace) (m : Marker := .empty) : Grammar Marker := do
  return m.add? (← modifierList recur place)

/-- A colon and a type, if the colon is there. -/
def typeSuffix (recur : Recur) (m : Marker) : Grammar Marker := do
  if (← look).sees ":" then
    let m ← advance m
    return m.add (← recur (.typeReference false))
  else return m

def typeArgument (recur : Recur) : Grammar Parsed := do
  if (← look).sees "*" then done (← advance .empty) .typeProjection
  else
    let m ← modified recur .typeArgument
    done (m.add (← recur (.typeReference false))) .typeProjection

def typeArguments (recur : Recur) : Grammar Parsed :=
  bracketed .typeArgumentList "<" ">" (typeArgument recur)

/-- A name with its type arguments, not yet closed as a node. -/
def typeSegment (recur : Recur) : Grammar Marker := do
  let m ← expectName .empty
  addIf (·.sees "<") (typeArguments recur) m

/-- What has been a segment becomes a qualifier, and another segment follows the dot. -/
def qualifierTurn (recur : Recur) : Marker × Marker → Grammar (Marker × Marker)
  | (m, segment) => do
    let m := m.add (← done segment .typeQualifier)
    let m ← advance m
    return (m, ← typeSegment recur)

/-- Names joined by dots. In front of an extension's name the last dot is left alone. -/
def userType (recur : Recur) (receiver : Bool) : Grammar Parsed := do
  let first ← typeSegment recur
  let goesOn (b : Builder) : Bool :=
    b.sees "." && b.seesName 1 && (!receiver || b.sees "." 2 || b.sees "<" 2 || b.sees "?" 2)
  let (m, segment) ← iterateWhile goesOn (qualifierTurn recur) (Marker.empty, first)
  done (m.absorb segment) .userType

/-- More question marks behind a nullable type are no type of their own. -/
def nullableSuffix (type : Parsed) : Grammar Parsed := do
  let again (b : Builder) : Bool := b.sees "?" && b.adjacent
  if again (← look) then
    let m ← iterateWhile again advance (.ofParsed type)
    done m .unsupported (some "nested nullable type")
  else return type

def functionTypeParameter (recur : Recur) : Grammar Parsed := do
  let m ← advanceTwiceIf (fun b => b.seesName && b.sees ":" 1) .empty
  done (m.add (← recur (.typeReference false))) .functionTypeParameter

/-- A function type, of which contexts or a receiver may already be there. -/
def functionType (recur : Recur) (m : Marker) : Grammar Parsed := do
  let m := m.add (← bracketed .functionTypeParameterList "(" ")" (functionTypeParameter recur))
  let m ← expect m "->"
  done (m.add (← recur (.typeReference false))) .functionType

def contextReceiver (recur : Recur) : Grammar Parsed := do
  done (Marker.empty.add (← recur (.typeReference false))) .contextReceiver

def contextReceivers (recur : Recur) : Grammar Parsed := do
  let m ← advance .empty
  let m ← expect m "("
  let m ← commaList m ")" (contextReceiver recur)
  done (← expect m ")") .contextReceiverList

/-- A named or dynamic type. -/
def namedType (recur : Recur) (receiver : Bool) : Grammar Parsed := do
  let b ← look
  if b.sees "dynamic" && !b.sees "." 1 then done (← advance .empty) .dynamicType
  else userType recur receiver

/-- The type itself, or the nullable one that a question mark makes of it. -/
def nullableIf (type : Parsed) : Grammar Parsed := do
  let b ← look
  if b.sees "?" && b.adjacent then
    nullableSuffix (← done (← advance (.ofParsed type)) .nullableType)
  else return type

/-- A type whose functions extend the named one, if it is the receiver of a function type. -/
def receiverOf (recur : Recur) (named : Parsed) : Grammar Parsed := do
  let b ← look
  if b.sees "." && b.startsFunctionType 1 then
    let reference ← done (.ofParsed named) .typeReference
    let m ← advance (.ofParsed reference)
    let receiver ← done m .functionTypeReceiver
    functionType recur (Marker.empty.add receiver)
  else return named

def typeBody (recur : Recur) (receiver : Bool) : Grammar Parsed := do
  let b ← look
  if b.sees "(" then
    if b.startsFunctionType then functionType recur .empty
    else
      let m := Marker.empty.add (← recur (.typeReference false))
      done m .unsupported (some "parenthesized type")
  else if b.sees "context" && b.sees "(" 1 then
    functionType recur (Marker.empty.add (← contextReceivers recur))
  else
    let named ← nullableIf (← namedType recur receiver)
    receiverOf recur named

/-- A type in parentheses, which a question mark makes nullable as a whole. -/
def groupedType (recur : Recur) : Grammar Parsed := do
  let m ← advance .empty
  let m ← modified recur .type m
  let m := m.add (← typeBody recur false)
  let m ← expect m ")"
  let b ← look
  if b.sees "?" && b.adjacent then
    let nullable ← done (← advance m) .nullableType
    done (Marker.empty.add (← nullableSuffix nullable)) .typeReference
  else done m .typeReference

def typeReference (recur : Recur) (receiver : Bool) : Grammar Parsed := do
  let b ← look
  if b.sees "(" && !b.startsFunctionType then groupedType recur
  else
    let m ← modified recur .type
    done (m.add (← typeBody recur receiver)) .typeReference

def typeParameter (recur : Recur) : Grammar Parsed := do
  let m ← modified recur .typeParameter
  let m ← expectName m
  done (← typeSuffix recur m) .typeParameter

def typeParameters (recur : Recur) : Grammar Parsed :=
  bracketed .typeParameterList "<" ">" (typeParameter recur)

/-- Type parameters, if a bracket opens them. -/
def typeParametersInto (recur : Recur) (m : Marker) : Grammar Marker :=
  addIf (·.sees "<") (typeParameters recur) m

/-- Annotation sets as long as there are any. -/
def annotationSetsInto (recur : Recur) (m : Marker) : Grammar Marker :=
  iterateWhile (·.sees "@") (fun m => return m.add (← recur .annotationSet)) m

def typeConstraint (recur : Recur) : Grammar Parsed := do
  let m ← annotationSetsInto recur .empty
  let m ← expectName m
  let m ← expect m ":"
  done (m.add (← recur (.typeReference false))) .typeConstraint

def typeConstraintSet (recur : Recur) : Grammar Parsed := do
  let m ← advance .empty
  let list := Marker.empty.add (← typeConstraint recur)
  let list ← iterateWhile (·.sees ",") (fun list => do
    let list ← advance list
    return list.add (← typeConstraint recur)) list
  done (m.add (← done list .typeConstraintList)) .typeConstraintSet

/-- Constraints behind `where`, if it is there. -/
def constraintsInto (recur : Recur) (m : Marker) : Grammar Marker :=
  addIf (·.sees "where") (typeConstraintSet recur) m

end KotlinSyntax.Grammar
