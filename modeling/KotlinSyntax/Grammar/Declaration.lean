import KotlinSyntax.Grammar.Statement

/-! Declarations. -/
namespace KotlinSyntax.Grammar

/-- Whether the modifiers hold the word. -/
def hasModifier (modifiers : Option Parsed) (word : String) : Bool :=
  match modifiers with
  | some ⟨_, .node _ _ children⟩ => children.any fun
    | .leaf l => l.token.text == word
    | .node .. => false
  | _ => false

/-- Parameters alone, or modifiers and the keyword in front of them. -/
def primaryConstructor (recur : Recur) : Grammar (Option Parsed) := do
  if (← look).sees "(" then
    some <$> done (Marker.empty.add (← valueParameters recur)) .primaryConstructor
  else speculate do
    let m ← modified recur .declaration
    let m ← expect m "constructor"
    done (m.add (← valueParameters recur)) .primaryConstructor

/-- An object has no constructor. -/
def primaryConstructorInto (recur : Recur) (isObject : Bool) (m : Marker) : Grammar Marker := do
  if isObject then return m else return m.add? (← primaryConstructor recur)

def superType (recur : Recur) : Grammar Parsed := do
  let m := Marker.empty.add (← userType recur false)
  let b ← look
  if b.sees "(" && !b.newlineBefore then done (m.add (← valueArguments recur)) .superTypeCall
  else if b.sees "by" then
    let m ← advance m
    done (m.add (← withTrailingLambdas false (recur .expression))) .delegatedSuperType
  else done m .superType

def superTypes (recur : Recur) : Grammar Parsed := do
  let m ← advance .empty
  let m := m.add (← superType recur)
  let m ← iterateWhile (·.sees ",") (fun m => do
    let m ← advance m
    return m.add (← superType recur)) m
  done m .superTypeList

def classDeclaration (recur : Recur) (m : Marker) (isEnum : Bool) : Grammar Parsed := do
  let isObject := (← look).sees "object"
  let m ← advance m
  let m ← advanceIf (·.seesName) m
  let m ← typeParametersInto recur m
  let m ← primaryConstructorInto recur isObject m
  let m ← addIf (·.sees ":") (superTypes recur) m
  let m ← constraintsInto recur m
  let m ← addIf (·.sees openBrace) (recur (.classBody isEnum)) m
  done (← bindTrailingComment m) .classDeclaration

def initializerBlock (recur : Recur) (m : Marker) : Grammar Parsed := do
  let m ← advance m
  let m := m.add (← block recur)
  done (← bindTrailingComment m) .classInitializer

def delegationCall (recur : Recur) : Grammar Parsed := do
  let m ← expectAny .empty ["this", "super"] "'this' or 'super'"
  done (m.add (← valueArguments recur)) .delegationCall

/-- A colon and the call of another constructor, if the colon is there. -/
def delegationInto (recur : Recur) (m : Marker) : Grammar Marker := do
  if (← look).sees ":" then
    let m ← advance m
    return m.add (← delegationCall recur)
  else return m

def secondaryConstructor (recur : Recur) (m : Marker) : Grammar Parsed := do
  let m ← advance m
  let m := m.add (← valueParameters recur)
  let m ← delegationInto recur m
  let m ← addIf (·.sees openBrace) (block recur) m
  done (← bindTrailingComment m) .secondaryConstructor

/-- The receiver type of an extension, up to the dot in front of the name. -/
def receiverType (recur : Recur) : Grammar (Option Parsed) := speculate do
  let type ← recur (.typeReference true)
  if (← look).sees "." then return type.withRole "receiver" else reject (.expectedText ".")

/-- A receiver type and its dot, if there is one. -/
def receiverInto (recur : Recur) (m : Marker) : Grammar Marker := do
  match ← receiverType recur with
  | some receiver => advance (m.add receiver)
  | none => return m

def contractEffect (recur : Recur) : Grammar Parsed := do
  done (Marker.empty.add (← recur .expression)) .contractEffect

def contract (recur : Recur) : Grammar Parsed := do
  let m ← advance .empty
  done (m.add (← bracketed .contractEffectList "[" "]" (contractEffect recur))) .contract

/-- Constraints and contracts in any order. -/
def postModifiersInto (recur : Recur) (m : Marker) : Grammar Marker :=
  iterate (fun m => do
    let b ← look
    if b.sees "where" then return .again (m.add (← typeConstraintSet recur))
    else if b.sees "contract" && b.sees "[" 1 then return .again (m.add (← contract recur))
    else return .stop m) m

/-- An expression behind an equals sign, a block, or nothing. -/
def functionBodyInto (recur : Recur) (m : Marker) : Grammar Marker := do
  let b ← look
  if b.sees "=" then assignedInto recur m
  else if b.sees openBrace then return m.add (← block recur)
  else return m

/-- A receiver and a name, each if it is there. -/
def functionNameInto (recur : Recur) (m : Marker) : Grammar Marker := do
  if (← look).sees "(" then return m
  else
    let m ← receiverInto recur m
    advanceIf (·.seesName) m

def functionDeclaration (recur : Recur) (m : Marker) : Grammar Parsed := do
  let m ← advance m
  let m ← typeParametersInto recur m
  let m ← functionNameInto recur m
  let m := m.add (← valueParameters recur)
  let m ← typeSuffix recur m
  let m ← postModifiersInto recur m
  let m ← functionBodyInto recur m
  done (← bindTrailingComment m) .function

def destructuringEntry (recur : Recur) : Grammar Parsed := do
  let m ← expectName .empty
  done (← typeSuffix recur m) .destructuringEntry

/-- The parameters of a getter, which are none, with its type, or those of a setter. -/
def accessorParametersInto (recur : Recur) (isGetter : Bool) (m : Marker) : Grammar Marker := do
  if isGetter then
    let m ← advance m
    let m ← expect m ")"
    typeSuffix recur m
  else return m.add (← valueParameters recur)

/-- Parameters and a body. An accessor without them must end its line. -/
def accessorBodyInto (recur : Recur) (isGetter : Bool) (m : Marker) : Grammar Marker := do
  let b ← look
  if b.sees "(" then
    let m ← accessorParametersInto recur isGetter m
    if (← look).seesAny ["=", openBrace] then functionBodyInto recur m
    else reject (.expected "an accessor body")
  else if !b.atEnd && !b.separatedBefore && !b.sees closeBrace then
    reject (.expected "an accessor")
  else return m

/-- A getter or setter. -/
def accessor (recur : Recur) : Grammar (Option Parsed) := speculate do
  let m ← modified recur .accessor
  let isGetter := (← look).sees "get"
  let m ← expectAny m ["get", "set"] "an accessor"
  let m ← accessorBodyInto recur isGetter m
  done m (if isGetter then .propertyGetter else .propertySetter)

/-- At most two accessors. -/
def accessorsInto (recur : Recur) (m : Marker) : Grammar Marker := do
  match ← accessor recur with
  | some first => return (m.add first).add? (← accessor recur)
  | none => return m

/-- An initial value, or a delegate behind `by`. -/
def propertyValueInto (recur : Recur) (m : Marker) : Grammar Marker := do
  let b ← look
  if b.sees "=" then assignedInto recur m
  else if b.sees "by" then
    let delegate ← advance .empty
    let delegate := delegate.add (← recur .expression)
    return m.add (← done delegate .propertyDelegate)
  else return m

/-- A receiver, unless variables in parentheses come next. -/
def propertyReceiverInto (recur : Recur) (m : Marker) : Grammar Marker := do
  if (← look).sees "(" then return m else receiverInto recur m

/-- Several variables in parentheses, or one. -/
def bindingsInto (recur : Recur) (m : Marker) : Grammar Marker := do
  if (← look).sees "(" then
    let m ← advance m
    let m ← commaList m ")" (destructuringEntry recur)
    expect m ")"
  else
    let m ← expectName m
    typeSuffix recur m

def propertyDeclaration (recur : Recur) (m : Marker) : Grammar Parsed := do
  let m ← advance m
  let m ← typeParametersInto recur m
  let m ← propertyReceiverInto recur m
  let m ← bindingsInto recur m
  let m ← constraintsInto recur m
  let m ← propertyValueInto recur m
  let m ← accessorsInto recur m
  done (← bindTrailingComment m) .property

def typeAlias (recur : Recur) (m : Marker) : Grammar Parsed := do
  let m ← advance m
  let m ← expectName m
  let m ← typeParametersInto recur m
  let m ← expect m "="
  let m := m.add (← recur (.typeReference false))
  done (← bindTrailingComment m) .typeAlias

/-- Where a declaration stands. -/
inductive DeclarationPlace
  | file | member | statement
  deriving DecidableEq, Repr

/-- The rule for the declaration that the next word begins, told with the modifiers in front of it. -/
def declarationRule? (recur : Recur) (place : DeclarationPlace) (b : Builder) (modifiers : Option Parsed)
    (m : Marker) : Option (Grammar Parsed) :=
  match b.peek with
  | some t =>
    if t.kind == .keyword || t.kind == .identifier then
      match t.text with
      | "class" | "interface" => some (classDeclaration recur m (hasModifier modifiers "enum"))
      | "object" =>
        if place != .statement || modifiers.isSome || b.seesName 1 then some (classDeclaration recur m false)
        else none
      | "fun" =>
        if place != .statement || !b.sees "(" 1 then some (functionDeclaration recur m) else none
      | "val" | "var" => if t.kind == .keyword then some (propertyDeclaration recur m) else none
      | "typealias" => some (typeAlias recur m)
      | "constructor" => if place == .member then some (secondaryConstructor recur m) else none
      | "init" =>
        if place == .member && b.sees openBrace 1 then some (initializerBlock recur m) else none
      | _ => none
    else none
  | none => none

/-- A declaration. Among statements the tokens may begin an expression instead: then nothing is taken. -/
def declaration (recur : Recur) (place : DeclarationPlace) : Grammar (Option Parsed) := do
  let start := (← look).snapshot
  let modifiers ← modifierList recur .declaration
  match declarationRule? recur place (← look) modifiers (Marker.empty.add? modifiers) with
  | some rule => some <$> rule
  | none =>
    if place == .statement then
      goTo ((← look).restore start)
      return none
    else reject (.expected "a declaration")

/-- A declaration where nothing else may stand. -/
def declarationOnly (recur : Recur) (place : DeclarationPlace) (what : String) : Grammar Parsed := do
  match ← declaration recur place with
  | some p => return p
  | none => reject (.expected what)

/-- An entry begins with a name, or with annotations in front of one, that modifies no member. -/
def atEnumEntry (recur : Recur) : Grammar Bool := do
  let b ← look
  if b.seesName then return !standsModifier .declaration b && !b.sees "init"
  else if b.sees "@" then
    lookahead do
      let _ ← modifierList recur .declaration
      let b ← look
      if !b.seesName || standsModifier .declaration b then reject (.not "an enum entry")
  else return false

def enumEntry (recur : Recur) : Grammar Parsed := do
  let m ← modified recur .declaration
  let m ← expectName m
  let m ← addIf (·.sees "(") (valueArguments recur) m
  let m ← addIf (·.sees openBrace) (recur (.classBody false)) m
  done m .enumEntry

/-- Whether an entry stands behind the comma. -/
def entryFollowsComma (recur : Recur) : Grammar Bool := lookahead do
  let _ ← advance .empty
  if !(← atEnumEntry recur) then reject (.not "an enum entry")

/-- The comma behind an entry, if it is there. It is trivia unless another entry follows. -/
def entryCommaTurn (recur : Recur) (m : Marker) : Grammar (Turn Marker) := do
  let b ← look
  if !b.sees "," then return .stop m
  else if b.sees closeBrace 1 then return .stop (← advanceAsTrivia m)
  else if ← entryFollowsComma recur then return .again (← advance m)
  else return .stop (← advanceAsTrivia m)

/-- Entries with commas between them. -/
def enumEntriesInto (recur : Recur) (m : Marker) : Grammar Marker :=
  iterate (fun m => do
    if ← atEnumEntry recur then entryCommaTurn recur (m.add (← enumEntry recur)) else return .stop m) m

/-- The entries of an enumeration; another class has none. -/
def entriesInto (recur : Recur) (isEnum : Bool) (m : Marker) : Grammar Marker :=
  if isEnum then enumEntriesInto recur m else return m

/-- Members up to the closing brace, behind the entries of an enumeration. -/
def membersInto (recur : Recur) (isEnum : Bool) (m : Marker) : Grammar Marker := do
  let m ← entriesInto recur isEnum m
  iterateWhile (fun b => !b.sees closeBrace && !b.atEnd)
    (recovering · (declarationOnly recur .member "a member declaration")) m

def classBody (recur : Recur) (isEnum : Bool) : Grammar Parsed := withTrailingLambdas true do
  let m ← expect .empty openBrace
  let m ← membersInto recur isEnum m
  done (← expect m closeBrace) .classBody

end KotlinSyntax.Grammar
