import KotlinSyntax.Conversion.Type

/-! Files and declarations. -/
namespace KotlinSyntax.Conversion

/-- What comes before the declarations of a file. -/
def header : Reading (List (Field × Node)) := do
  let sets ← annotationSets
  let package ← optionalPart .packageDirective
  let imports ← optionalPart .importList
  return many .annotationSets sets ++ opt .packageDirective package ++ opt .importDirectives imports

def file : Reading Node := do
  let head ← header
  let declarations ← whileSees (!·.isEmpty) (nextAs .declaration)
  build .kotlinFile [] (head ++ many .declarations declarations)

def script : Reading Node := do
  let head ← header
  let statements ← whileSees (!·.isEmpty) (nextAs .statement)
  build .kotlinScript [] (head ++ many .statements statements)

def packageDirective : Reading Node := do
  let word ← keyword "package"
  let first ← name
  let others ← whileSees (seesToken "." 0) (do let _ ← token "."; name)
  finish .packageDirective [] (one .packageKeyword word ++ many .names (first :: others))

def importList : Reading Node := do
  let elements ← whileSees (!·.isEmpty) (part .importDirective)
  build .importDirectives [] (many .elements elements)

def importDirective : Reading Node := do
  let word ← keyword "import"
  let first ← name
  let others ← whileSees (fun items => seesToken "." 0 items && !seesToken "*" 1 items)
    (do let _ ← token "."; name)
  let wildcard ← skipToken "."
  tokenIf wildcard "*"
  let aliased ← optionalPart .importAlias
  finish .importDirective [(.wildcard, .flag wildcard)]
    (one .importKeyword word ++ many .names (first :: others) ++ opt .importAlias aliased)

def importAlias : Reading Node := do
  let _ ← token "as"
  finish .importAlias [] (one .name (← name))

def classDeclaration : Reading Node := do
  let mods ← modifiers
  let word ← keywordOf Keyword.classKinds
  let n ← optionalName
  let params ← optionalPart .typeParameterList
  let primary ← optionalPart .primaryConstructor
  let parents ← optionalPart .superTypeList
  let constraints ← optionalPart .typeConstraintSet
  let body ← optionalPart .classBody
  finish .classDeclaration [] (opt .modifiers mods ++ one .classDeclarationKeyword word ++
    opt .name n ++ opt .typeParams params ++ opt .primaryConstructor primary ++
    opt .classParents parents ++ opt .typeConstraintSet constraints ++ opt .classBody body)

def primaryConstructor : Reading Node := do
  let mods ← modifiers
  let word ← optionalKeyword "constructor"
  let params ← part .valueParameterList
  let n ← build .primaryConstructor []
    (opt .modifiers mods ++ opt .constructorKeyword word ++ one .params params)
  close
  return n

def superTypeList : Reading Node := do
  let _ ← token ":"
  let first ← nextAs .classParent
  let others ← whileSees (seesToken "," 0) (do let _ ← token ","; nextAs .classParent)
  finish .classParents [] (many .elements (first :: others))

def classParent : Reading Node := do
  let type ← part .userType
  match (← read).kind with
  | .superTypeCall =>
    let args ← part .valueArgumentList
    finish .callConstructorParent [] (one .type type ++ one .args args)
  | .delegatedSuperType =>
    let word ← keyword "by"
    let e ← nextAs .expression
    finish .delegatedTypeParent [] (one .type type ++ one .byKeyword word ++ one .expression e)
  | .superType => finish .typeParent [] (one .type type)
  | _ => mismatch "a supertype entry"

def classBody : Reading Node := do
  let _ ← token "\x7b"
  let entries ← whileSees (seesNode .enumEntry) do
    let entry ← part .enumEntry
    let _ ← skipToken ","
    return entry
  let declarations ← whileSees (!seesToken "\x7d" 0 ·) (nextAs .declaration)
  let _ ← token "\x7d"
  finish .classBody [] (many .enumEntries entries ++ many .declarations declarations)

def enumEntry : Reading Node := do
  let mods ← modifiers
  let n ← name
  let args ← optionalPart .valueArgumentList
  let body ← optionalPart .classBody
  finish .enumEntry []
    (opt .modifiers mods ++ one .name n ++ opt .args args ++ opt .classBody body)

def classInitializer : Reading Node := do
  let mods ← modifiers
  let _ ← token "init"
  let block ← part .block
  finish .initDeclaration [] (opt .modifiers mods ++ one .block block)

def secondaryConstructor : Reading Node := do
  let mods ← modifiers
  let word ← keyword "constructor"
  let params ← part .valueParameterList
  let call ← onlyIf (← skipToken ":") (part .delegationCall)
  let block ← optionalPart .block
  finish .secondaryConstructorDeclaration [] (opt .modifiers mods ++ one .constructorKeyword word ++
    one .params params ++ opt .delegationCall call ++ opt .block block)

def delegationCall : Reading Node := do
  let target ← keywordOf Keyword.delegationTargets
  let args ← part .valueArgumentList
  finish .delegationCall [] (one .target target ++ one .args args)

/-- The type that an extension extends, with the point after it. -/
def receiverType : Reading (Option Node) := do
  match ← optionalPart .typeReference with
  | some type => let _ ← token "."; return some type
  | none => return none

/-- A body after an equals sign, or a block. -/
def body : Reading (List (Field × Node)) := do
  match ← optionalKeyword "=" with
  | some equals => return one .equals equals ++ one .body (← nextAs .expression)
  | none => return opt .body (← optionalPart .block)

def function : Reading Node := do
  let mods ← modifiers
  let word ← keyword "fun"
  let typeParams ← optionalPart .typeParameterList
  let receiver ← receiverType
  let n ← optionalName
  let params ← optionalPart .valueParameterList
  let type ← optionalType
  let posts ← whileSees (fun items => seesNode .typeConstraintSet items || seesNode .contract items)
    (nextAs .part)
  let body ← body
  finish .functionDeclaration [] (opt .modifiers mods ++ one .funKeyword word ++
    opt .typeParams typeParams ++ opt .receiverTypeRef receiver ++ opt .name n ++ opt .params params ++
    opt .typeRef type ++ many .postModifiers posts ++ body)

def contract : Reading Node := do
  let word ← keyword "contract"
  let effects ← node .contractEffectList
  close
  let effects ← effects.convert .part
  build .contract [] (one .contractKeyword word ++ one .contractEffects effects)

def contractEffect : Reading Node := do
  finish .contractEffect [] (one .expression (← nextAs .expression))

def valueParameter : Reading Node := do
  let mods ← modifiers
  let items ← rest
  let word ← onlyIf (seesToken "val" 0 items || seesToken "var" 0 items) (keywordOf Keyword.valOrVar)
  let n ← name
  let type ← optionalType
  let equals ← optionalKeyword "="
  let value ← onlyIf equals.isSome (nextAs .expression)
  finish .functionParam [] (opt .modifiers mods ++ opt .valOrVarKeyword word ++ one .name n ++
    opt .typeRef type ++ opt .equals equals ++ opt .defaultValue value)

/-- Refuses parentheses around a single variable. -/
def refuseSingle (o : Owner) : Convert Unit := do
  let count := (o.children.filter fun e => nodeKind? e == some .destructuringEntry).length
  if count == 1 then
    note ("single-variable destructuring at offset " ++ Number.decimal o.offset)
    unsupported "destructuring declaration with a single variable" o.offset
  else return ()

/-- The bindings of a property: several in parentheses, or one. -/
def bindings : Reading (List (Field × Node)) := do
  if seesToken "(" 0 (← rest) then
    refuseSingle (← read)
    let left ← keyword "("
    let (bindings, comma) ← separated (some ")") (part .destructuringEntry)
    let right ← keyword ")"
    return one .lPar left ++ many .bindings bindings ++ opt .trailingComma comma ++
      one .rPar right
  else
    let n ← name
    let type ← optionalType
    return one .bindings (← implied .declaredVariable (one .name n ++ opt .typeRef type))

def property : Reading Node := do
  let mods ← modifiers
  let word ← keywordOf Keyword.valOrVar
  let typeParams ← optionalPart .typeParameterList
  let receiver ← receiverType
  let bindings ← bindings
  let constraints ← optionalPart .typeConstraintSet
  let equals ← optionalKeyword "="
  let value ← onlyIf equals.isSome (nextAs .expression)
  let delegate ← optionalPart .propertyDelegate
  let accessors ← whileSees
    (fun items => seesNode .propertyGetter items || seesNode .propertySetter items) (nextAs .part)
  finish .propertyDeclaration [] (opt .modifiers mods ++ one .valOrVarKeyword word ++
    opt .typeParams typeParams ++ opt .receiverTypeRef receiver ++ bindings ++
    opt .typeConstraintSet constraints ++ opt .equals equals ++ opt .initializer value ++
    opt .propertyDelegate delegate ++ many .accessors accessors)

def destructuringEntry : Reading Node := do
  let n ← name
  let type ← optionalType
  finish .declaredVariable [] (one .name n ++ opt .typeRef type)

def propertyDelegate : Reading Node := do
  let word ← keyword "by"
  let e ← nextAs .expression
  finish .propertyDelegate [] (one .byKeyword word ++ one .expression e)

def propertyGetter : Reading Node := do
  let mods ← modifiers
  let word ← keyword "get"
  let left ← optionalKeyword "("
  let right ← optionalKeyword ")"
  let type ← optionalType
  let body ← body
  finish .getter [] (opt .modifiers mods ++ one .getKeyword word ++ opt .lPar left ++
    opt .rPar right ++ opt .typeRef type ++ body)

def propertySetter : Reading Node := do
  let mods ← modifiers
  let word ← keyword "set"
  let params ← optionalPart .valueParameterList
  let body ← body
  finish .setter [] (opt .modifiers mods ++ one .setKeyword word ++ opt .params params ++ body)

def typeAlias : Reading Node := do
  let mods ← modifiers
  let _ ← token "typealias"
  let n ← name
  let params ← optionalPart .typeParameterList
  let _ ← token "="
  let type ← part .typeReference
  finish .typeAliasDeclaration []
    (opt .modifiers mods ++ one .name n ++ opt .typeParams params ++ one .typeRef type)

end KotlinSyntax.Conversion
