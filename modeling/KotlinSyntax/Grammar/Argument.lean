import KotlinSyntax.Grammar.Type

/-! Arguments, parameters and annotations. -/
namespace KotlinSyntax.Grammar

def valueArgument (recur : Recur) : Grammar Parsed := do
  let m ← advanceTwiceIf (fun b => b.seesName && b.sees "=" 1) .empty
  let m ← advanceIf (·.sees "*") m
  done (m.add (← recur .expression)) .valueArgument

def valueArguments (recur : Recur) : Grammar Parsed :=
  withTrailingLambdas true (bracketed .valueArgumentList "(" ")" (valueArgument recur))

def annotationEntry (recur : Recur) : Grammar Parsed := do
  let m := Marker.empty.add (← userType recur false)
  let m ← addIf (fun b => b.sees "(" && b.adjacent) (valueArguments recur) m
  done m .annotationEntry

/-- A target touches both the sign in front of it and its colon. -/
def atTarget (b : Builder) : Bool :=
  (b.peek.any fun t => t.kind == .identifier && Keyword.annotationTargets.contains t.text) &&
    b.adjacent && b.sees ":" 1 && b.adjacent 1

/-- A bracket behind the sign opens a list of entries. -/
def annotationSet (recur : Recur) : Grammar Parsed := do
  let m ← advance .empty
  let m ← advanceTwiceIf atTarget m
  let b ← look
  if b.sees "[" && b.adjacent then
    let m ← advance m
    let m ← iterateWhile (!·.sees "]") (fun m => return m.add (← annotationEntry recur)) m
    done (← advance m) .annotationSet
  else done (m.add (← annotationEntry recur)) .annotationSet

/-- An equals sign and an expression, if the sign is there. -/
def assignedInto (recur : Recur) (m : Marker) : Grammar Marker := do
  if (← look).sees "=" then
    let m ← advance m
    return m.add (← recur .expression)
  else return m

def valueParameter (recur : Recur) : Grammar Parsed := do
  let m ← modified recur .parameter
  let m ← advanceIf (·.seesAny ["val", "var"]) m
  let m ← expectName m
  let m ← typeSuffix recur m
  done (← assignedInto recur m) .valueParameter

def valueParameters (recur : Recur) : Grammar Parsed :=
  withTrailingLambdas true (bracketed .valueParameterList "(" ")" (valueParameter recur))

end KotlinSyntax.Grammar
