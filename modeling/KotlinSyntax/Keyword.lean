/-! Keywords and operators. Each spelling has the name it is listed under, and the groups say which
spellings may stand where. -/
namespace KotlinSyntax.Keyword

/-- Every spelling that a keyword may have, with its name. -/
def names : List (String × String) :=
  [("package", "Package"), ("import", "Import"), ("class", "Class"), ("object", "Object"),
    ("interface", "Interface"), ("constructor", "Constructor"), ("val", "Val"), ("var", "Var"),
    ("this", "This"), ("super", "Super"), ("for", "For"), ("while", "While"), ("if", "If"),
    ("else", "Else"), ("catch", "Catch"), ("when", "When"), ("by", "By"), ("contract", "Contract"),
    ("where", "Where"), ("field", "Field"), ("file", "File"), ("property", "Property"),
    ("get", "Get"), ("set", "Set"), ("receiver", "Receiver"), ("param", "Param"),
    ("setparam", "SetParam"), ("delegate", "Delegate"), ("=", "Equal"), (",", "Comma"),
    ("(", "LPar"), (")", "RPar"), ("[", "LBracket"), ("]", "RBracket"), ("@", "At"), (":", "Colon"),
    ("*", "Asterisk"), ("/", "Slash"), ("%", "Percent"), ("+", "Plus"), ("-", "Minus"),
    ("in", "In"), ("!in", "NotIn"), (">", "Greater"), (">=", "GreaterEqual"), ("<", "Less"),
    ("<=", "LessEqual"), ("==", "EqualEqual"), ("!=", "NotEqual"), ("===", "EqualEqualEqual"),
    ("!==", "NotEqualEqual"), ("*=", "AsteriskEqual"), ("/=", "SlashEqual"), ("%=", "PercentEqual"),
    ("+=", "PlusEqual"), ("-=", "MinusEqual"), ("||", "OrOr"), ("&&", "AndAnd"),
    ("?:", "QuestionColon"), ("..", "DotDot"), ("..<", "DotDotLess"), (".", "Dot"),
    ("?.", "QuestionDot"), ("++", "PlusPlus"), ("--", "MinusMinus"), ("!", "Not"), ("!!", "NotNot"),
    ("as", "As"), ("as?", "AsQuestion"), ("is", "Is"), ("!is", "NotIs"), ("abstract", "Abstract"),
    ("final", "Final"), ("open", "Open"), ("annotation", "Annotation"), ("sealed", "Sealed"),
    ("data", "Data"), ("override", "Override"), ("lateinit", "LateInit"), ("inner", "Inner"),
    ("enum", "Enum"), ("companion", "Companion"), ("value", "Value"), ("private", "Private"),
    ("protected", "Protected"), ("public", "Public"), ("internal", "Internal"), ("out", "Out"),
    ("noinline", "Noinline"), ("crossinline", "CrossInline"), ("vararg", "Vararg"),
    ("reified", "Reified"), ("tailrec", "TailRec"), ("operator", "Operator"), ("infix", "Infix"),
    ("inline", "Inline"), ("external", "External"), ("suspend", "Suspend"), ("const", "Const"),
    ("fun", "Fun"), ("actual", "Actual"), ("expect", "Expect")]

/-- The name of a spelling, if it is that of a keyword. -/
def name? (text : String) : Option String := names.lookup text

/-- Words that no keyword has and that are listed as functions. -/
def functionWords : List String :=
  ["__defineGetter__", "__defineSetter__", "__lookupGetter__", "__lookupSetter__", "hasOwnProperty",
    "isPrototypeOf", "propertyIsEnumerable", "toLocaleString", "toString", "valueOf"]

/-- What any spelling is listed under: a keyword under its name, a function word under its heading, and
every other under one of two words that say what it is. -/
def listedName (text : String) : String :=
  match name? text with
  | some name => name
  | none =>
    if functionWords.contains text then "function " ++ text ++ "() \x7b [native code] \x7d"
    else if text == "__proto__" then "[object Object]"
    else "undefined"

def modifiers : List String :=
  ["abstract", "final", "open", "annotation", "sealed", "data", "override", "lateinit", "inner",
    "enum", "companion", "value", "private", "protected", "public", "internal", "in", "out",
    "noinline", "crossinline", "vararg", "reified", "tailrec", "operator", "infix", "inline",
    "external", "suspend", "const", "fun", "actual", "expect"]

def annotationTargets : List String :=
  ["field", "file", "property", "get", "set", "receiver", "param", "setparam", "delegate"]

def prefixOperators : List String :=
  ["+", "-", "++", "--", "!"]

def postfixOperators : List String :=
  ["++", "--", "!!"]

def typeOperators : List String :=
  ["as", "as?", "is", "!is"]

def binaryOperators : List String :=
  ["*", "/", "%", "+", "-", "in", "!in", ">", ">=", "<", "<=", "==", "!=", "===", "!==", "=", "*=",
    "/=", "%=", "+=", "-=", "||", "&&", "?:", "..", "..<", ".", "?."]

def valOrVar : List String :=
  ["val", "var"]

def classKinds : List String :=
  ["class", "object", "interface"]

def delegationTargets : List String :=
  ["this", "super"]

def conditionOperators : List String :=
  ["in", "!in", "is", "!is"]

end KotlinSyntax.Keyword
