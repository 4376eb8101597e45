import ArityScript.Form.Printer

/-!
# Errors

Reading a source text and evaluating a form fail for causes that are part of
the language.  An error is its cause together with where it arose: a piece of
the source, the offending text, or the call that was being evaluated.  Every
cause has a kind, by which a host tells failures apart, and one wording.
-/

namespace ArityScript

/-! ## Malformed tokens -/

inductive LexErrorKind where
  | unterminatedString
  | invalidEscape
  | invalidNumber
  | numberOutOfRange
deriving DecidableEq, Repr

def LexErrorKind.message : LexErrorKind → String
  | .unterminatedString => "Unterminated string literal"
  | .invalidEscape => "Unknown escape sequence in string literal"
  | .invalidNumber => "Malformed number literal"
  | .numberOutOfRange => "Number literal out of range"

structure LexError where
  kind : LexErrorKind
  context : String
  found : String
deriving DecidableEq, Repr

/-! ## Malformed forms -/

inductive ParseErrorKind where
  | invalidSyntax
  | incomplete
  | missingArgument
  | unknownOption
  | unexpectedClose
  | trailingContent
  | tooDeeplyNested
deriving DecidableEq, Repr

inductive LeftoverPlace where
  | afterExpression
  | beforeClose
deriving DecidableEq, Repr

inductive ParseCause where
  | endOfInput
  | tooDeep (limit : Nat)
  | unmatchedClose
  /-- A flag stands where a form should start. -/
  | leadingFlag (name : String)
  /-- A flag is left over that no enclosing call declares. -/
  | unclaimedFlag (name : String)
  | leftover (place : LeftoverPlace)
  | emptyGroup
  | unclosedGroup
  | missingArgument (method : String) (required supplied : Nat) (missing : String)
  | malformedJson
  | reported (kind : ParseErrorKind) (message : String)
deriving DecidableEq, Repr

def ParseCause.kind : ParseCause → ParseErrorKind
  | .endOfInput => .incomplete
  | .tooDeep _ => .tooDeeplyNested
  | .unmatchedClose => .unexpectedClose
  | .leadingFlag _ => .invalidSyntax
  | .unclaimedFlag _ => .unknownOption
  | .leftover _ => .trailingContent
  | .emptyGroup => .invalidSyntax
  | .unclosedGroup => .incomplete
  | .missingArgument .. => .missingArgument
  | .malformedJson => .invalidSyntax
  | .reported kind _ => kind

def ParseCause.message : ParseCause → String
  | .endOfInput => "Unexpected end of input"
  | .tooDeep limit =>
      "Expression too deeply nested (max depth: " ++ toString limit ++ ")"
  | .unmatchedClose => "Unexpected ')' with no matching '('"
  | .leadingFlag name =>
      "Option '--" ++ name ++ "' must follow a method that accepts it"
  | .unclaimedFlag name =>
      "Option '--" ++ name ++ "' is not accepted by any enclosing method"
  | .leftover .afterExpression => "Unexpected input after the expression"
  | .leftover .beforeClose => "Unexpected input before ')'"
  | .emptyGroup => "Empty group: '(' must enclose exactly one expression"
  | .unclosedGroup => "Unterminated group: missing ')'"
  | .missingArgument method required supplied missing =>
      "Method '" ++ method ++ "' expects " ++ toString required ++
        " argument(s) but found only " ++ toString supplied ++
        " (missing '" ++ missing ++ "')"
  | .malformedJson => "Invalid JSON"
  | .reported _ message => message

/-- A failure while forms are read, with the source around it and the
offending text where there is one. -/
structure ParseError where
  cause : ParseCause
  context : Option String
  found : Option String
deriving DecidableEq, Repr

/-! ## Failures of evaluation -/

inductive EvalErrorKind where
  | unboundName
  | notAMethod
  | unknownOption
  | missingArgument
  | unexpectedArgument
  | typeMismatch
  | methodFailed
  | depthLimit
  | invalidForm
deriving DecidableEq, Repr

/-- A failure of a native method's own, outside the language. -/
inductive HostFailure where
  | divisionByZero
  | overflow (operation : String)
  | emptyList (operation : String)
  | invalidStep (step : Number)
  /-- A failure of a host's method, known by its text alone. -/
  | other (text : String)
deriving DecidableEq, Repr

def HostFailure.message : HostFailure → String
  | .divisionByZero => "division by zero"
  | .overflow operation => "integer overflow in " ++ operation
  | .emptyList operation => operation ++ " of an empty list"
  | .invalidStep step => "range step must be positive, got " ++ step.render
  | .other text => text

inductive EvalCause where
  | unbound (name : String)
  | notAMethod (name typeName : String)
  | unknownOption (flag method : String)
  | flagWithoutValue (flag method : String)
  | tooManyArguments (method : String) (accepted : Nat)
  | unfilledParameter (method : String) (required : Nat) (missing : String)
  /-- A method asks for an argument that is not there. -/
  | noSuchArgument (parameter : String)
  | wrongType (expected found : String)
  | wrongArgumentType (parameter expected found : String)
  | notAName (role shown : String)
  | notComparable (left right : String)
  | predicateNotBoolean (found : String)
  | notConcatenable (found : String)
  | incompleteDefinition
  | methodFailed (method : String) (failure : HostFailure)
  | tooDeep (limit : Nat)
  /-- A flag is evaluated as if it were a form of its own. -/
  | strayFlag (name : String)
  | jsonNumber (shown : String)
  | jsonObject
  | methodToJson (name : String)
  /-- A host's own failure, stated in the terms of the language. -/
  | reported (kind : EvalErrorKind) (message : String)
deriving DecidableEq, Repr

def EvalCause.kind : EvalCause → EvalErrorKind
  | .unbound _ => .unboundName
  | .notAMethod .. => .notAMethod
  | .unknownOption .. => .unknownOption
  | .flagWithoutValue .. => .missingArgument
  | .tooManyArguments .. => .unexpectedArgument
  | .unfilledParameter .. => .missingArgument
  | .noSuchArgument _ => .missingArgument
  | .wrongType .. => .typeMismatch
  | .wrongArgumentType .. => .typeMismatch
  | .notAName .. => .typeMismatch
  | .notComparable .. => .typeMismatch
  | .predicateNotBoolean _ => .typeMismatch
  | .notConcatenable _ => .typeMismatch
  | .incompleteDefinition => .missingArgument
  | .methodFailed .. => .methodFailed
  | .tooDeep _ => .depthLimit
  | .strayFlag _ => .invalidForm
  | .jsonNumber _ => .typeMismatch
  | .jsonObject => .typeMismatch
  | .methodToJson _ => .typeMismatch
  | .reported kind _ => kind

def EvalCause.message : EvalCause → String
  | .unbound name => "Unbound name: " ++ name
  | .notAMethod name typeName =>
      "'" ++ name ++ "' is bound to a " ++ typeName ++ ", not a method"
  | .unknownOption flag method =>
      "Unknown option '--" ++ flag ++ "' for method '" ++ method ++ "'"
  | .flagWithoutValue flag method =>
      "Option '--" ++ flag ++ "' of method '" ++ method ++ "' has no value"
  | .tooManyArguments method accepted =>
      "Method '" ++ method ++ "' takes " ++ toString accepted ++
        " positional argument(s), got more"
  | .unfilledParameter method required missing =>
      "Method '" ++ method ++ "' requires " ++ toString required ++
        " positional argument(s); '" ++ missing ++ "' was not supplied"
  | .noSuchArgument parameter =>
      "No argument bound for parameter '" ++ parameter ++ "'"
  | .wrongType expected found => "expected " ++ expected ++ ", got " ++ found
  | .wrongArgumentType parameter expected found =>
      "Parameter '" ++ parameter ++ "': expected " ++ expected ++ ", got " ++ found
  | .notAName role shown => role ++ " must be a quoted name, got " ++ shown
  | .notComparable left right => "cannot order " ++ left ++ " against " ++ right
  | .predicateNotBoolean found =>
      "filter predicate must produce a boolean, got " ++ found
  | .notConcatenable found => "concat accepts strings and numbers, got " ++ found
  | .incompleteDefinition => "def requires a quoted name and a body"
  | .methodFailed method failure =>
      "Method '" ++ method ++ "' failed: " ++ failure.message
  | .tooDeep limit =>
      "Evaluation depth limit exceeded (max: " ++ toString limit ++ ")"
  | .strayFlag name =>
      "Option '--" ++ name ++ "' can only appear among a method's arguments"
  | .jsonNumber shown =>
      "JSON number " ++ shown ++ " is not an integer in the range of i64"
  | .jsonObject => "JSON objects have no value representation"
  | .methodToJson name => "method '" ++ name ++ "' cannot be converted to JSON"
  | .reported _ message => message

/-- The text of the native failure behind a cause. -/
def EvalCause.source? : EvalCause → Option String
  | .methodFailed _ failure => some failure.message
  | _ => none

/-- A failure of evaluation: its cause, the method that was being called, and
the text of the innermost call in whose evaluation it arose. -/
structure EvalError where
  cause : EvalCause
  method : Option String
  context : Option String
deriving DecidableEq, Repr

namespace EvalError

/-- A failure that arises outside any particular method. -/
def ofCause (cause : EvalCause) : EvalError :=
  ⟨cause, none, none⟩

/-- A failure that arises in the call of a method. -/
def inMethod (method : String) (cause : EvalCause) : EvalError :=
  ⟨cause, some method, none⟩

end EvalError

/-! ## All errors -/

inductive Error where
  | lex (error : LexError)
  | parse (error : ParseError)
  | eval (error : EvalError)
deriving DecidableEq, Repr

namespace Error

/-- The wording of an error, without its surroundings. -/
def message : Error → String
  | .lex error => error.kind.message
  | .parse error => error.cause.message
  | .eval error => error.cause.message

def context? : Error → Option String
  | .lex error => some error.context
  | .parse error => error.context
  | .eval error => error.context

def found? : Error → Option String
  | .lex error => some error.found
  | .parse error => error.found
  | .eval _ => none

/-- What an error's text starts with. -/
def label : Error → String
  | .lex _ => "LexError: "
  | .parse _ => "ParseError: "
  | .eval _ => "EvaluationError: "

def detailLine (title : String) : Option String → String
  | none => ""
  | some text => "\n" ++ title ++ ": " ++ text

def render (error : Error) : String :=
  error.label ++ error.message ++ detailLine "Found" error.found? ++
    detailLine "Context" error.context?

/-- Marks a failure of evaluation with the call in which it arose, unless an
inner call has done so. -/
def inCall (call : Form) : Error → Error
  | .eval ⟨cause, method, none⟩ =>
      .eval ⟨cause, method, some ("while evaluating: " ++ call.render)⟩
  | error => error

end Error

end ArityScript
