import ScriptFront.Token

namespace ScriptFront

-- Why a source could not be read.
inductive Cause where
  -- no lexeme starts here
  | unrecognised (text : String)
  -- no rule lets an expression start with this kind
  | missingPrefix (kind : TokenKind)
  | unexpected (expected got : TokenKind)
  -- not a decimal number, or outside 64 bits
  | malformedInteger (literal : String)
  -- more expressions open at once than the limit allows
  | tooDeep (limit : Nat)
deriving DecidableEq, Repr

-- A cause together with the token it is blamed on.
structure Diagnostic where
  cause : Cause
  token : Token
deriving DecidableEq, Repr

namespace Cause

def name : Cause → String
  | .unrecognised _ => "UnrecognisedToken"
  | .missingPrefix _ => "MissingPrefixHandler"
  | .unexpected _ _ => "UnexpectedToken"
  | .malformedInteger _ => "MalformedInteger"
  | .tooDeep _ => "NestingTooDeep"

def message : Cause → String
  | .unrecognised text => "unrecognised token: " ++ Text.quoted text
  | .missingPrefix kind => "no prefix parse function for " ++ kind.spelling ++ " found"
  | .unexpected expected got =>
    "expected next token to be " ++ expected.spelling ++ ", got " ++ got.spelling ++ " instead"
  | .malformedInteger literal => "could not parse " ++ Text.quoted literal ++ " as integer"
  | .tooDeep limit => "expression nesting exceeds " ++ toString limit ++ " levels"

-- The particulars that the message is built from.
def detail : Cause → List String
  | .unrecognised text => [text]
  | .missingPrefix kind => [kind.name]
  | .unexpected expected got => [expected.name, got.name]
  | .malformedInteger literal => [literal]
  | .tooDeep limit => [toString limit]

def dump : Cause → Text.Dump
  | .unrecognised text => .record "UnrecognisedToken" [("token", .ofText text)]
  | .missingPrefix kind => .record "MissingPrefixHandler" [("kind", kind.dump)]
  | .unexpected expected got =>
    .record "UnexpectedToken" [("expected", expected.dump), ("got", got.dump)]
  | .malformedInteger literal => .record "MalformedInteger" [("literal", .ofText literal)]
  | .tooDeep limit => .record "NestingTooDeep" [("limit", .atom (toString limit))]

end Cause

namespace Diagnostic

def message (diagnostic : Diagnostic) : String :=
  diagnostic.cause.message

-- A hint for the reader of the message. An input that ended too early is told from a wrong
-- token by the kind found, and only the latter quotes the blamed token.
def tip? (diagnostic : Diagnostic) : Option String :=
  match diagnostic.cause with
  | .unrecognised _ => none
  | .missingPrefix kind => some ("`" ++ kind.spelling ++ "` cannot start an expression")
  | .unexpected expected got =>
    if got = .eof then some ("Input ended before `" ++ expected.spelling ++ "`")
    else some ("Unexpected token: `" ++ diagnostic.token.literal ++ "`")
  | .malformedInteger literal =>
    some ("Invalid number: `" ++ literal ++ "`, is it above the integer limit?")
  | .tooDeep _ => some "Split the expression up with `let` bindings"

def dump (diagnostic : Diagnostic) : Text.Dump :=
  .record "Error" [("internal_error", diagnostic.cause.dump), ("token", diagnostic.token.dump)]

end Diagnostic

end ScriptFront
