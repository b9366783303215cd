import ScriptFront.Text.Dump

namespace ScriptFront

-- What a token is, apart from its text.
inductive TokenKind where
  | eof | illegal | integer | string | identifier
  | openBracket | closeBracket | openCurly | closeCurly | openParen | closeParen
  | assignment | equals | not | notEquals | less | greater
  | dot | semicolon | colon | comma
  | plus | dash | slash | star
  | kwLet | kwReturn | kwFn | kwTrue | kwFalse | kwIf | kwElse | kwWhile
deriving DecidableEq, Repr, Inhabited

namespace TokenKind

-- One table for all fixed texts. For a mark: what it looks like in a source, the text of its token
-- and how far reading moves on behind it. For a reserved word: the word itself. For every kind: how
-- messages spell it. The end of input and the kinds whose text varies have a capitalised word,
-- which is for messages only.
def spelling : TokenKind → String
  | .eof => "EOF"
  | .illegal => "ILLEGAL"
  | .integer => "INT"
  | .string => "STRING"
  | .identifier => "IDENT"
  | .openBracket => "["
  | .closeBracket => "]"
  | .openCurly => "\x7b"
  | .closeCurly => "\x7d"
  | .openParen => "("
  | .closeParen => ")"
  | .assignment => "="
  | .equals => "=="
  | .not => "!"
  | .notEquals => "!="
  | .less => "<"
  | .greater => ">"
  | .dot => "."
  | .semicolon => ";"
  | .colon => ":"
  | .comma => ","
  | .plus => "+"
  | .dash => "-"
  | .slash => "/"
  | .star => "*"
  | .kwLet => "let"
  | .kwReturn => "return"
  | .kwFn => "fn"
  | .kwTrue => "true"
  | .kwFalse => "false"
  | .kwIf => "if"
  | .kwElse => "else"
  | .kwWhile => "while"

-- The name of the kind in dumps.
def name : TokenKind → String
  | .eof => "EOF"
  | .illegal => "Illegal"
  | .integer => "Integer"
  | .string => "String"
  | .identifier => "Identifier"
  | .openBracket => "OpenBracket"
  | .closeBracket => "CloseBracket"
  | .openCurly => "OpenCurly"
  | .closeCurly => "CloseCurly"
  | .openParen => "OpenParen"
  | .closeParen => "CloseParen"
  | .assignment => "Assignment"
  | .equals => "Equals"
  | .not => "Not"
  | .notEquals => "NotEquals"
  | .less => "Less"
  | .greater => "Greater"
  | .dot => "Dot"
  | .semicolon => "Semicolon"
  | .colon => "Colon"
  | .comma => "Comma"
  | .plus => "Plus"
  | .dash => "Dash"
  | .slash => "Slash"
  | .star => "Star"
  | .kwLet => "Let"
  | .kwReturn => "Return"
  | .kwFn => "Function"
  | .kwTrue => "True"
  | .kwFalse => "False"
  | .kwIf => "If"
  | .kwElse => "Else"
  | .kwWhile => "While"

-- The words that are never identifiers.
def reserved : List TokenKind :=
  [kwLet, kwReturn, kwFn, kwTrue, kwFalse, kwIf, kwElse, kwWhile]

def reserved? (word : String) : Option TokenKind :=
  reserved.find? fun kind => kind.spelling == word

-- The kind of a word: reserved, or else an identifier.
def ofWord (word : String) : TokenKind :=
  (reserved? word).getD identifier

def dump (kind : TokenKind) : Text.Dump :=
  .atom kind.name

end TokenKind

-- A token pairs a kind with a text. Nothing ties the two together: a reader decides by the kind
-- and builds its result from the text.
structure Token where
  kind : TokenKind
  literal : String
deriving DecidableEq, Repr, Inhabited

namespace Token

def eof : Token := ⟨.eof, ""⟩

def isOneOf (token : Token) (kinds : List TokenKind) : Bool :=
  kinds.contains token.kind

-- The kinds whose text says more than the kind does.
def variableKinds : List TokenKind := [.string, .identifier, .integer]

def describe (token : Token) : String :=
  if token.isOneOf variableKinds then token.kind.spelling ++ " (" ++ token.literal ++ ")"
  else token.kind.spelling

def dump (token : Token) : Text.Dump :=
  .record "Token" [("kind", token.kind.dump), ("literal", .ofText token.literal)]

end Token

end ScriptFront
