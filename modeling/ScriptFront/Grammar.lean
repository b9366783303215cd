import ScriptFront.Token

namespace ScriptFront

-- The ways to read a statement. The standard grammar has no use for `block`: it stands for a rule
-- of a user's own around the reading of a block, to be registered for any kind of token. The choice
-- of a rule by the current token (`Grammar.stmt`) reads a statement as well, but is not a rule, so
-- no kind of token leads back to the choice.
inductive StmtRule where
  | letIn | returns | expression | block
deriving DecidableEq, Repr

-- The ways to start an expression.
inductive PrefixRule where
  | identifier | integer | string | boolean | operator | grouped
  | ifElse | whileLoop | function | array | hash
deriving DecidableEq, Repr

-- The ways to continue one.
inductive InfixRule where
  | operator | call | index | field
deriving DecidableEq, Repr

-- Which rule each kind of token calls for, by the position it stands in.
structure Grammar where
  stmtRule? : TokenKind → Option StmtRule
  prefixRule? : TokenKind → Option PrefixRule
  infixRule? : TokenKind → Option InfixRule

namespace Grammar

def empty : Grammar :=
  ⟨fun _ => none, fun _ => none, fun _ => none⟩

-- The language's own statements. All others are expression statements.
def standardStmt? : TokenKind → Option StmtRule
  | .kwLet => some .letIn
  | .kwReturn => some .returns
  | _ => none

def standardPrefix? : TokenKind → Option PrefixRule
  | .identifier => some .identifier
  | .integer => some .integer
  | .string => some .string
  | .kwTrue | .kwFalse => some .boolean
  | .not | .dash => some .operator
  | .openParen => some .grouped
  | .kwIf => some .ifElse
  | .kwWhile => some .whileLoop
  | .kwFn => some .function
  | .openBracket => some .array
  | .openCurly => some .hash
  | _ => none

def standardInfix? : TokenKind → Option InfixRule
  | .equals | .notEquals | .less | .greater | .plus | .dash | .slash | .star => some .operator
  | .openParen => some .call
  | .openBracket => some .index
  | .dot => some .field
  | _ => none

def standard : Grammar :=
  ⟨standardStmt?, standardPrefix?, standardInfix?⟩

-- Adds the language's statements, keeping the rules of other kinds.
def withStandardStmts (grammar : Grammar) : Grammar :=
  { grammar with stmtRule? := fun kind => standardStmt? kind <|> grammar.stmtRule? kind }

-- Adds the language's expressions, likewise.
def withStandardExprs (grammar : Grammar) : Grammar :=
  { grammar with
    prefixRule? := fun kind => standardPrefix? kind <|> grammar.prefixRule? kind
    infixRule? := fun kind => standardInfix? kind <|> grammar.infixRule? kind }

-- Registering replaces the rule the kind had in that position.
def registerStmt (grammar : Grammar) (kind : TokenKind) (rule : StmtRule) : Grammar :=
  { grammar with stmtRule? := fun k => if k = kind then some rule else grammar.stmtRule? k }

def registerPrefix (grammar : Grammar) (kind : TokenKind) (rule : PrefixRule) : Grammar :=
  { grammar with prefixRule? := fun k => if k = kind then some rule else grammar.prefixRule? k }

def registerInfix (grammar : Grammar) (kind : TokenKind) (rule : InfixRule) : Grammar :=
  { grammar with infixRule? := fun k => if k = kind then some rule else grammar.infixRule? k }

-- The standard grammar is what its two halves add to the empty one.
theorem withStandard_empty : empty.withStandardStmts.withStandardExprs = standard := by
  simp [withStandardStmts, withStandardExprs, empty, standard]

end Grammar

end ScriptFront
