import ScriptFront.Parse.Report

namespace ScriptFront

-- Reading driven by hand: a window on the tokens, the number of nesting levels that are open,
-- and a grammar that can be extended on the way.
structure Session where
  window : Window
  depth : Nat
  grammar : Grammar

namespace Session

def start (grammar : Grammar) (tokens : List Token) : Session :=
  ⟨.ofTokens tokens, 0, grammar⟩

def current (session : Session) : Token :=
  session.window.current

def peek (session : Session) : Token :=
  session.window.peek

-- Runs a piece of reading. Whatever comes of it, only the window moves.
def run (session : Session) (piece : Parse α) : Except Diagnostic α × Session :=
  match piece session.window with
  | .ok value window => (.ok value, { session with window := window })
  | .error diagnostic window => (.error diagnostic, { session with window := window })

def advance (session : Session) : Session :=
  { session with window := session.window.next }

def expect (session : Session) (kind : TokenKind) : Except Diagnostic Unit × Session :=
  session.run (Parse.expect kind)

-- Opens a nesting level, unless as many as may be are open.
def enter (session : Session) : Except Diagnostic Unit × Session :=
  if maxNesting ≤ session.depth then (.error ⟨.tooDeep maxNesting, session.current⟩, session)
  else (.ok (), { session with depth := session.depth + 1 })

-- Closes a nesting level, if one is open.
def leave (session : Session) : Session :=
  { session with depth := session.depth - 1 }

def registerStmt (session : Session) (kind : TokenKind) (rule : StmtRule) : Session :=
  { session with grammar := session.grammar.registerStmt kind rule }

def registerPrefix (session : Session) (kind : TokenKind) (rule : PrefixRule) : Session :=
  { session with grammar := session.grammar.registerPrefix kind rule }

def registerInfix (session : Session) (kind : TokenKind) (rule : InfixRule) : Session :=
  { session with grammar := session.grammar.registerInfix kind rule }

def addStandardStmts (session : Session) : Session :=
  { session with grammar := session.grammar.withStandardStmts }

def addStandardExprs (session : Session) : Session :=
  { session with grammar := session.grammar.withStandardExprs }

-- The levels that are not open yet.
def levels (session : Session) : Nat :=
  maxNesting - session.depth

def parts (session : Session) : Parts Parse :=
  session.grammar.partsAt session.levels

-- Applying a rule by hand opens no level of its own.
def applyStmt (session : Session) (rule : StmtRule) : Except Diagnostic Stmt × Session :=
  session.run (rule.parse session.parts)

def applyPrefix (session : Session) (rule : PrefixRule) : Except Diagnostic Expr × Session :=
  session.run (rule.parse session.parts)

def applyInfix (session : Session) (rule : InfixRule) (left : Expr) :
    Except Diagnostic Expr × Session :=
  session.run (rule.parse session.parts left)

def expr (session : Session) (limit : Precedence) : Except Diagnostic Expr × Session :=
  session.run (session.grammar.expr session.levels limit)

def stmt (session : Session) : Except Diagnostic Stmt × Session :=
  session.run (session.grammar.stmt session.parts)

def block (session : Session) : Except Diagnostic Block × Session :=
  session.run session.parts.block

-- Reads statements up to the end of input.
def program (session : Session) : Report × Session :=
  let attempts := session.grammar.attempts session.levels session.window
  let window := (attempts.getLast?.map Attempt.resume).getD session.window
  (.ofAttempts attempts, { session with window := window })

end Session

end ScriptFront
