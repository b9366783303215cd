import ScriptFront.Proofs.Reading.Attempts

namespace ScriptFront

open Reader Parse

-- What can be done with a session, in any order.
inductive Operation where
  | advance
  | expect (kind : TokenKind)
  | enter
  | leave
  | registerStmt (kind : TokenKind) (rule : StmtRule)
  | registerPrefix (kind : TokenKind) (rule : PrefixRule)
  | registerInfix (kind : TokenKind) (rule : InfixRule)
  | addStandardStmts
  | addStandardExprs
  | expr (limit : Precedence)
  | stmt
  | block
  | program
  | applyStmt (rule : StmtRule)
  | applyPrefix (rule : PrefixRule)
  | applyInfix (rule : InfixRule) (left : Expr)

namespace Operation

-- The operations that read expressions, statements or blocks, or apply a rule.
def reads : Operation → Bool
  | expr _ | stmt | block | program | applyStmt _ | applyPrefix _ | applyInfix _ _ => true
  | _ => false

end Operation

-- What an operation answers.
inductive Reply where
  | done
  | stopped (diagnostic : Diagnostic)
  | expr (value : Expr)
  | stmt (value : Stmt)
  | block (value : Block)
  | report (value : Report)

namespace Session

variable {α : Type}

def answer (reply : α → Reply) : Except Diagnostic α × Session → Reply × Session
  | (.ok value, session) => (reply value, session)
  | (.error diagnostic, session) => (.stopped diagnostic, session)

def perform (session : Session) : Operation → Reply × Session
  | .advance => (.done, session.advance)
  | .expect kind => answer (fun _ => .done) (session.expect kind)
  | .enter => answer (fun _ => .done) session.enter
  | .leave => (.done, session.leave)
  | .registerStmt kind rule => (.done, session.registerStmt kind rule)
  | .registerPrefix kind rule => (.done, session.registerPrefix kind rule)
  | .registerInfix kind rule => (.done, session.registerInfix kind rule)
  | .addStandardStmts => (.done, session.addStandardStmts)
  | .addStandardExprs => (.done, session.addStandardExprs)
  | .expr limit => answer .expr (session.expr limit)
  | .stmt => answer .stmt session.stmt
  | .block => answer .block session.block
  | .program => (.report session.program.1, session.program.2)
  | .applyStmt rule => answer .stmt (session.applyStmt rule)
  | .applyPrefix rule => answer .expr (session.applyPrefix rule)
  | .applyInfix rule left => answer .expr (session.applyInfix rule left)

def performAll (session : Session) : List Operation → List Reply × Session
  | [] => ([], session)
  | operation :: operations =>
    let (reply, next) := session.perform operation
    let (replies, last) := next.performAll operations
    (reply :: replies, last)

end Session

-- Reading with nothing kept out of the state: all the tokens, the index of the current one, the
-- number of expressions that are open, and the grammar. A session has only the tokens that are
-- left, and hands the levels that are left down to the expressions it reads.
structure Machine where
  tokens : List Token
  position : Nat
  depth : Nat
  grammar : Grammar

-- Why a machine halts.
inductive Halt where
  | diagnostic (diagnostic : Diagnostic)
  -- a look at an index behind the last token
  | outOfRange
  -- more calls inside each other, or more rounds of a loop, than there is any need for
  | endless

abbrev Indexed := EStateM Halt Machine

instance : Reader Indexed where
  window := fun machine =>
    match machine.tokens[machine.position]? with
    | some token => .ok ⟨token, machine.tokens.drop (machine.position + 1)⟩ machine
    | none => .error .outOfRange machine
  advance := fun machine =>
    if machine.position + 1 < machine.tokens.length then
      .ok () { machine with position := machine.position + 1 }
    else .ok () machine
  fail := fun diagnostic machine => .error (.diagnostic diagnostic) machine

namespace Machine

-- Begins at the first token, without any rules. A list that does not end with an end of input
-- gets one.
def start (tokens : List Token) : Machine :=
  ⟨if tokens.getLast?.map Token.kind = some .eof then tokens else tokens ++ [.eof], 0, 0, .empty⟩

def leave (machine : Machine) : Machine :=
  { machine with depth := machine.depth - 1 }

end Machine

-- Moves to where the next statement begins.
def Parse.resume {m : Type → Type} [Reader m] : Except Diagnostic Stmt → m Unit
  | .ok _ => advance
  | .error _ => do
    if (← peek).kind = .semicolon then advance
    advance

namespace Indexed

variable {α : Type}

def enter : Indexed Unit := do
  if maxNesting ≤ (← get).depth then blame fun _ => .tooDeep maxNesting
  else modify fun machine => { machine with depth := machine.depth + 1 }

-- Leaves whatever comes of a piece.
def closing (x : Indexed α) : Indexed α := fun machine =>
  match x machine with
  | .ok value stop => .ok value stop.leave
  | .error halt stop => .error halt stop.leave

def opened (x : Indexed α) : Indexed α := do
  enter
  closing x

-- Reads by the rules that are there at the moment.
def withGrammar (x : Grammar → Indexed α) : Indexed α := fun machine =>
  x machine.grammar machine

-- An expression, with fuel for the expressions inside it. Only the count of those that are open
-- keeps it from running out.
def expr (fuel : Nat) (limit : Precedence) : Indexed Expr :=
  match fuel with
  | 0 => opened fun machine => .error .endless machine
  | fuel + 1 =>
    opened (withGrammar fun grammar => grammar.nested (grammar.parts (expr fuel)) limit)

-- No more expressions can be open at once than the limit says.
def withParts (x : Grammar → Parts Indexed → Indexed α) : Indexed α :=
  withGrammar fun grammar => x grammar (grammar.parts (expr maxNesting))

def stmt : Indexed Stmt :=
  withParts fun grammar parts => grammar.stmt parts

-- A diagnostic is a result like any other. The other halts are not.
def caught (x : Indexed α) : Indexed (Except Diagnostic α) := fun machine =>
  match x machine with
  | .ok value stop => .ok (.ok value) stop
  | .error (.diagnostic diagnostic) stop => .ok (.error diagnostic) stop
  | .error halt stop => .error halt stop

-- Statements up to the end of input, each paid for with a token of the budget.
def statements (budget : List Token) : Indexed Report :=
  match budget with
  | [] => fun machine => .error .endless machine
  | _ :: budget => do
    if (← current).kind = .eof then return .ofAttempts []
    else
      let result ← caught stmt
      resume result
      let report ← statements budget
      return report.add result

def program : Indexed Report := do
  statements (← window).toList

def answer (reply : α → Reply) (x : Indexed α) : Indexed Reply := do
  match ← caught x with
  | .ok value => return reply value
  | .error diagnostic => return .stopped diagnostic

-- Changes the rules and nothing else.
def change (rules : Grammar → Grammar) : Indexed Reply := fun machine =>
  .ok .done { machine with grammar := rules machine.grammar }

def perform : Operation → Indexed Reply
  | .advance => answer (fun _ => .done) Reader.advance
  | .expect kind => answer (fun _ => .done) (Parse.expect kind)
  | .enter => answer (fun _ => .done) enter
  | .leave => fun machine => .ok .done machine.leave
  | .registerStmt kind rule => change (·.registerStmt kind rule)
  | .registerPrefix kind rule => change (·.registerPrefix kind rule)
  | .registerInfix kind rule => change (·.registerInfix kind rule)
  | .addStandardStmts => change Grammar.withStandardStmts
  | .addStandardExprs => change Grammar.withStandardExprs
  | .expr limit => answer .expr (expr maxNesting limit)
  | .stmt => answer .stmt stmt
  | .block => answer .block (withParts fun _ parts => parts.block)
  | .program => answer .report program
  | .applyStmt rule => answer .stmt (withParts fun _ parts => rule.parse parts)
  | .applyPrefix rule => answer .expr (withParts fun _ parts => rule.parse parts)
  | .applyInfix rule left => answer .expr (withParts fun _ parts => rule.parse parts left)

def performAll : List Operation → Indexed (List Reply)
  | [] => return []
  | operation :: operations => do
    let reply ← perform operation
    let replies ← performAll operations
    return reply :: replies

end Indexed

end ScriptFront
