import ScriptFront.Parse.Rule

namespace ScriptFront

open Reader Parse

-- How many expressions may be open at once.
def maxNesting : Nat := 256

namespace Grammar

variable {m : Type → Type} [Reader m]

-- The statement that the current token calls for.
def stmt (grammar : Grammar) (parts : Parts m) : m Stmt := do
  let token ← current
  ((grammar.stmtRule? token.kind).getD .expression).parse parts

-- A block goes on up to its closing brace. The end of input closes every open block.
def inBlock (window : Window) : Bool :=
  window.current.kind ≠ .closeCurly && window.current.kind ≠ .eof

-- Statements in braces, the opening one being current. The closing one is left current.
def blockOf (stmt : m Stmt) : m Block := do
  let token ← current
  advance
  let statements ← collectWhile inBlock do
    let statement ← stmt
    advance
    return statement
  return ⟨token, statements⟩

-- A block that is itself a statement opens no expression, so blocks may stand in blocks to any
-- depth. Each opens with a token of its own, which pays for it from the budget.
def blockWithin (grammar : Grammar) (expr : Precedence → m Expr) (budget : List Token) :
    m Block :=
  match budget with
  | [] => return ⟨← current, []⟩
  | _ :: budget => blockOf (grammar.stmt ⟨expr, grammar.blockWithin expr budget⟩)

-- The tokens left are budget enough.
def block (grammar : Grammar) (expr : Precedence → m Expr) : m Block := do
  grammar.blockWithin expr (← window).toList

-- The parts that rules see, given how expressions are read.
def parts (grammar : Grammar) (expr : Precedence → m Expr) : Parts m :=
  ⟨expr, grammar.block expr⟩

-- Whether the next token continues an expression whose operators all bind tighter than a limit.
def continues (grammar : Grammar) (limit : Precedence) (window : Window) : Bool :=
  limit < .ofKind window.peek.kind && (grammar.infixRule? window.peek.kind).isSome

-- Takes in one operator, which is the next token.
def continuation (grammar : Grammar) (parts : Parts m) (left : Expr) : m Expr := do
  advance
  match grammar.infixRule? (← current).kind with
  | some rule => rule.parse parts left
  | none => return left

-- Takes in operators from the left for as long as they bind tighter than the limit.
def climb (grammar : Grammar) (parts : Parts m) (limit : Precedence) (left : Expr) : m Expr :=
  iterateWhile (grammar.continues limit) (grammar.continuation parts) left

-- An expression whose operators all bind tighter than the limit, once it has been let in.
def nested (grammar : Grammar) (parts : Parts m) (limit : Precedence) : m Expr := do
  let token ← current
  match grammar.prefixRule? token.kind with
  | none => blame fun token => .missingPrefix token.kind
  | some rule => do
    let left ← rule.parse parts
    grammar.climb parts limit left

-- An expression with room for a number of expressions open at once, itself included.
def expr (grammar : Grammar) (levels : Nat) (limit : Precedence) : Parse Expr :=
  match levels with
  | 0 => blame fun _ => .tooDeep maxNesting
  | levels + 1 => grammar.nested (grammar.parts (grammar.expr levels)) limit

-- The parts that rules see with a number of expression levels left.
def partsAt (grammar : Grammar) (levels : Nat) : Parts Parse :=
  grammar.parts (grammar.expr levels)

end Grammar

end ScriptFront
