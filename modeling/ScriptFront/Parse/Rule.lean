import ScriptFront.Grammar
import ScriptFront.Parse.Basic
import ScriptFront.Precedence
import ScriptFront.Text.Integer
import ScriptFront.Tree

namespace ScriptFront

variable {m : Type → Type} [Reader m]

namespace Parse

open Reader

-- Every piece of reading starts with the first of its own tokens current, or with the token before
-- it where that is said, and leaves the last of them current.

-- A name behind the current token.
def ident : m Ident := do
  expect .identifier
  return .ofToken (← current)

-- The names between the parentheses of a function, the opening one being current.
def parameters : m (List Ident) := do
  if (← peek).kind = .closeParen then
    advance
    return []
  else
    let first ← ident
    let rest ← collectWhile (·.peekIs .comma) do
      advance
      ident
    expect .closeParen
    return first :: rest

-- An integer literal, which is current.
def integerLiteral : m Expr := do
  let token ← current
  match Text.int64? token.literal with
  | some value => return .integer token value
  | none => blame fun token => .malformedInteger token.literal

-- A semicolon behind a statement belongs to it.
def semicolon : m Unit := do
  if (← peek).kind = .semicolon then advance else return ()

end Parse

-- What a rule calls for its parts: expressions one level further in, whose operators all bind
-- tighter than a precedence, and blocks.
structure Parts (m : Type → Type) where
  expr : Precedence → m Expr
  block : m Block

namespace Parts

open Reader Parse

-- An expression between parentheses, the opening one being current.
def parenthesised (parts : Parts m) : m Expr := do
  advance
  let inner ← parts.expr .lowest
  expect .closeParen
  return inner

-- The condition of an `if` or a `while`, behind the current token.
def condition (parts : Parts m) : m Expr := do
  expect .openParen
  parts.parenthesised

-- A block behind the current token.
def braced (parts : Parts m) : m Block := do
  expect .openCurly
  parts.block

-- Expressions with commas between them, up to a closing token. No comma may follow the last.
def exprList (parts : Parts m) (close : TokenKind) : m (List Expr) := do
  if (← peek).kind = close then
    advance
    return []
  else
    advance
    let first ← parts.expr .lowest
    let rest ← collectWhile (·.peekIs .comma) do
      advance
      advance
      parts.expr .lowest
    expect close
    return first :: rest

-- One pair of a hash behind the current token, with the comma behind it. Only the last pair may
-- go without.
def pair (parts : Parts m) : m (Expr × Expr) := do
  advance
  let key ← parts.expr .lowest
  expect .colon
  advance
  let value ← parts.expr .lowest
  if (← peek).kind = .closeCurly then
    return (key, value)
  else
    expect .comma
    return (key, value)

-- The pairs of a hash, the opening brace being current.
def pairs (parts : Parts m) : m (List (Expr × Expr)) := do
  let pairs ← collectWhile (fun window => !window.peekIs .closeCurly) parts.pair
  expect .closeCurly
  return pairs

end Parts

open Reader Parse

-- Starts an expression at the current token.
def PrefixRule.parse (rule : PrefixRule) (parts : Parts m) : m Expr := do
  let token ← current
  match rule with
  | .identifier => return .ident (.ofToken token)
  | .integer => integerLiteral
  | .string => return .string token token.literal
  | .boolean => return .boolean token (token.kind = .kwTrue)
  | .operator =>
    advance
    let right ← parts.expr .operand
    return .prefixOp token token.literal right
  | .grouped => parts.parenthesised
  | .ifElse =>
    let condition ← parts.condition
    let consequence ← parts.braced
    if (← peek).kind = .kwElse then
      advance
      let alternative ← parts.braced
      return .ifElse token condition consequence (some alternative)
    else return .ifElse token condition consequence none
  | .whileLoop =>
    let condition ← parts.condition
    let body ← parts.braced
    return .whileLoop token condition body
  | .function =>
    expect .openParen
    let names ← parameters
    let body ← parts.braced
    return .function token names body
  | .array =>
    let elements ← parts.exprList .closeBracket
    return .array token elements
  | .hash =>
    let pairs ← parts.pairs
    return .hash token pairs

-- Continues the expression on the left, with its operator current. An operator takes only what
-- binds tighter than itself on its right, so operators of one precedence group to the left.
def InfixRule.parse (rule : InfixRule) (parts : Parts m) (left : Expr) : m Expr := do
  let token ← current
  match rule with
  | .operator =>
    advance
    let right ← parts.expr (.ofKind token.kind)
    return .infixOp token token.literal left right
  | .call =>
    let arguments ← parts.exprList .closeParen
    return .call token left arguments
  | .index =>
    advance
    let index ← parts.expr .lowest
    expect .closeBracket
    return .index token left index
  | .field =>
    let name ← ident
    return .field token left name

-- Reads a statement from the current token on.
def StmtRule.parse (rule : StmtRule) (parts : Parts m) : m Stmt := do
  let token ← current
  match rule with
  | .letIn =>
    let name ← ident
    expect .assignment
    advance
    let value ← parts.expr .lowest
    semicolon
    return .letIn token name value
  | .returns =>
    advance
    let value ← parts.expr .lowest
    semicolon
    return .returns token value
  | .expression =>
    let value ← parts.expr .lowest
    semicolon
    return .expr token value
  | .block =>
    let body ← parts.block
    return .block body

end ScriptFront
