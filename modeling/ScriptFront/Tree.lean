import ScriptFront.Token

namespace ScriptFront

-- An occurrence of a name.
structure Ident where
  token : Token
  name : String
deriving DecidableEq, Repr, Inhabited

namespace Ident

def ofToken (token : Token) : Ident :=
  ⟨token, token.literal⟩

end Ident

mutual

-- Every node keeps the token that introduced it.
inductive Expr where
  | ident (name : Ident)
  | integer (token : Token) (value : Int64)
  | boolean (token : Token) (value : Bool)
  | string (token : Token) (value : String)
  | prefixOp (token : Token) (operator : String) (right : Expr)
  | infixOp (token : Token) (operator : String) (left right : Expr)
  | ifElse (token : Token) (condition : Expr) (consequence : Block) (alternative : Option Block)
  | whileLoop (token : Token) (condition : Expr) (body : Block)
  | function (token : Token) (parameters : List Ident) (body : Block)
  | call (token : Token) (callee : Expr) (arguments : List Expr)
  | array (token : Token) (elements : List Expr)
  | index (token : Token) (left index : Expr)
  | field (token : Token) (object : Expr) (name : Ident)
  -- pairs of key and value in source order
  | hash (token : Token) (pairs : List (Expr × Expr))

structure Block where
  token : Token
  statements : List Stmt

inductive Stmt where
  | letIn (token : Token) (name : Ident) (value : Expr)
  | returns (token : Token) (value : Expr)
  | expr (token : Token) (value : Expr)
  | block (body : Block)

end

namespace Expr

def token : Expr → Token
  | .ident name => name.token
  | .integer token _ | .boolean token _ | .string token _ => token
  | .prefixOp token _ _ | .infixOp token _ _ _ => token
  | .ifElse token _ _ _ | .whileLoop token _ _ => token
  | .function token _ _ | .call token _ _ => token
  | .array token _ | .index token _ _ | .field token _ _ | .hash token _ => token

end Expr

namespace Stmt

def token : Stmt → Token
  | .letIn token _ _ | .returns token _ | .expr token _ => token
  | .block body => body.token

end Stmt

-- The statements of a source, in order.
structure Program where
  statements : List Stmt

namespace Program

def length (program : Program) : Nat :=
  program.statements.length

def isEmpty (program : Program) : Bool :=
  program.statements.isEmpty

-- The text that the first statement starts with.
def tokenLiteral (program : Program) : String :=
  (program.statements.head?.map fun statement => statement.token.literal).getD ""

end Program

end ScriptFront
