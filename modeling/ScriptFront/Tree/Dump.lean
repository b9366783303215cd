import ScriptFront.Text.Integer
import ScriptFront.Tree

namespace ScriptFront

open Text (Dump)

def Ident.dump (ident : Ident) : Dump :=
  .record "Identifier" [("token", ident.token.dump), ("value", .ofText ident.name)]

-- Nodes show their token first.
def exprNode (name : String) (token : Token) (fields : List (String × Dump)) : Dump :=
  .wrapped "ExprWrapper" (.record name (("token", token.dump) :: fields))

def stmtNode (name : String) (token : Token) (fields : List (String × Dump)) : Dump :=
  .wrapped "StmtWrapper" (.record name (("token", token.dump) :: fields))

mutual

def Expr.dump : Expr → Dump
  | .ident name => .wrapped "ExprWrapper" name.dump
  | .integer token value =>
    exprNode "IntegerLiteral" token [("value", .atom (Text.ofInt64 value))]
  | .boolean token value =>
    exprNode "BooleanLiteral" token [("value", .ofBool value)]
  | .string token value =>
    exprNode "StringLiteral" token [("value", .ofText value)]
  | .prefixOp token operator right =>
    exprNode "PrefixExpr" token [("operator", .ofText operator), ("right", right.dump)]
  | .infixOp token operator left right =>
    exprNode "InfixExpr" token
      [("operator", .ofText operator), ("left", left.dump), ("right", right.dump)]
  | .ifElse token condition consequence none =>
    exprNode "IfExpr" token
      [("condition", condition.dump), ("consequence", consequence.dump),
        ("alternative", .atom "None")]
  | .ifElse token condition consequence (some alternative) =>
    exprNode "IfExpr" token
      [("condition", condition.dump), ("consequence", consequence.dump),
        ("alternative", .wrapped "Some" alternative.dump)]
  | .whileLoop token condition body =>
    exprNode "WhileExpr" token [("condition", condition.dump), ("body", body.dump)]
  | .function token parameters body =>
    exprNode "FunctionLiteral" token
      [("parameters", .sequence (parameters.map Ident.dump)), ("body", body.dump)]
  | .call token callee arguments =>
    exprNode "CallExpr" token
      [("function", callee.dump), ("arguments", .sequence (dumpExprs arguments))]
  | .array token elements =>
    exprNode "ArrayLiteral" token [("elements", .sequence (dumpExprs elements))]
  | .index token left index =>
    exprNode "IndexExpr" token [("left", left.dump), ("index", index.dump)]
  | .field token object name =>
    exprNode "FieldExpr" token [("object", object.dump), ("field", name.dump)]
  | .hash token pairs =>
    exprNode "HashLiteral" token [("pairs", .sequence (dumpPairs pairs))]

def dumpExprs : List Expr → List Dump
  | [] => []
  | expr :: exprs => expr.dump :: dumpExprs exprs

def dumpPairs : List (Expr × Expr) → List Dump
  | [] => []
  | (key, value) :: pairs => .pair key.dump value.dump :: dumpPairs pairs

def Block.dump : Block → Dump
  | ⟨token, statements⟩ =>
    .record "BlockStmt" [("token", token.dump), ("statements", .sequence (dumpStmts statements))]

def dumpStmts : List Stmt → List Dump
  | [] => []
  | statement :: statements => statement.dump :: dumpStmts statements

def Stmt.dump : Stmt → Dump
  | .letIn token name value =>
    stmtNode "LetStmt" token [("name", name.dump), ("value", value.dump)]
  | .returns token value =>
    stmtNode "ReturnStmt" token [("value", value.dump)]
  | .expr token value =>
    stmtNode "ExpressionStmt" token [("expression", value.dump)]
  | .block body => .wrapped "StmtWrapper" body.dump

end

def Program.dump (program : Program) : Dump :=
  .record "Program" [("statements", .sequence (dumpStmts program.statements))]

end ScriptFront
