import ScriptFront.Tree

namespace ScriptFront

-- The canonical text of a tree. Every operator application stands in parentheses, so the text
-- shows how the operators were grouped. Literals keep their spelling, blocks lose their braces.

mutual

def Expr.render : Expr → String
  | .ident ⟨_, name⟩ => name
  | .integer token _ | .boolean token _ | .string token _ => token.literal
  | .prefixOp _ operator right => "(" ++ operator ++ right.render ++ ")"
  | .infixOp _ operator left right =>
    "(" ++ left.render ++ " " ++ operator ++ " " ++ right.render ++ ")"
  | .ifElse _ condition consequence none =>
    "if" ++ condition.render ++ " " ++ consequence.render
  | .ifElse _ condition consequence (some alternative) =>
    "if" ++ condition.render ++ " " ++ consequence.render ++ "else " ++ alternative.render
  | .whileLoop _ condition body => "while" ++ condition.render ++ " " ++ body.render
  | .function token parameters body =>
    token.literal ++ "(" ++ ", ".intercalate (parameters.map Ident.name) ++ ") " ++ body.render
  | .call _ callee arguments =>
    callee.render ++ "(" ++ ", ".intercalate (renderExprs arguments) ++ ")"
  | .array _ elements => "[" ++ ", ".intercalate (renderExprs elements) ++ "]"
  | .index _ left index => "(" ++ left.render ++ "[" ++ index.render ++ "])"
  | .field _ object ⟨_, name⟩ => "(" ++ object.render ++ "." ++ name ++ ")"
  | .hash _ pairs => "\x7b" ++ ", ".intercalate (renderPairs pairs) ++ "\x7d"

def renderExprs : List Expr → List String
  | [] => []
  | expr :: exprs => expr.render :: renderExprs exprs

def renderPairs : List (Expr × Expr) → List String
  | [] => []
  | (key, value) :: pairs => (key.render ++ ":" ++ value.render) :: renderPairs pairs

def Block.render : Block → String
  | ⟨_, statements⟩ => renderStmts statements

def renderStmts : List Stmt → String
  | [] => ""
  | statement :: statements => statement.render ++ renderStmts statements

def Stmt.render : Stmt → String
  | .letIn token ⟨_, name⟩ value => token.literal ++ " " ++ name ++ " = " ++ value.render ++ ";"
  | .returns token value => token.literal ++ " " ++ value.render ++ ";"
  | .expr _ value => value.render
  | .block body => body.render

end

def Program.render (program : Program) : String :=
  renderStmts program.statements

end ScriptFront
