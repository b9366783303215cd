import ScriptFront.Proofs.Branches.Limit
import ScriptFront.Proofs.Spelling.Program

namespace ScriptFront

open Parse

-- What holds of whatever is read as a statement holds of every statement of a program.
theorem Report.statements_of_gives {P : Stmt → Prop} {stmt : Parse Stmt} (h : stmt.Gives P)
    (budget : List Token) (w : Window) :
    ∀ s ∈ (Report.ofAttempts (Attempt.runAll stmt budget w)).program.statements, P s := by
  induction budget generalizing w with
  | nil => simp [Attempt.runAll, Report.ofAttempts]
  | cons token budget ih =>
      unfold Attempt.runAll
      split
      · simp [Report.ofAttempts]
      · cases hrun : stmt w with
        | ok s stop =>
            rw [Attempt.run_of_ok hrun]
            exact List.forall_mem_cons.mpr ⟨h hrun, ih _⟩
        | error diagnostic stop =>
            rw [Attempt.run_of_error hrun]
            exact ih _

-- A sum of any length, without parentheses.
namespace Sum

def operand : Token := ⟨.identifier, "x"⟩

def sign : Token := ⟨.plus, "+"⟩

-- What stands behind the first operand when there are a number of signs.
def further : Nat → List Token
  | 0 => []
  | signs + 1 => further signs ++ [sign, operand]

def tokens (signs : Nat) : List Token :=
  operand :: further signs

def expr : Nat → Expr
  | 0 => .ident (.ofToken operand)
  | signs + 1 => .infixOp sign sign.literal (expr signs) (.ident (.ofToken operand))

theorem spelled_expr (signs : Nat) :
    ∃ level, .ofKind .plus ≤ level ∧ Spelled 2 (.expr level (expr signs)) (tokens signs) := by
  have hoperand (levels : Nat) : Spelled (levels + 1) (.expr .index (expr 0)) [operand] :=
    .ident rfl
  induction signs with
  | zero => exact ⟨.index, by decide, hoperand 1⟩
  | succ signs ih =>
      obtain ⟨level, hlevel, hleft⟩ := ih
      have hsign : sign.kind ∈ TokenKind.binaryOperators := by decide
      exact ⟨.ofKind .plus, Nat.le_refl _, .infixOp hsign hleft hlevel (hoperand 0) (by decide)⟩

-- However long it is, it is read as one statement.
theorem ofTokens_tokens (signs : Nat) :
    Program.ofTokens (tokens signs) = ⟨⟨[.expr operand (expr signs)]⟩, []⟩ := by
  obtain ⟨level, -, hexpr⟩ := spelled_expr signs
  have hstmt : Spelled 2 (.stmt false (.expr operand (expr signs))) (tokens signs ++ []) :=
    .expr hexpr .none
  have hstmts := Spelled.someStmts hstmt .noStmts (.inr (by simp))
  simp only [List.append_nil] at hstmts
  exact Program.ofTokens_of_spelled (hstmts.mono (by decide))

-- And it is as high as it is long.
theorem branch_expr (signs : Nat) : (Node.expr (expr signs)).Branch (signs + 1) signs := by
  induction signs with
  | zero => exact .leaf rfl
  | succ signs ih => exact .left rfl ih

theorem branch_stmt (signs : Nat) :
    (Node.stmt (.expr operand (expr signs))).Branch (signs + 2) signs :=
  .inside (List.mem_singleton.mpr rfl) (branch_expr signs)

end Sum

namespace Program

-- On a branch of a statement, whatever the tokens, there are no more than three nodes for every
-- expression that may be open, and the one of the statement. Only the nodes that the branch leaves
-- to the left are not counted: any number of operators, calls, indexes and fields may be taken in
-- one behind the other without a further expression being open.
theorem nodes_le_of_branch {tokens : List Token} {s : Stmt} {nodes lefts : Nat}
    (hmem : s ∈ (Program.ofTokens tokens).program.statements)
    (hbranch : (Node.stmt s).Branch nodes lefts) : nodes ≤ 3 * maxNesting + 1 + lefts := by
  have hstmt := Grammar.gives_stmt (Grammar.bounded_partsAt maxNesting)
  exact (Report.statements_of_gives hstmt _ _ s hmem).nodes_le hbranch

-- The branch goes through the body of a loop to the function that is called there.
theorem nodes_le_of_branch_while :
    let loop : Token := ⟨.kwWhile, "while"⟩
    let opening : Token := ⟨.openCurly, "\x7b"⟩
    let f : Token := ⟨.identifier, "f"⟩
    let bracket : Token := ⟨.openParen, "("⟩
    let x : Token := ⟨.identifier, "x"⟩
    let tokens : List Token := [loop, bracket, x, ⟨.closeParen, ")"⟩, opening, f, bracket, x,
      ⟨.closeParen, ")"⟩, ⟨.closeCurly, "\x7d"⟩]
    let call : Expr := .call bracket (.ident (.ofToken f)) [.ident (.ofToken x)]
    let s : Stmt := .expr loop (.whileLoop loop (.ident (.ofToken x)) ⟨opening, [.expr f call]⟩)
    (s ∈ (Program.ofTokens tokens).program.statements ∧ (Node.stmt s).Branch 6 1) ∧
      6 ≤ 3 * maxNesting + 1 + 1 := by
  intro loop opening f bracket x tokens call s
  have hmem : s ∈ (Program.ofTokens tokens).program.statements := List.mem_singleton.mpr rfl
  have hcall : (Node.expr call).Branch 2 1 := .left rfl (.leaf rfl)
  have hbody : (Node.block ⟨opening, [.expr f call]⟩).Branch 4 1 :=
    .inside (List.mem_singleton.mpr rfl) (.inside (List.mem_singleton.mpr rfl) hcall)
  have hbranch : (Node.stmt s).Branch 6 1 :=
    .inside (List.mem_singleton.mpr rfl) (.inside (by simp [Node.inside]) hbody)
  exact ⟨⟨hmem, hbranch⟩, nodes_le_of_branch hmem hbranch⟩

-- If they are counted, a sum with enough signs has a branch that is too long.
theorem not_nodes_le_of_branch :
    ¬∀ s ∈ (Program.ofTokens (Sum.tokens 768)).program.statements, ∀ nodes lefts,
      (Node.stmt s).Branch nodes lefts → nodes ≤ 3 * maxNesting + 1 := by
  intro h
  rw [Sum.ofTokens_tokens] at h
  have hnodes := h _ (List.mem_singleton.mpr rfl) _ _ (Sum.branch_stmt 768)
  exact absurd hnodes (by decide)

end Program

end ScriptFront
