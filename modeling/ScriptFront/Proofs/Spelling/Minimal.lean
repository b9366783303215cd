import ScriptFront.Proofs.Spelling.Program
import ScriptFront.Proofs.Spelling.Taken

namespace ScriptFront

-- The precedence of the operator applied last, with no parentheses around it.
def Expr.level : Expr → Precedence
  | .prefixOp _ _ _ => .operand
  | .infixOp token _ _ _ => .ofKind token.kind
  | _ => .index

def parenthesise (needed : Bool) (tokens : List Token) : List Token :=
  if needed then .fixed .openParen :: (tokens ++ [.fixed .closeParen]) else tokens

mutual

-- The tokens of a tree with parentheses only where the tree would be another one without them.
def Expr.spell : Expr → List Token
  | .ident name => [name.token]
  | .integer token _ | .boolean token _ | .string token _ => [token]
  | .prefixOp token _ right => token :: parenthesise (right.level < .operand) right.spell
  | .infixOp token _ left right =>
    parenthesise (left.level < .ofKind token.kind) left.spell ++
      token :: parenthesise (right.level ≤ .ofKind token.kind) right.spell
  | .ifElse token condition consequence none =>
    token :: .fixed .openParen ::
      (condition.spell ++ .fixed .closeParen :: consequence.spell)
  | .ifElse token condition consequence (some alternative) =>
    token :: .fixed .openParen ::
      (condition.spell ++ .fixed .closeParen ::
        (consequence.spell ++ .fixed .kwElse :: alternative.spell))
  | .whileLoop token condition body =>
    token :: .fixed .openParen :: (condition.spell ++ .fixed .closeParen :: body.spell)
  | .function token names body =>
    token :: .fixed .openParen ::
      ((names.map Ident.token).intersperse (.fixed .comma) ++ .fixed .closeParen :: body.spell)
  | .call token callee arguments =>
    parenthesise (callee.level ≤ .operand) callee.spell ++
      token :: (spellExprs arguments ++ [.fixed .closeParen])
  | .array token elements => token :: (spellExprs elements ++ [.fixed .closeBracket])
  | .index token left index =>
    parenthesise (left.level ≤ .operand) left.spell ++
      token :: (index.spell ++ [.fixed .closeBracket])
  | .field token object name =>
    parenthesise (object.level ≤ .operand) object.spell ++ [token, name.token]
  | .hash token pairs => token :: (spellPairs pairs ++ [.fixed .closeCurly])

def spellExprs : List Expr → List Token
  | [] => []
  | e :: es => e.spell ++ spellFurtherExprs es

def spellFurtherExprs : List Expr → List Token
  | [] => []
  | e :: es => .fixed .comma :: (e.spell ++ spellFurtherExprs es)

def spellPairs : List (Expr × Expr) → List Token
  | [] => []
  | (key, value) :: pairs =>
    key.spell ++ .fixed .colon ::
      (value.spell ++ if pairs.isEmpty then [] else .fixed .comma :: spellPairs pairs)

def Block.spell : Block → List Token
  | ⟨token, statements⟩ => token :: (spellStmts statements ++ [.fixed .closeCurly])

def spellStmts : List Stmt → List Token
  | [] => []
  | statement :: statements => statement.spell ++ spellStmts statements

-- Every statement gets its semicolon.
def Stmt.spell : Stmt → List Token
  | .letIn token name value =>
    token :: name.token :: .fixed .assignment :: (value.spell ++ [.fixed .semicolon])
  | .returns token value => token :: (value.spell ++ [.fixed .semicolon])
  | .expr _ value => value.spell ++ [.fixed .semicolon]
  | .block body => body.spell

end

def parenthesisedNeed (needed : Bool) (need : Nat) : Nat :=
  if needed then need + 1 else need

mutual

-- How many expressions stand inside each other in the spelling, parentheses included.
def Expr.need : Expr → Nat
  | .ident _ | .integer _ _ | .boolean _ _ | .string _ _ => 1
  | .prefixOp _ _ right => parenthesisedNeed (right.level < .operand) right.need + 1
  | .infixOp token _ left right =>
    max (parenthesisedNeed (left.level < .ofKind token.kind) left.need)
      (parenthesisedNeed (right.level ≤ .ofKind token.kind) right.need + 1)
  | .ifElse _ condition consequence none => max condition.need consequence.need + 1
  | .ifElse _ condition consequence (some alternative) =>
    max (max condition.need consequence.need) alternative.need + 1
  | .whileLoop _ condition body => max condition.need body.need + 1
  | .function _ _ body => body.need + 1
  | .call _ callee arguments =>
    max (parenthesisedNeed (callee.level ≤ .operand) callee.need) (needExprs arguments + 1)
  | .array _ elements => needExprs elements + 1
  | .index _ left index =>
    max (parenthesisedNeed (left.level ≤ .operand) left.need) (index.need + 1)
  | .field _ object _ => parenthesisedNeed (object.level ≤ .operand) object.need
  | .hash _ pairs => needPairs pairs + 1

def needExprs : List Expr → Nat
  | [] => 0
  | e :: es => max e.need (needExprs es)

def needPairs : List (Expr × Expr) → Nat
  | [] => 0
  | (key, value) :: pairs => max (max key.need value.need) (needPairs pairs)

def Block.need : Block → Nat
  | ⟨_, statements⟩ => needStmts statements

def needStmts : List Stmt → Nat
  | [] => 0
  | statement :: statements => max statement.need (needStmts statements)

def Stmt.need : Stmt → Nat
  | .letIn _ _ value | .returns _ value | .expr _ value => value.need
  | .block body => body.need

end

def Ident.Fits (name : Ident) : Prop :=
  name.token.kind = .identifier ∧ name.name = name.token.literal

mutual

-- Every node goes with the token it keeps. A statement that is an expression keeps the first token
-- of its spelling. No statement of the language is a block.
def Expr.Fits : Expr → Prop
  | .ident name => name.Fits
  | .integer token value => token.kind = .integer ∧ Text.int64? token.literal = some value
  | .boolean token value =>
    (token.kind = .kwTrue ∨ token.kind = .kwFalse) ∧ value = decide (token.kind = .kwTrue)
  | .string token value => token.kind = .string ∧ value = token.literal
  | .prefixOp token operator right =>
    token.kind ∈ TokenKind.unaryOperators ∧ operator = token.literal ∧ right.Fits
  | .infixOp token operator left right =>
    token.kind ∈ TokenKind.binaryOperators ∧ operator = token.literal ∧ left.Fits ∧ right.Fits
  | .ifElse token condition consequence none =>
    token.kind = .kwIf ∧ condition.Fits ∧ consequence.Fits
  | .ifElse token condition consequence (some alternative) =>
    token.kind = .kwIf ∧ condition.Fits ∧ consequence.Fits ∧ alternative.Fits
  | .whileLoop token condition body => token.kind = .kwWhile ∧ condition.Fits ∧ body.Fits
  | .function token names body =>
    token.kind = .kwFn ∧ (∀ name ∈ names, name.Fits) ∧ body.Fits
  | .call token callee arguments =>
    token.kind = .openParen ∧ callee.Fits ∧ ExprsFit arguments
  | .array token elements => token.kind = .openBracket ∧ ExprsFit elements
  | .index token left index => token.kind = .openBracket ∧ left.Fits ∧ index.Fits
  | .field token object name => token.kind = .dot ∧ object.Fits ∧ name.Fits
  | .hash token pairs => token.kind = .openCurly ∧ PairsFit pairs

def ExprsFit : List Expr → Prop
  | [] => True
  | e :: es => e.Fits ∧ ExprsFit es

def PairsFit : List (Expr × Expr) → Prop
  | [] => True
  | (key, value) :: pairs => key.Fits ∧ value.Fits ∧ PairsFit pairs

def Block.Fits : Block → Prop
  | ⟨token, statements⟩ => token.kind = .openCurly ∧ StmtsFit statements

def StmtsFit : List Stmt → Prop
  | [] => True
  | statement :: statements => statement.Fits ∧ StmtsFit statements

def Stmt.Fits : Stmt → Prop
  | .letIn token name value => token.kind = .kwLet ∧ name.Fits ∧ value.Fits
  | .returns token value => token.kind = .kwReturn ∧ value.Fits
  | .expr token value => value.spell.head? = some token ∧ value.Fits
  | .block _ => False

end

section Parenthesise

variable {levels : Nat} {level : Precedence} {e : Expr} {tokens : List Token} {needed : Bool}

theorem Spelled.parenthesise (h : Spelled levels (.expr level e) tokens) :
    Spelled (parenthesisedNeed needed levels) (.expr (if needed then .index else level) e)
      (parenthesise needed tokens) := by
  cases needed with
  | true => exact .grouped rfl h rfl
  | false => exact h

-- A part on the left that needs no more than some levels, and one further in that needs some more.
theorem Spelled.ofMax {levels' : Nat} {phrase phrase' : Phrase} {tokens' : List Token}
    (h : Spelled levels (.expr level e) tokens) (h' : Spelled levels' phrase tokens')
    {tokens'' : List Token}
    (hwhole : ∀ {n : Nat}, Spelled (n + 1) (.expr level e) tokens → Spelled n phrase tokens' →
      Spelled (n + 1) phrase' tokens'') :
    Spelled (max levels (levels' + 1)) phrase' tokens'' := by
  obtain ⟨n, hn⟩ := Nat.exists_eq_add_of_le' (Nat.le_max_right levels (levels' + 1))
  have hn' : max levels (levels' + 1) = n + levels' + 1 := by omega
  rw [hn']
  exact hwhole (h.mono (by omega)) (h'.mono (by omega))

theorem Expr.operand_lt_of_parenthesised (e : Expr) :
    Precedence.operand < if decide (e.level ≤ .operand) then .index else e.level := by
  by_cases hle : e.level ≤ .operand
  · simp only [hle, decide_true, if_true]
    decide
  · simp only [hle, decide_false]
    exact Nat.lt_of_not_le hle

end Parenthesise

theorem Ident.Fits.eq_ofToken {name : Ident} (h : name.Fits) : name = .ofToken name.token := by
  obtain ⟨token, name⟩ := name
  exact congrArg (Ident.mk token) h.2

theorem furtherNames_of_fits {names : List Ident} (h : ∀ name ∈ names, name.Fits) (first : Token) :
    ∃ tokens, (first :: names.map Ident.token).intersperse (.fixed .comma) = first :: tokens ∧
      FurtherNames names tokens := by
  induction names generalizing first with
  | nil => exact ⟨[], rfl, .nil⟩
  | cons name names ih =>
      obtain ⟨hname, hnames⟩ := List.forall_mem_cons.mp h
      obtain ⟨tokens, htokens, hspelled⟩ := ih hnames name.token
      refine ⟨.fixed .comma :: name.token :: tokens, ?_, ?_⟩
      · rw [List.map_cons, List.intersperse_cons_cons, htokens]
      · rw [hname.eq_ofToken]
        exact .cons rfl hname.1 hspelled

theorem names_of_fits {names : List Ident} (h : ∀ name ∈ names, name.Fits) :
    Names names ((names.map Ident.token).intersperse (.fixed .comma)) := by
  cases names with
  | nil => exact .nil
  | cons name names =>
      obtain ⟨hname, hnames⟩ := List.forall_mem_cons.mp h
      obtain ⟨tokens, htokens, hspelled⟩ := furtherNames_of_fits hnames name.token
      rw [List.map_cons, htokens, hname.eq_ofToken]
      exact .cons hname.1 hspelled

mutual

theorem Expr.spelled (e : Expr) (h : e.Fits) : Spelled e.need (.expr e.level e) e.spell := by
  cases e with
  | ident name =>
      have hname : name = .ofToken name.token := Ident.Fits.eq_ofToken h
      rw [hname]
      exact .ident h.1
  | integer token value => exact .integer h.1 h.2
  | boolean token value =>
      obtain ⟨hkind, rfl⟩ := h
      exact .boolean hkind
  | string token value =>
      obtain ⟨hkind, rfl⟩ := h
      exact .string hkind
  | prefixOp token operator right =>
      obtain ⟨hkind, rfl, hright⟩ := h
      refine .prefixOp hkind (Expr.spelled right hright).parenthesise ?_
      by_cases hlt : right.level < .operand
      · simp only [hlt, decide_true, if_true]
        decide
      · simp only [hlt, decide_false]
        exact Nat.le_of_not_lt hlt
  | infixOp token operator left right =>
      obtain ⟨hkind, rfl, hleft, hright⟩ := h
      have hleftSpelled : Spelled _ _ (parenthesise (left.level < .ofKind token.kind) left.spell) :=
        (Expr.spelled left hleft).parenthesise
      have hrightSpelled :
          Spelled _ _ (parenthesise (right.level ≤ .ofKind token.kind) right.spell) :=
        (Expr.spelled right hright).parenthesise
      exact .ofMax hleftSpelled hrightSpelled fun hleftSpelled hrightSpelled =>
        .infixOp hkind hleftSpelled
          (by
            by_cases hlt : left.level < .ofKind token.kind
            · simp only [hlt, decide_true, if_true]
              exact Precedence.le_index _
            · simp only [hlt, decide_false]
              exact Nat.le_of_not_lt hlt)
          hrightSpelled
          (by
            by_cases hle : right.level ≤ .ofKind token.kind
            · simp only [hle, decide_true, if_true]
              exact Nat.lt_trans (Precedence.ofKind_lt_operand hkind) (by decide)
            · simp only [hle, decide_false]
              exact Nat.lt_of_not_le hle)
  | ifElse token condition consequence alternative =>
      cases alternative with
      | none =>
          obtain ⟨hkind, hcondition, hconsequence⟩ := h
          exact .ifThen hkind rfl ((Expr.spelled condition hcondition).mono (Nat.le_max_left _ _))
            rfl ((Block.spelled consequence hconsequence).mono (Nat.le_max_right _ _))
      | some alternative =>
          obtain ⟨hkind, hcondition, hconsequence, halternative⟩ := h
          have hmax := Nat.le_max_left (max condition.need consequence.need) alternative.need
          exact .ifElse hkind rfl
            ((Expr.spelled condition hcondition).mono (Nat.le_trans (Nat.le_max_left _ _) hmax)) rfl
            ((Block.spelled consequence hconsequence).mono
              (Nat.le_trans (Nat.le_max_right _ _) hmax)) rfl
            ((Block.spelled alternative halternative).mono (Nat.le_max_right _ _))
  | whileLoop token condition body =>
      obtain ⟨hkind, hcondition, hbody⟩ := h
      exact .whileLoop hkind rfl ((Expr.spelled condition hcondition).mono (Nat.le_max_left _ _))
        rfl ((Block.spelled body hbody).mono (Nat.le_max_right _ _))
  | function token names body =>
      obtain ⟨hkind, hnames, hbody⟩ := h
      exact .function hkind rfl (names_of_fits hnames) rfl (Block.spelled body hbody)
  | call token callee arguments =>
      obtain ⟨hkind, hcallee, harguments⟩ := h
      exact .ofMax (Expr.spelled callee hcallee).parenthesise (exprs_spelled arguments harguments)
        fun hcalleeSpelled hargumentsSpelled =>
          .call hcalleeSpelled (Expr.operand_lt_of_parenthesised callee) hkind hargumentsSpelled rfl
  | array token elements =>
      obtain ⟨hkind, helements⟩ := h
      exact .array hkind (exprs_spelled elements helements) rfl
  | index token left position =>
      obtain ⟨hkind, hleft, hposition⟩ := h
      exact .ofMax (Expr.spelled left hleft).parenthesise (Expr.spelled position hposition)
        fun hleftSpelled hpositionSpelled =>
          .index hleftSpelled (Expr.operand_lt_of_parenthesised left) hkind hpositionSpelled rfl
  | field token object name =>
      obtain ⟨hkind, hobject, hname⟩ := h
      have hobjectSpelled : Spelled _ _ (parenthesise (object.level ≤ .operand) object.spell) :=
        (Expr.spelled object hobject).parenthesise
      obtain ⟨n, hn⟩ := hobjectSpelled.exists_levels
      rw [Ident.Fits.eq_ofToken hname]
      change Spelled (parenthesisedNeed (object.level ≤ .operand) object.need) _ _
      rw [hn] at hobjectSpelled ⊢
      exact .field hobjectSpelled (Expr.operand_lt_of_parenthesised object) hkind hname.1
  | hash token pairs =>
      obtain ⟨hkind, hpairs⟩ := h
      exact .hash hkind (pairs_spelled pairs hpairs) rfl

theorem exprs_spelled (es : List Expr) (h : ExprsFit es) :
    Spelled (needExprs es) (.exprs es) (spellExprs es) := by
  cases es with
  | nil => exact .noExprs
  | cons e es =>
      exact .someExprs ((Expr.spelled e h.1).mono (Nat.le_max_left _ _))
        ((furtherExprs_spelled es h.2).mono (Nat.le_max_right _ _))

theorem furtherExprs_spelled (es : List Expr) (h : ExprsFit es) :
    Spelled (needExprs es) (.furtherExprs es) (spellFurtherExprs es) := by
  cases es with
  | nil => exact .noFurtherExprs
  | cons e es =>
      exact .someFurtherExprs rfl ((Expr.spelled e h.1).mono (Nat.le_max_left _ _))
        ((furtherExprs_spelled es h.2).mono (Nat.le_max_right _ _))

theorem pairs_spelled (ps : List (Expr × Expr)) (h : PairsFit ps) :
    Spelled (needPairs ps) (.pairs ps) (spellPairs ps) := by
  cases ps with
  | nil => exact .noPairs
  | cons pair ps =>
      obtain ⟨key, value⟩ := pair
      obtain ⟨hkey, hvalue, hps⟩ := h
      have hmax := Nat.le_max_left (max key.need value.need) (needPairs ps)
      have hkeySpelled : Spelled (needPairs ((key, value) :: ps)) _ _ :=
        (Expr.spelled key hkey).mono (Nat.le_trans (Nat.le_max_left _ _) hmax)
      have hvalueSpelled : Spelled (needPairs ((key, value) :: ps)) _ _ :=
        (Expr.spelled value hvalue).mono (Nat.le_trans (Nat.le_max_right _ _) hmax)
      have hpsSpelled : Spelled (needPairs ((key, value) :: ps)) _ _ :=
        (pairs_spelled ps hps).mono (Nat.le_max_right _ _)
      cases ps with
      | nil =>
          simp only [spellPairs, List.isEmpty_nil, if_true, List.append_nil]
          exact .lastPair hkeySpelled rfl hvalueSpelled
      | cons pair ps => exact .pairComma hkeySpelled rfl hvalueSpelled rfl hpsSpelled

theorem Block.spelled (b : Block) (h : b.Fits) : Spelled b.need (.block b) b.spell := by
  obtain ⟨token, ss⟩ := b
  exact .block h.1 (stmts_spelled ss h.2) rfl

theorem stmts_spelled (ss : List Stmt) (h : StmtsFit ss) :
    Spelled (needStmts ss) (.stmts ss) (spellStmts ss) := by
  cases ss with
  | nil => exact .noStmts
  | cons s ss =>
      exact .someStmts ((Stmt.spelled s h.1).mono (Nat.le_max_left _ _))
        ((stmts_spelled ss h.2).mono (Nat.le_max_right _ _)) (.inl rfl)

theorem Stmt.spelled (s : Stmt) (h : s.Fits) : Spelled s.need (.stmt true s) s.spell := by
  cases s with
  | letIn token name value =>
      obtain ⟨hkind, hname, hvalue⟩ := h
      rw [Ident.Fits.eq_ofToken hname]
      exact .letIn hkind hname.1 rfl (Expr.spelled value hvalue) (.semicolon rfl)
  | returns token value =>
      obtain ⟨hkind, hvalue⟩ := h
      exact .returns hkind (Expr.spelled value hvalue) (.semicolon rfl)
  | expr token value =>
      obtain ⟨hhead, hvalue⟩ := h
      have hspelled := Expr.spelled value hvalue
      obtain ⟨rest, hrest⟩ := List.head?_eq_some_iff.mp hhead
      change Spelled value.need _ (value.spell ++ _)
      rw [hrest] at hspelled ⊢
      exact .expr hspelled (.semicolon rfl)
  | block body => exact absurd h id

end

namespace Program

def spell (program : Program) : List Token :=
  spellStmts program.statements

def Fits (program : Program) : Prop :=
  StmtsFit program.statements

theorem needStmts_le {levels : Nat} {ss : List Stmt} (h : ∀ s ∈ ss, s.need ≤ levels) :
    needStmts ss ≤ levels := by
  induction ss with
  | nil => exact Nat.zero_le _
  | cons s ss ih =>
      obtain ⟨hs, hss⟩ := List.forall_mem_cons.mp h
      exact Nat.max_le.mpr ⟨hs, ih hss⟩

-- Spelled with no more parentheses than needed, a program is read as itself, as long as its
-- expressions nest no deeper than they may.
theorem ofTokens_spell (program : Program) (hfits : program.Fits)
    (hneed : ∀ statement ∈ program.statements, statement.need ≤ maxNesting) :
    Program.ofTokens program.spell = ⟨program, []⟩ :=
  ofTokens_of_spelled ((stmts_spelled program.statements hfits).mono (needStmts_le hneed))

-- The operand on the right keeps its parentheses.
theorem ofTokens_spell_difference :
    let name (literal : String) : Expr := .ident (.ofToken ⟨.identifier, literal⟩)
    let difference (left right : Expr) : Expr := .infixOp ⟨.dash, "-"⟩ "-" left right
    let program : Program :=
      ⟨[.returns ⟨.kwReturn, "return"⟩ (difference (name "a") (difference (name "b") (name "c")))]⟩
    program.Fits ∧ (∀ statement ∈ program.statements, statement.need ≤ maxNesting) ∧
      Program.ofTokens program.spell = ⟨program, []⟩ := by
  intro name difference program
  have hfits : program.Fits := by
    simp [Fits, program, difference, name, StmtsFit, Stmt.Fits, Expr.Fits, Ident.Fits,
      Ident.ofToken, TokenKind.binaryOperators]
  have hneed : ∀ statement ∈ program.statements, statement.need ≤ maxNesting := by decide
  exact ⟨hfits, hneed, ofTokens_spell program hfits hneed⟩

end Program

end ScriptFront
