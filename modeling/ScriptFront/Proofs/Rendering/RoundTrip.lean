import ScriptFront.Proofs.Rendering.Overflow
import ScriptFront.Proofs.Spelling.Program

namespace ScriptFront

open Reader Parse Window Lexeme Pattern Grammar

namespace Stmt

-- A binding, a return or an expression, made of plain parts.
def Plain : Stmt → Prop
  | .letIn token name value => token = .fixed .kwLet ∧ name.Plain ∧ value.Plain
  | .returns token value => token = .fixed .kwReturn ∧ value.Plain
  | .expr _ value => value.Plain
  | .block _ => False

-- Whether the canonical text ends with a semicolon.
def isClosed : Stmt → Bool
  | .letIn _ _ _ | .returns _ _ => true
  | .expr _ _ | .block _ => false

def renderTokens : Stmt → List Token
  | .letIn token name value =>
    token :: name.token :: .fixed .assignment :: (value.renderTokens ++ [.fixed .semicolon])
  | .returns token value => token :: (value.renderTokens ++ [.fixed .semicolon])
  | .expr _ value => value.renderTokens
  | .block _ => []

def renderNeed : Stmt → Nat
  | .letIn _ _ value | .returns _ value | .expr _ value => value.renderNeed
  | .block _ => 0

-- The statement with the token that it has in the canonical text. Only an expression can stand
-- there with another one, since its operators are in parentheses.
def reread : Stmt → Stmt
  | .expr _ value => .expr (value.renderTokens.headD .eof) value
  | statement => statement

variable {s : Stmt} {levels : Nat}

theorem render_reread (s : Stmt) : s.reread.render = s.render := by
  cases s <;> rfl

theorem spelled_renderTokens (h : s.Plain) (hneed : s.renderNeed ≤ levels) :
    Spelled levels (.stmt s.isClosed s.reread) s.renderTokens := by
  cases s with
  | letIn token name value =>
      obtain ⟨rfl, ⟨hname, hkind, -⟩, hvalue⟩ := h
      have hspelled := value.spelled_renderTokens hvalue hneed
      rw [hname]
      exact .letIn rfl hkind rfl hspelled (.semicolon rfl)
  | returns token value =>
      obtain ⟨rfl, hvalue⟩ := h
      exact .returns rfl (value.spelled_renderTokens hvalue hneed) (.semicolon rfl)
  | expr token value =>
      have hspelled := value.spelled_renderTokens h hneed
      have hne := hspelled.ne_nil
      simp only [reread, renderTokens, isClosed]
      cases htokens : value.renderTokens with
      | nil => exact absurd htokens hne
      | cons first rest =>
          rw [htokens] at hspelled
          simpa using Spelled.expr hspelled .none
  | block body => exact absurd h id

theorem yields_render (h : s.Plain) {rest : List Char} (hrest : s.isClosed = true ∨ Apart rest) :
    Yields s.render s.renderTokens rest := by
  have hsemicolon : Yields ";" [.fixed .semicolon] rest := .punctuation .semicolon (by decide) rest
  have hapart : Apart (";".toList ++ rest) := by simp [Apart]; decide
  cases s with
  | letIn token name value =>
      obtain ⟨rfl, hname, hvalue⟩ := h
      let behindMark : List Char := value.render.toList ++ (";".toList ++ rest)
      let behindName : List Char := (" " ++ "=" ++ " ").toList ++ behindMark
      have hkeyword : Yields ("let" ++ " ") [.fixed .kwLet] _ :=
        .keyword .kwLet (by decide) (Expr.opens_render (e := .ident name) hname behindName)
      have hnameYields : Yields (Expr.render (.ident name)) [name.token] behindName :=
        Expr.yields_render (.ident name) hname (by simp [behindName, Apart]; decide)
      have hassignment : Yields (" " ++ "=" ++ " ") [.fixed .assignment] behindMark :=
        .spaced .assignment List.mem_cons_self (Expr.opens_render hvalue (";".toList ++ rest))
      exact (((hkeyword.append hnameYields).append hassignment).append
        (value.yields_render hvalue hapart)).append hsemicolon
  | returns token value =>
      obtain ⟨rfl, hvalue⟩ := h
      have hkeyword : Yields ("return" ++ " ") [.fixed .kwReturn] _ :=
        .keyword .kwReturn (by decide) (Expr.opens_render hvalue (";".toList ++ rest))
      exact (hkeyword.append (value.yields_render hvalue hapart)).append hsemicolon
  | expr token value => exact value.yields_render h (hrest.resolve_left (by simp [isClosed]))
  | block body => exact absurd h id

-- A statement that needs more levels than there are is given up for want of them.
theorem tooDeep_of_lt (h : s.Plain) (hneed : levels < s.renderNeed) {w stop : Window}
    (hend : w.Terminated) (hspans : w.Spans s.renderTokens stop) :
    TooDeep (standard.stmt (standard.partsAt levels) w) := by
  cases s with
  | letIn token name value =>
      obtain ⟨rfl, ⟨-, hkind, -⟩, hvalue⟩ := h
      obtain ⟨hcurrent, hread⟩ := hspans.of_cons
      obtain ⟨hpeek, hread⟩ := hread.of_cons
      obtain ⟨hpeek', hread⟩ := hread.of_cons
      have hrule : (standard.stmtRule? w.current.kind).getD .expression = .letIn := by
        rw [hcurrent]
        rfl
      have hdeep := (value.overflows_renderTokens hvalue hneed).next
        (Expr.renderTokens_ne_nil hvalue) (by decide) hend.next.next hread
      rw [IsRead.stmt_apply hrule]
      exact .of_ok (current_apply w) (.of_ok (ident_eq_ok (by rw [hpeek, hkind]))
        (.of_ok (expect_eq_ok (by rw [hpeek']; rfl)) (.of_ok (advance_apply _) hdeep.bind)))
  | returns token value =>
      obtain ⟨rfl, hvalue⟩ := h
      obtain ⟨hcurrent, hread⟩ := hspans.of_cons
      have hrule : (standard.stmtRule? w.current.kind).getD .expression = .returns := by
        rw [hcurrent]
        rfl
      have hdeep := (value.overflows_renderTokens hvalue hneed).next
        (Expr.renderTokens_ne_nil hvalue) (by decide) hend hread
      rw [IsRead.stmt_apply hrule]
      exact .of_ok (current_apply w) (.of_ok (advance_apply w) hdeep.bind)
  | expr token value =>
      have hspelled := value.spelled_renderTokens h (Nat.le_refl _)
      have hdeep : TooDeep (standard.expr levels .lowest w) :=
        value.overflows_renderTokens h hneed hend (by decide) (.inl (by decide)) hspans
      have hrule : (standard.stmtRule? w.current.kind).getD .expression = .expression := by
        obtain ⟨rest, htokens, -⟩ := hspans
        simp only [renderTokens] at htokens
        rw [htokens] at hspelled
        exact IsRead.stmtRule_of_spelled hspelled
      rw [IsRead.stmt_apply hrule]
      exact .of_ok (current_apply w) hdeep.bind
  | block body => exact absurd h id

end Stmt

-- Only the last statement may go without a semicolon.
def StmtsPlain : List Stmt → Prop
  | [] => True
  | s :: ss => s.Plain ∧ (s.isClosed = true ∨ ss = []) ∧ StmtsPlain ss

section Stmts

variable {levels : Nat} {ss : List Stmt} {w stop : Window}

theorem StmtsPlain.plain (h : StmtsPlain ss) : ∀ s ∈ ss, s.Plain := by
  induction ss with
  | nil => simp
  | cons s ss ih =>
      obtain ⟨hs, -, hss⟩ := h
      exact List.forall_mem_cons.mpr ⟨hs, ih hss⟩

theorem stmts_spelled_renderTokens (h : StmtsPlain ss) (hneed : ∀ s ∈ ss, s.renderNeed ≤ levels) :
    Spelled levels (.stmts (ss.map Stmt.reread)) (ss.flatMap Stmt.renderTokens) := by
  induction ss with
  | nil => exact .noStmts
  | cons s ss ih =>
      obtain ⟨hs, hclosed, hss⟩ := h
      obtain ⟨hneedFirst, hneedRest⟩ := List.forall_mem_cons.mp hneed
      refine .someStmts (s.spelled_renderTokens hs hneedFirst) (ih hss hneedRest) ?_
      refine hclosed.imp_right ?_
      rintro rfl
      simp

theorem stmts_yields_render (h : StmtsPlain ss) :
    Yields (renderStmts ss) (ss.flatMap Stmt.renderTokens) [] := by
  induction ss with
  | nil => exact .nil []
  | cons s ss ih =>
      obtain ⟨hs, hclosed, hss⟩ := h
      refine Yields.append (s.yields_render hs (hclosed.imp_right ?_)) (ih hss)
      rintro rfl
      simp [renderStmts, Apart]

theorem StmtsPlain.kind_ne_eof (h : StmtsPlain ss) :
    ∀ token ∈ ss.flatMap Stmt.renderTokens, token.kind ≠ .eof := by
  intro token hmem
  obtain ⟨s, hs, htoken⟩ := List.mem_flatMap.mp hmem
  exact (Stmt.spelled_renderTokens (h.plain s hs) (Nat.le_refl _)).kind_ne_eof token htoken

-- The statements in front of the first one that needs too much are read, so its diagnostic comes
-- first.
theorem exists_diagnostics_of_lt (h : StmtsPlain ss) (hdeep : ∃ s ∈ ss, levels < s.renderNeed)
    (hend : w.Terminated) (hread : w.Reads (ss.flatMap Stmt.renderTokens) stop) :
    ∃ diagnostic rest, (Report.ofAttempts (standard.attempts levels w.next)).diagnostics =
      diagnostic :: rest ∧ diagnostic.cause = .tooDeep maxNesting := by
  induction ss generalizing w with
  | nil => simp at hdeep
  | cons s ss ih =>
      obtain ⟨hs, hclosed, hss⟩ := h
      obtain ⟨between, hfirst, hrest⟩ := hread.of_append
      have hspelled : Spelled s.renderNeed (.stmt s.isClosed s.reread) s.renderTokens :=
        s.spelled_renderTokens hs (Nat.le_refl _)
      by_cases hlt : levels < s.renderNeed
      · obtain ⟨blamed, last, herror⟩ :=
          s.tooDeep_of_lt hs hlt hend.next (hfirst.spans_next hspelled.stmt_ne_nil)
        rw [attempts_of_ne_eof hend.next (current_next_ne_eof hspelled hfirst),
          Attempt.run_of_error herror]
        exact ⟨_, _, rfl, rfl⟩
      · have hdeepRest : ∃ s ∈ ss, levels < s.renderNeed := by
          obtain ⟨s', hmem, hlt'⟩ := hdeep
          obtain rfl | hmem := List.mem_cons.mp hmem
          · exact absurd hlt' hlt
          · exact ⟨s', hmem, hlt'⟩
        have hclosed' : s.isClosed = true := by
          refine hclosed.resolve_right ?_
          rintro rfl
          simp at hdeepRest
        rw [attempts_of_spelled (hspelled.mono (by omega)) hend hfirst (.inl hclosed')]
        exact ih hss hdeepRest (hfirst.terminated hend) hrest

end Stmts

namespace Program

def Plain (program : Program) : Prop :=
  StmtsPlain program.statements

def reread (program : Program) : Program :=
  ⟨program.statements.map Stmt.reread⟩

theorem render_reread (program : Program) : program.reread.render = program.render := by
  obtain ⟨ss⟩ := program
  simp only [Program.render, reread]
  induction ss with
  | nil => rfl
  | cons s ss ih =>
      simp only [List.map_cons, renderStmts]
      rw [s.render_reread, ih]

-- The canonical text of a plain program is read as the program again as long as no expression in it
-- needs more levels than there are. Otherwise the first that does is blamed first.
theorem tokenize_render (program : Program) (h : program.Plain) :
    ∃ tokens, tokenize program.render = .ok tokens ∧
      ((∀ s ∈ program.statements, s.renderNeed ≤ maxNesting) →
        Program.ofTokens tokens = ⟨program.reread, []⟩ ∧
          program.reread.render = program.render) ∧
      ((∃ s ∈ program.statements, maxNesting < s.renderNeed) →
        ∃ diagnostic rest, (Program.ofTokens tokens).diagnostics = diagnostic :: rest ∧
          diagnostic.cause = .tooDeep maxNesting) := by
  have heof := StmtsPlain.kind_ne_eof h
  refine ⟨_, tokenize_of_yields (stmts_yields_render h), ?_⟩
  rw [ofTokens_concat_eof heof]
  constructor
  · intro hneed
    exact ⟨ofTokens_of_spelled (stmts_spelled_renderTokens h hneed), program.render_reread⟩
  · intro hdeep
    obtain ⟨w, stop, hend, hread, -, hreport⟩ := exists_window heof
    rw [hreport]
    exact exists_diagnostics_of_lt h hdeep hend hread

-- Each negation takes one level for itself and one for its parentheses, so 127 of them in a row can
-- be read again and 128 cannot.
theorem tokenize_render_negations :
    let negations (n : Nat) : Expr :=
      n.repeat (.prefixOp (.fixed .not) "!") (.boolean (.fixed .kwTrue) true)
    let program (n : Nat) : Program :=
      ⟨[.returns (.fixed .kwReturn) (negations n), .expr (.fixed .not) (negations n)]⟩
    (∃ tokens, tokenize (program 127).render = .ok tokens ∧
      Program.ofTokens tokens = ⟨(program 127).reread, []⟩) ∧
    ∃ tokens diagnostic rest, tokenize (program 128).render = .ok tokens ∧
      (Program.ofTokens tokens).diagnostics = diagnostic :: rest ∧
      diagnostic.cause = .tooDeep maxNesting := by
  intro negations program
  have hnegations (n : Nat) : (negations n).Plain ∧ (negations n).renderNeed = 2 * n + 1 := by
    induction n with
    | zero => exact ⟨rfl, rfl⟩
    | succ n ih =>
        obtain ⟨hplain, hneed⟩ := ih
        refine ⟨⟨by decide, rfl, rfl, hplain⟩, ?_⟩
        change 2 + (negations n).renderNeed = 2 * (n + 1) + 1
        omega
  have hplain (n : Nat) : (program n).Plain :=
    ⟨⟨rfl, (hnegations n).1⟩, .inl rfl, (hnegations n).1, .inr rfl, trivial⟩
  constructor
  · obtain ⟨tokens, htokens, hread, -⟩ := tokenize_render (program 127) (hplain 127)
    have hneed : ∀ s ∈ (program 127).statements, s.renderNeed ≤ maxNesting := by
      have hle : (negations 127).renderNeed ≤ maxNesting := by rw [(hnegations 127).2]; decide
      simpa [program, Stmt.renderNeed] using hle
    exact ⟨tokens, htokens, (hread hneed).1⟩
  · obtain ⟨tokens, htokens, -, hdeep⟩ := tokenize_render (program 128) (hplain 128)
    have hlt : maxNesting < (negations 128).renderNeed := by rw [(hnegations 128).2]; decide
    obtain ⟨diagnostic, rest, hdiagnostics, hcause⟩ := hdeep ⟨_, List.mem_cons_self, hlt⟩
    exact ⟨tokens, diagnostic, rest, htokens, hdiagnostics, hcause⟩

end Program

end ScriptFront
