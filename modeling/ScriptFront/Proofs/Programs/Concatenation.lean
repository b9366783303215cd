import ScriptFront.Proofs.Spelling.Accepted

namespace ScriptFront

open Parse

namespace Grammar

variable {levels : Nat} {ss : List Stmt} {tokens : List Token} {w stop : Window}

-- Statements that are spelled up to a semicolon of their own are read whatever is behind them, and
-- then reading goes on as if it began there.
theorem ofAttempts_append (h : Spelled levels (.stmts ss) tokens)
    (hclosed : ∀ last ∈ tokens.getLast?, last.kind = .semicolon) (hend : w.Terminated)
    (hread : w.Reads tokens stop) :
    let report := Report.ofAttempts (standard.attempts levels stop.next)
    Report.ofAttempts (standard.attempts levels w.next) =
      ⟨⟨ss ++ report.program.statements⟩, report.diagnostics⟩ := by
  induction ss generalizing tokens w with
  | nil =>
      cases h with
      | noStmts =>
          rw [hread.eq_of_nil]
          rfl
  | cons s ss ih =>
      cases h with
      | @someStmts _ closed _ _ tokens tokens' hfirst hrest hseparate =>
          obtain ⟨between, hreadFirst, hreadRest⟩ := hread.of_append
          have hafter : closed = true ∨ Separates between.peek.kind := by
            by_cases htokens : tokens' = []
            · -- nothing comes between the statement and the semicolon at the end
              subst htokens
              obtain rfl | ⟨front, last, rfl⟩ := List.eq_nil_or_concat tokens
              · exact absurd rfl hfirst.stmt_ne_nil
              · rw [List.concat_eq_append] at hfirst
                have hlast : last.kind = .semicolon := hclosed last (by simp)
                exact .inl (hfirst.eq_true_of_semicolon hlast)
            · exact hseparate.imp_right fun hlowest =>
                IsRead.separates_peek_of_ne_nil hrest htokens hreadRest hlowest
          have hclosed' : ∀ last ∈ tokens'.getLast?, last.kind = .semicolon := by
            intro last hlast
            rw [Option.mem_def] at hlast
            exact hclosed last (by simp [List.getLast?_append, hlast])
          have hreport := ih hrest hclosed' (hreadFirst.terminated hend) hreadRest
          rw [attempts_of_spelled hfirst hend hreadFirst hafter, Report.ofAttempts_cons, hreport]
          rfl

end Grammar

-- A program without diagnostics that ends with a semicolon, and closes every brace it opens, is
-- read the same whatever follows it. What follows is read as it would be on its own.
theorem Program.ofTokens_append {first : List Token} (rest : List Token)
    (h : ∀ token ∈ first, token.kind ≠ .eof)
    (hclosed : ∀ last ∈ first.getLast?, last.kind = .semicolon)
    (hbraces : countKind .closeCurly first = countKind .openCurly first)
    (hok : (Program.ofTokens first).diagnostics = []) :
    Program.ofTokens (first ++ rest) =
      ⟨⟨(Program.ofTokens first).program.statements ++ (Program.ofTokens rest).program.statements⟩,
        (Program.ofTokens rest).diagnostics⟩ := by
  have hspelled := spelled_of_countKind_eq h hok hbraces
  obtain ⟨w, stop, hend, hread, hnext, hstop⟩ := Window.exists_before h rest
  have hreport := Grammar.ofAttempts_append hspelled hclosed hend hread
  rw [hnext, hstop] at hreport
  exact hreport

-- The second part is anything but a program: it starts with a parenthesis that nothing opens.
theorem Program.ofTokens_append_unopened :
    let first : List Token := [⟨.kwWhile, "while"⟩, ⟨.openParen, "("⟩, ⟨.identifier, "x"⟩,
      ⟨.closeParen, ")"⟩, ⟨.openCurly, "\x7b"⟩, ⟨.identifier, "y"⟩, ⟨.closeCurly, "\x7d"⟩,
      ⟨.semicolon, ";"⟩]
    let rest : List Token := [⟨.closeParen, ")"⟩, .eof, ⟨.semicolon, ";"⟩]
    ((∀ token ∈ first, token.kind ≠ .eof) ∧ (∀ last ∈ first.getLast?, last.kind = .semicolon) ∧
      countKind .closeCurly first = countKind .openCurly first ∧
      (Program.ofTokens first).diagnostics = []) ∧
    Program.ofTokens (first ++ rest) =
      ⟨⟨(Program.ofTokens first).program.statements ++ (Program.ofTokens rest).program.statements⟩,
        (Program.ofTokens rest).diagnostics⟩ :=
  ⟨by decide, Program.ofTokens_append _ (by decide) (by decide) (by decide) (by decide)⟩

end ScriptFront
