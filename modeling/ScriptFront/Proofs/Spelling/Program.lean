import ScriptFront.Proofs.Reading.Attempts
import ScriptFront.Proofs.Spelling.Completeness

namespace ScriptFront

open Parse

namespace Grammar

variable {levels : Nat} {s : Stmt} {ss : List Stmt} {closed : Bool} {tokens : List Token}
  {w between stop : Window}

theorem current_next_ne_eof (h : Spelled levels (.stmt closed s) tokens)
    (hread : w.Reads tokens between) : w.next.current.kind ≠ .eof := by
  obtain ⟨token, rest, rfl, hstarts⟩ := h.exists_stmt_head
  rw [w.current_next, hread.of_cons.1]
  intro heof
  exact hstarts.notMem (by simp [heof])

-- The first try at the tokens of a statement reads it, and the next try begins behind it.
theorem attempts_of_spelled (h : Spelled levels (.stmt closed s) tokens) (hend : w.Terminated)
    (hread : w.Reads tokens between) (hafter : closed = true ∨ Separates between.peek.kind) :
    standard.attempts levels w.next =
      ⟨w.next, .ok s, between⟩ :: standard.attempts levels between.next := by
  have hk := current_next_ne_eof h hread
  have hrun := h.isRead hend.next (hread.spans_next h.stmt_ne_nil) hafter
  rw [attempts_of_ne_eof hend.next hk, Attempt.run_of_ok hrun]
  rfl

-- Statements up to the end of input are read one by one, without a failure.
theorem ofAttempts_of_spelled (h : Spelled levels (.stmts ss) tokens) (hend : w.Terminated)
    (hread : w.Reads tokens stop) (hpeek : stop.peek.kind = .eof) :
    Report.ofAttempts (standard.attempts levels w.next) = ⟨⟨ss⟩, []⟩ := by
  induction ss generalizing tokens w with
  | nil =>
      cases h with
      | noStmts =>
          rw [hread.eq_of_nil] at hpeek
          rw [attempts_of_eof (by rw [w.current_next, hpeek])]
          rfl
  | cons s ss ih =>
      cases h with
      | someStmts hfirst hrest hseparate =>
          obtain ⟨between, hreadFirst, hreadRest⟩ := hread.of_append
          have hafter := hseparate.imp_right fun hlowest =>
            IsRead.separates_peek hrest hreadRest hlowest (by rw [hpeek]; decide)
          have hreport := ih hrest (hreadFirst.terminated hend) hreadRest
          rw [attempts_of_spelled hfirst hend hreadFirst hafter, Report.ofAttempts_cons, hreport]
          rfl

end Grammar

namespace Program

variable {tokens : List Token}

theorem exists_window (h : ∀ token ∈ tokens, token.kind ≠ .eof) :
    ∃ w stop : Window, w.Terminated ∧ w.Reads tokens stop ∧ stop.peek.kind = .eof ∧
      Program.ofTokens tokens = .ofAttempts (Grammar.standard.attempts maxNesting w.next) := by
  obtain ⟨w, stop, hend, hread, hnext, hstop⟩ := Window.exists_before h []
  rw [List.append_nil] at hnext
  refine ⟨w, stop, hend, hread, ?_, by rw [hnext]; rfl⟩
  rw [← stop.current_next, hstop]
  rfl

theorem ofTokens_concat_eof (h : ∀ token ∈ tokens, token.kind ≠ .eof) :
    Program.ofTokens (tokens ++ [.eof]) = Program.ofTokens tokens := by
  unfold Program.ofTokens
  rw [Window.ofTokens_concat_eof h]

theorem ofTokens_of_spelled {ss : List Stmt} (h : Spelled maxNesting (.stmts ss) tokens) :
    Program.ofTokens tokens = ⟨⟨ss⟩, []⟩ := by
  obtain ⟨w, stop, hend, hread, hpeek, hreport⟩ := exists_window h.kind_ne_eof
  rw [hreport]
  exact Grammar.ofAttempts_of_spelled h hend hread hpeek

end Program

end ScriptFront
