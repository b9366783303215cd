import ScriptFront.Proofs.Spelling.Braces
import ScriptFront.Proofs.Spelling.Program

namespace ScriptFront

open Parse

-- What stands in front of the tokens that are left of a body, when some of its braces are missing.
theorem Window.ofKind_head_body {w : Window} {missing : Nat}
    (hpeek : w.current.kind ≠ .eof → Precedence.ofKind w.current.kind = .lowest) :
    ∀ token ∈ (w.body ++ List.replicate missing (Token.fixed .closeCurly)).head?,
      Precedence.ofKind token.kind = .lowest := by
  intro token htoken
  by_cases hk : w.current.kind = .eof
  · rw [body_of_eof hk, List.nil_append] at htoken
    cases missing with
    | zero => cases htoken
    | succ missing =>
        cases htoken
        rfl
  · have hbody : w.body.head? = some w.current := by simp [body, toList, hk]
    rw [List.head?_append, hbody] at htoken
    cases htoken
    exact hpeek hk

theorem Window.body_ofTokens_of_ne_eof {tokens : List Token}
    (h : ∀ token ∈ tokens, token.kind ≠ .eof) : (ofTokens tokens).body = tokens := by
  unfold body
  rw [toList_ofTokens h, List.takeWhile_append_of_pos (by simpa using h)]
  simp [Token.eof]

namespace Grammar

-- Tokens that are read without a failure spell the statements read from them, once the braces
-- that are missing at the end are supplied.
theorem exists_spelled (levels : Nat) {w : Window} (hclean : w.Clean)
    (hok : ∀ attempt ∈ standard.attempts levels w, attempt.diagnostic? = none) :
    ∃ missing, Spelled levels (.stmts ((standard.attempts levels w).filterMap Attempt.statement?))
      (w.body ++ List.replicate missing (.fixed .closeCurly)) := by
  refine (attempts_induction
    (motive := fun w attempts => w.Clean → (∀ attempt ∈ attempts, attempt.diagnostic? = none) →
      (w.current.kind = .eof → attempts = []) ∧
      ∃ missing, Spelled levels (.stmts (attempts.filterMap Attempt.statement?))
        (w.body ++ List.replicate missing (.fixed .closeCurly)))
    ?_ ?_ hclean.terminated hclean hok).2
  · intro w hk _ _
    exact ⟨fun _ => rfl, 0, by simpa [Window.body_of_eof hk] using Spelled.noStmts⟩
  · intro w rest hend hk ih hclean hok
    refine ⟨fun heof => absurd heof hk, ?_⟩
    obtain ⟨_, hread⟩ := Attempt.reads_resume (standard.forward_stmt levels) w
    obtain ⟨hfirst, hok⟩ := List.forall_mem_cons.mp hok
    obtain ⟨hnil, missing, hrest⟩ := ih (hread.clean hclean) hok
    cases hrun : standard.stmt (standard.partsAt levels) w with
    | error diagnostic stop =>
        rw [Attempt.run_of_error hrun] at hfirst
        cases hfirst
    | ok statement stop =>
        rw [Attempt.run_of_ok hrun] at hnil hrest ⊢
        obtain ⟨closed, tokens, htakes, hspelled, hafter⟩ :=
          SoundExpr.stmt (soundExpr levels) hclean hrun
        obtain ⟨taken, missing', rfl, hbody, hcut⟩ := htakes.exists_body hclean hk
        change ∃ missing, Spelled levels (.stmts (statement :: _)) _
        by_cases hmissing : missing' = 0
        · subst hmissing
          refine ⟨missing, ?_⟩
          rw [hbody, List.append_assoc]
          refine .someStmts (by simpa using hspelled) hrest (hafter.imp_right fun hlowest => ?_)
          exact Window.ofKind_head_body fun _ => by rw [stop.current_next, hlowest]
        · -- the end of input has been reached
          have heof : stop.next.current.kind = .eof := hcut hmissing
          obtain rfl : rest = [] := hnil heof
          refine ⟨missing', ?_⟩
          rw [hbody, Window.body_of_eof heof, List.append_nil]
          simpa using Spelled.someStmts hspelled .noStmts (.inr (by simp))

end Grammar

namespace Program

variable {tokens : List Token}

theorem exists_spelled (h : ∀ token ∈ tokens, token.kind ≠ .eof)
    (hok : (Program.ofTokens tokens).diagnostics = []) :
    ∃ missing, Spelled maxNesting (.stmts (Program.ofTokens tokens).program.statements)
      (tokens ++ List.replicate missing (.fixed .closeCurly)) := by
  have hclean : (Window.ofTokens tokens).Clean :=
    Window.clean_ofTokens fun token hmem => h token (List.dropLast_subset tokens hmem)
  obtain ⟨missing, hspelled⟩ :=
    Grammar.exists_spelled maxNesting hclean (List.filterMap_eq_nil_iff.mp hok)
  rw [Window.body_ofTokens_of_ne_eof h] at hspelled
  exact ⟨missing, hspelled⟩

-- No brace is missing where there are as many closing as opening ones.
theorem spelled_of_countKind_eq (h : ∀ token ∈ tokens, token.kind ≠ .eof)
    (hok : (Program.ofTokens tokens).diagnostics = [])
    (hbraces : countKind .closeCurly tokens = countKind .openCurly tokens) :
    Spelled maxNesting (.stmts (Program.ofTokens tokens).program.statements) tokens := by
  obtain ⟨missing, hspelled⟩ := exists_spelled h hok
  have hcount := hspelled.countKind_eq
  simp only [countKind_append, countKind_replicate, Token.fixed, reduceCtorEq, if_true,
    if_false] at hcount
  obtain rfl : missing = 0 := by omega
  simpa using hspelled

end Program

end ScriptFront
