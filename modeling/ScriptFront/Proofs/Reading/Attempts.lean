import ScriptFront.Parse.Session
import ScriptFront.Proofs.Reading.Forward

namespace ScriptFront

open Parse

namespace Attempt

variable {stmt : Parse Stmt} {w stop : Window}

theorem run_of_ok {statement : Stmt} (hrun : stmt w = .ok statement stop) :
    run stmt w = ⟨w, .ok statement, stop⟩ := by
  rw [run, hrun]

theorem run_of_error {diagnostic : Diagnostic} (hrun : stmt w = .error diagnostic stop) :
    run stmt w = ⟨w, .error diagnostic, stop⟩ := by
  rw [run, hrun]

theorem run_eq (stmt : Parse Stmt) (w : Window) : run stmt w = ⟨w, stmt.result w, stmt.stop w⟩ := by
  unfold run Parse.result Parse.stop
  cases stmt w <;> rfl

theorem reads_next_resume (attempt : Attempt) :
    ∃ tokens, attempt.stop.next.Reads tokens attempt.resume := by
  unfold resume
  cases attempt.result with
  | ok statement => exact ⟨[], .refl _⟩
  | error diagnostic =>
      simp only
      split
      · exact attempt.stop.next.reads_next
      · exact ⟨[], .refl _⟩

theorem reads_resume (hstmt : stmt.Forward) (w : Window) :
    ∃ tokens, w.Reads tokens (run stmt w).resume := by
  rw [run_eq]
  obtain ⟨tokens, hread⟩ := hstmt w
  obtain ⟨skipped, hskip⟩ := (stmt.stop w).reads_next
  obtain ⟨skipped', hskip'⟩ := reads_next_resume ⟨w, stmt.result w, stmt.stop w⟩
  exact ⟨_, (hread.trans hskip).trans hskip'⟩

-- The next try begins at least one token behind the end of the last one.
theorem length_resume_lt (hstmt : stmt.Forward) (hend : w.Terminated)
    (hk : w.current.kind ≠ .eof) : (run stmt w).resume.length < w.length := by
  rw [run_eq]
  obtain ⟨tokens, hread⟩ := hstmt w
  obtain ⟨skipped, hskip⟩ := reads_next_resume ⟨w, stmt.result w, stmt.stop w⟩
  exact Nat.lt_of_le_of_lt hskip.length_le (hread.length_next_lt hend hk)

-- Any two budgets that cover the tokens left are as good as each other.
theorem runAll_congr (hstmt : stmt.Forward) (hend : w.Terminated) {budget budget' : List Token}
    (hbudget : w.length ≤ budget.length) (hbudget' : w.length ≤ budget'.length) :
    runAll stmt budget w = runAll stmt budget' w := by
  have hpos := w.length_pos
  induction budget generalizing w budget' with
  | nil => exact absurd hbudget (by simp only [List.length_nil]; omega)
  | cons token budget ih =>
      cases budget' with
      | nil => exact absurd hbudget' (by simp only [List.length_nil]; omega)
      | cons token' budget' =>
          simp only [List.length_cons] at hbudget hbudget'
          by_cases hk : w.current.kind = .eof
          · simp only [runAll, if_pos hk]
          · simp only [runAll, if_neg hk]
            have hlt := length_resume_lt hstmt hend hk
            obtain ⟨tokens, hread⟩ := reads_resume hstmt w
            have hrest := ih (hread.terminated hend) (show _ ≤ budget.length by omega)
              (show _ ≤ budget'.length by omega) (Window.length_pos _)
            rw [hrest]

end Attempt

theorem Session.run_eq {α : Type} (session : Session) (piece : Parse α) :
    session.run piece =
      (piece.result session.window, { session with window := piece.stop session.window }) := by
  unfold run Parse.result Parse.stop
  cases piece session.window <;> rfl

namespace Report

-- What is reported when one more try comes first.
def add (report : Report) : Except Diagnostic Stmt → Report
  | .ok statement => ⟨⟨statement :: report.program.statements⟩, report.diagnostics⟩
  | .error diagnostic => ⟨report.program, diagnostic :: report.diagnostics⟩

-- Only what came of the tries is reported, not where they were made.
theorem ofAttempts_cons (attempt : Attempt) (attempts : List Attempt) :
    ofAttempts (attempt :: attempts) = (ofAttempts attempts).add attempt.result := by
  obtain ⟨start, result, stop⟩ := attempt
  cases result <;> rfl

end Report

namespace Grammar

variable {grammar : Grammar} {levels : Nat} {w : Window}

theorem attempts_of_eof (hk : w.current.kind = .eof) : grammar.attempts levels w = [] := by
  simp [attempts, Window.toList, Attempt.runAll, hk]

theorem attempts_of_ne_eof (hend : w.Terminated) (hk : w.current.kind ≠ .eof) :
    grammar.attempts levels w =
      Attempt.run (grammar.stmt (grammar.partsAt levels)) w ::
        grammar.attempts levels (Attempt.run (grammar.stmt (grammar.partsAt levels)) w).resume := by
  have hstmt := grammar.forward_stmt levels
  obtain ⟨tokens, hread⟩ := Attempt.reads_resume hstmt w
  have hbudget : (Attempt.run (grammar.stmt (grammar.partsAt levels)) w).resume.length ≤
      w.upcoming.length := Nat.le_of_lt_succ (Attempt.length_resume_lt hstmt hend hk)
  have hcongr := Attempt.runAll_congr hstmt (hread.terminated hend) hbudget
    (Nat.le_of_eq (Window.length_toList _).symm)
  simp only [attempts, Window.toList, Attempt.runAll, if_neg hk] at hcongr ⊢
  rw [hcongr]

-- What holds at the end of input, and is handed back from the tries behind one to all of them,
-- holds of the tries from any window on.
theorem attempts_induction {motive : Window → List Attempt → Prop}
    (done : ∀ {w : Window}, w.current.kind = .eof → motive w [])
    (more : ∀ {w : Window} {rest : List Attempt}, w.Terminated → w.current.kind ≠ .eof →
      motive (Attempt.run (grammar.stmt (grammar.partsAt levels)) w).resume rest →
      motive w (Attempt.run (grammar.stmt (grammar.partsAt levels)) w :: rest))
    (hend : w.Terminated) : motive w (grammar.attempts levels w) := by
  induction hn : w.length using Nat.strongRecOn generalizing w with
  | _ n ih =>
      subst hn
      by_cases hk : w.current.kind = .eof
      · rw [attempts_of_eof hk]
        exact done hk
      · have hstmt := grammar.forward_stmt levels
        have hlt := Attempt.length_resume_lt hstmt hend hk
        obtain ⟨tokens, hread⟩ := Attempt.reads_resume hstmt w
        rw [attempts_of_ne_eof hend hk]
        exact more hend hk (ih _ hlt (hread.terminated hend) rfl)

end Grammar

end ScriptFront
