import ScriptFront.Proofs.Reading.Attempts
import ScriptFront.Proofs.Reading.Lookahead

namespace ScriptFront

open Parse

namespace Window

-- Two windows that show the same tokens up to an end of input, or are both at one.
inductive SameInput (rest : List Token) (w w' : Window) : Prop where
  | before {ahead : List Token} (h : w.Alike .eof [] rest ahead w')
  | done (h : w.current.kind = .eof) (h' : w'.current.kind = .eof)

variable {rest ahead tokens : List Token} {w w' stop : Window}

theorem Alike.sameInput_next (h : w.Alike .eof [] rest ahead w') :
    w.next.SameInput rest w'.next := by
  cases ahead with
  | nil =>
      have hpeek : w.peek = .eof := by
        unfold Window.peek
        rw [h.upcoming]
        rfl
      refine .done ?_ ?_
      · rw [current_next, hpeek]
        rfl
      · rw [current_next, h.peek, hpeek]
        rfl
  | cons token ahead => exact .before h.next

-- A window that is not at the end of input has it ahead.
theorem Alike.exists_ahead (h : w.Alike .eof [] rest ahead w') (hread : w.Reads tokens stop)
    (hk : stop.current.kind ≠ .eof) : ∃ ahead', stop.upcoming = ahead' ++ [.eof] := by
  have hu := hread.1
  rw [h.upcoming] at hu
  obtain hnil | ⟨ahead', last, hlast⟩ := List.eq_nil_or_concat stop.upcoming
  · rw [hnil, List.append_nil] at hu
    rw [hread.2, ← hu] at hk
    exact absurd (by simp [Token.eof]) hk
  · rw [List.concat_eq_append] at hlast
    rw [hlast, ← List.append_assoc] at hu
    obtain rfl : Token.eof = last := by simpa using (List.append_inj' hu rfl).2
    exact ⟨ahead', hlast⟩

end Window

namespace Attempt

variable {rest ahead : List Token} {w w' : Window} {stmt : Parse Stmt} {attempt attempt' : Attempt}

-- A try that stops before the end of input is the same try whatever is behind that.
theorem run_alike (hstmt : Follows .eof [] rest ahead.length stmt stmt)
    (h : w.Alike .eof [] rest ahead w') (hk : (run stmt w).stop.current.kind ≠ .eof) :
    (∃ ahead', (run stmt w).stop.Alike .eof [] rest ahead' (run stmt w').stop) ∧
      (run stmt w').result = (run stmt w).result := by
  rw [run_eq] at hk ⊢
  obtain ⟨tokens, hread⟩ := hstmt.1 w
  obtain ⟨ahead', hahead⟩ := h.exists_ahead hread hk
  obtain ⟨stop', halike, hsame⟩ := hstmt.2 h (Nat.le_refl _) hahead
  have hstop' : stmt.stop w' = stop' := by
    unfold Parse.stop
    rw [hsame]
    cases stmt w <;> rfl
  have hresult : stmt.result w' = stmt.result w := by
    unfold Parse.result
    rw [hsame]
    cases stmt w <;> rfl
  rw [run_eq, hstop', hresult]
  exact ⟨⟨ahead', halike⟩, rfl⟩

theorem resume_sameInput (h : attempt.stop.Alike .eof [] rest ahead attempt'.stop)
    (hresult : attempt'.result = attempt.result) :
    attempt.resume.SameInput rest attempt'.resume := by
  unfold resume
  rw [hresult, h.peek]
  cases attempt.result with
  | ok statement => exact h.sameInput_next
  | error diagnostic =>
      by_cases hk : attempt.stop.peek.kind = .semicolon
      · simp only [if_pos hk]
        cases ahead with
        | nil =>
            -- what is next would be the end of input
            unfold Window.peek at hk
            rw [h.upcoming] at hk
            cases hk
        | cons token ahead => exact h.next.sameInput_next
      · simp only [if_neg hk]
        exact h.sameInput_next

end Attempt

-- As long as no statement runs into the end of input, what is behind it is never looked at.
theorem Grammar.ofAttempts_sameInput (grammar : Grammar) (levels : Nat) {rest : List Token}
    {w w' : Window} (hend : w.Terminated) (hend' : w'.Terminated) (h : w.SameInput rest w')
    (hstop : ∀ attempt ∈ grammar.attempts levels w, attempt.stop.current.kind ≠ .eof) :
    Report.ofAttempts (grammar.attempts levels w') =
      Report.ofAttempts (grammar.attempts levels w) := by
  refine @attempts_induction grammar levels w
    (fun w attempts => ∀ w' : Window, w'.Terminated → w.SameInput rest w' →
      (∀ attempt ∈ attempts, attempt.stop.current.kind ≠ .eof) →
      Report.ofAttempts (grammar.attempts levels w') = Report.ofAttempts attempts)
    ?_ ?_ hend w' hend' h hstop
  · intro w hk w' _ h _
    cases h with
    | done _ hk' => rw [attempts_of_eof hk']
    | before h => rw [attempts_of_eof (h.current ▸ hk)]
  · intro w attempts _ hk ih w' hend' h hstop
    cases h with
    | done hk' _ => exact absurd hk' hk
    | @before ahead h =>
        have hstmt : Follows .eof [] rest ahead.length (grammar.stmt (grammar.partsAt levels))
            (grammar.stmt (grammar.partsAt levels)) :=
          (follows_partsAt rfl grammar levels _).stmt grammar
        obtain ⟨⟨ahead', halike⟩, hresult⟩ :=
          Attempt.run_alike hstmt h (hstop _ List.mem_cons_self)
        obtain ⟨tokens, hread⟩ := Attempt.reads_resume (grammar.forward_stmt levels) w'
        have hrest := ih _ (hread.terminated hend') (Attempt.resume_sameInput halike hresult)
          fun attempt hmem => hstop attempt (List.mem_cons_of_mem _ hmem)
        rw [attempts_of_ne_eof hend' (h.current ▸ hk), Report.ofAttempts_cons,
          Report.ofAttempts_cons, hresult, hrest]

-- What is behind an end of input makes no difference, unless a statement is cut short by it.
theorem Program.ofTokens_append_eof {tokens : List Token} (rest : List Token)
    (h : ∀ token ∈ tokens, token.kind ≠ .eof)
    (hstop : ∀ attempt ∈ Grammar.standard.attempts maxNesting (.ofTokens tokens),
      attempt.stop.current.kind ≠ .eof) :
    Program.ofTokens (tokens ++ .eof :: rest) = Program.ofTokens tokens := by
  let w := Window.ofTokens tokens
  let w' := Window.ofTokens (tokens ++ .eof :: rest)
  have hlist : w.toList = tokens ++ [.eof] := Window.toList_ofTokens h
  have hlist' : w'.toList = tokens ++ .eof :: (Window.ofTokens (.eof :: rest)).upcoming := by
    have hcurrent := Window.current_ofTokens .eof rest
    rw [Window.toList_ofTokens_append h, Window.toList, hcurrent]
  have hsame : w.SameInput (Window.ofTokens (.eof :: rest)).upcoming w' := by
    cases tokens with
    | nil => exact .done rfl (congrArg Token.kind (Window.current_ofTokens .eof rest))
    | cons token tokens =>
        obtain ⟨hcurrent, hupcoming⟩ := List.cons.inj hlist
        obtain ⟨hcurrent', hupcoming'⟩ := List.cons.inj hlist'
        exact .before ⟨hcurrent'.trans hcurrent.symm, hupcoming, hupcoming'⟩
  exact Grammar.ofAttempts_sameInput _ _ (Window.terminated_ofTokens _)
    (Window.terminated_ofTokens _) hsame hstop

-- An end of input in front of a closing parenthesis that no expression could start with.
theorem Program.ofTokens_append_eof_unopened :
    let tokens : List Token := [⟨.closeParen, ")"⟩, ⟨.identifier, "x"⟩]
    let rest : List Token := [⟨.plus, "+"⟩, ⟨.closeParen, ")"⟩]
    ((∀ token ∈ tokens, token.kind ≠ .eof) ∧
      ∀ attempt ∈ Grammar.standard.attempts maxNesting (.ofTokens tokens),
        attempt.stop.current.kind ≠ .eof) ∧
    Program.ofTokens (tokens ++ .eof :: rest) = Program.ofTokens tokens :=
  ⟨by decide, Program.ofTokens_append_eof _ (by decide) (by decide)⟩

-- A statement that is cut short leaves the end of input current, and the next try begins behind
-- it. So a name that stands there is read as a statement.
theorem Program.ofTokens_append_eof_ne :
    let tokens : List Token := [⟨.kwReturn, "return"⟩]
    let rest : List Token := [⟨.identifier, "x"⟩]
    (∀ token ∈ tokens, token.kind ≠ .eof) ∧
      Program.ofTokens (tokens ++ .eof :: rest) ≠ Program.ofTokens tokens := by
  refine ⟨by decide, fun h => ?_⟩
  have hlength := congrArg (·.program.statements.length) h
  exact absurd hlength (by decide)

end ScriptFront
