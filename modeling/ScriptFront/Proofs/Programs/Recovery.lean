import ScriptFront.Proofs.Reading.Attempts

namespace ScriptFront

open Parse

namespace Attempt

variable {stmt : Parse Stmt} {w stop rest : Window} {diagnostic : Diagnostic}
  {token semicolon : Token}

-- After a failure on the token in front of a semicolon, both are skipped.
theorem resume_of_toList (hstop : stop.toList = token :: semicolon :: rest.toList)
    (hsemicolon : semicolon.kind = .semicolon) : resume ⟨w, .error diagnostic, stop⟩ = rest := by
  obtain ⟨rfl, hupcoming⟩ := List.cons.inj hstop
  have hpeek : stop.peek.kind = .semicolon := by
    unfold Window.peek
    rw [hupcoming]
    exact hsemicolon
  have hnext : stop.next.next = rest := by
    unfold Window.next
    rw [hupcoming]
    rfl
  simp only [resume, if_pos hpeek, hnext]

-- After a failure on a semicolon, it alone is skipped.
theorem resume_of_toList' (hstop : stop.toList = semicolon :: rest.toList)
    (hrest : rest.current.kind ≠ .semicolon) : resume ⟨w, .error diagnostic, stop⟩ = rest := by
  obtain ⟨rfl, hupcoming⟩ := List.cons.inj hstop
  have hpeek : stop.peek.kind ≠ .semicolon := by
    unfold Window.peek
    rw [hupcoming]
    exact hrest
  have hnext : stop.next = rest := by
    unfold Window.next
    rw [hupcoming]
    rfl
  simp only [resume, if_neg hpeek, hnext]

end Attempt

-- A session that is stepped through its first statement fails where the first try fails.
theorem Session.run_of_stmt_eq_error {tokens : List Token} {diagnostic : Diagnostic}
    {stopped : Session}
    (hrun : (Session.start .standard tokens).stmt = (.error diagnostic, stopped)) :
    Attempt.run (Grammar.standard.stmt (Grammar.standard.partsAt maxNesting)) (.ofTokens tokens) =
      ⟨.ofTokens tokens, .error diagnostic, stopped.window⟩ := by
  change Session.run _ _ = _ at hrun
  rw [Session.run_eq] at hrun
  obtain ⟨hresult, rfl⟩ := Prod.mk.inj hrun
  rw [Attempt.run_eq]
  exact congrArg (Attempt.mk _ · _) hresult

-- A statement that fails in front of its semicolon or on it costs one diagnostic. What is behind
-- the semicolon is read as it would be on its own.
theorem Program.ofTokens_of_failure {failed rest : List Token} {semicolon : Token}
    {diagnostic : Diagnostic} {stopped : Session} (hne : failed ≠ [])
    (h : ∀ token ∈ failed, token.kind ≠ .eof) (hsemicolon : semicolon.kind = .semicolon)
    (hrest : ∀ token ∈ rest.head?, token.kind ≠ .semicolon)
    (hrun : (Session.start .standard (failed ++ semicolon :: rest)).stmt =
      (.error diagnostic, stopped))
    (hstop :
      let w := Window.ofTokens (failed ++ semicolon :: rest)
      stopped.window = Nat.repeat Window.next (failed.length - 1) w ∨
        stopped.window = Nat.repeat Window.next failed.length w) :
    Program.ofTokens (failed ++ semicolon :: rest) =
      ⟨(Program.ofTokens rest).program, diagnostic :: (Program.ofTokens rest).diagnostics⟩ := by
  obtain ⟨front, last, rfl⟩ : ∃ front last, failed = front ++ [last] :=
    ⟨_, _, (List.dropLast_concat_getLast hne).symm⟩
  have hlist : (Window.ofTokens (front ++ [last] ++ semicolon :: rest)).toList =
      front ++ [last] ++ semicolon :: (Window.ofTokens rest).toList := by
    have hk : ∀ token ∈ [semicolon], token.kind ≠ .eof := by simp [hsemicolon]
    rw [Window.toList_ofTokens_append h]
    exact congrArg (front ++ [last] ++ ·) (Window.toList_ofTokens_append hk rest)
  have hcurrent : (Window.ofTokens (front ++ [last] ++ semicolon :: rest)).current.kind ≠ .eof := by
    cases front with
    | nil => exact (Window.current_ofTokens _ _).symm ▸ h _ (by simp)
    | cons first front => exact (Window.current_ofTokens _ _).symm ▸ h _ (by simp)
  have hend := Window.terminated_ofTokens (front ++ [last] ++ semicolon :: rest)
  have hstart := Session.run_of_stmt_eq_error hrun
  change Report.ofAttempts (Grammar.standard.attempts maxNesting _) = _
  generalize Window.ofTokens (front ++ [last] ++ semicolon :: rest) = w at *
  have hlength : (front ++ [last]).length < w.length := by
    rw [← Window.length_toList, hlist]
    simp only [List.length_append, List.length_cons]
    omega
  -- both kinds of failure leave reading right behind the semicolon
  have hresume : Attempt.resume ⟨w, .error diagnostic, stopped.window⟩ = Window.ofTokens rest := by
    cases hstop with
    | inl hstop =>
        have hstopped : stopped.window.toList =
            last :: semicolon :: (Window.ofTokens rest).toList := by
          rw [hstop, Window.toList_repeat_next _ (by omega), hlist]
          simp
        exact Attempt.resume_of_toList hstopped hsemicolon
    | inr hstop =>
        have hstopped : stopped.window.toList = semicolon :: (Window.ofTokens rest).toList := by
          rw [hstop, Window.toList_repeat_next _ hlength, hlist]
          simp
        refine Attempt.resume_of_toList' hstopped ?_
        cases rest with
        | nil => decide
        | cons first rest =>
            rw [Window.current_ofTokens]
            exact hrest first rfl
  rw [Grammar.attempts_of_ne_eof hend hcurrent, hstart, hresume, Report.ofAttempts_cons]
  rfl

-- The failure is in an index in an argument of a call, three expressions deep.
theorem Program.ofTokens_of_failure_unclosed :
    let failed : List Token := [⟨.identifier, "f"⟩, ⟨.openParen, "("⟩, ⟨.identifier, "x"⟩,
      ⟨.openBracket, "["⟩]
    let semicolon : Token := ⟨.semicolon, ";"⟩
    let rest : List Token := [⟨.kwReturn, "return"⟩, ⟨.closeBracket, "]"⟩]
    let diagnostic : Diagnostic := ⟨.missingPrefix .semicolon, semicolon⟩
    let stopped : Session := ⟨⟨semicolon, rest ++ [.eof]⟩, 0, .standard⟩
    (failed ≠ [] ∧ (∀ token ∈ failed, token.kind ≠ .eof) ∧ semicolon.kind = .semicolon ∧
      (∀ token ∈ rest.head?, token.kind ≠ .semicolon) ∧
      (Session.start .standard (failed ++ semicolon :: rest)).stmt = (.error diagnostic, stopped) ∧
      stopped.window =
        Nat.repeat Window.next failed.length (.ofTokens (failed ++ semicolon :: rest))) ∧
    Program.ofTokens (failed ++ semicolon :: rest) =
      ⟨(Program.ofTokens rest).program, diagnostic :: (Program.ofTokens rest).diagnostics⟩ :=
  ⟨⟨by decide, by decide, rfl, by decide, rfl, rfl⟩,
    Program.ofTokens_of_failure (by decide) (by decide) rfl (by decide) rfl (.inr rfl)⟩

end ScriptFront
