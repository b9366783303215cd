import ScriptFront.Proofs.Machine.Simulation

namespace ScriptFront

open Reader Parse

-- The statements from a window on, as one piece of reading.
def Grammar.report (grammar : Grammar) (levels : Nat) : Parse Report := fun w =>
  let attempts := grammar.attempts levels w
  .ok (.ofAttempts attempts) ((attempts.getLast?.map Attempt.resume).getD w)

theorem Attempt.resume_getLast?_cons (attempt : Attempt) (attempts : List Attempt) (w : Window) :
    ((attempt :: attempts).getLast?.map resume).getD w =
      (attempts.getLast?.map resume).getD attempt.resume := by
  rw [List.getLast?_cons]
  cases attempts.getLast? <;> rfl

theorem Parse.resume_apply (start w : Window) (result : Except Diagnostic Stmt) :
    (resume result : Parse Unit) w = .ok () (Attempt.resume ⟨start, result, w⟩) := by
  cases result with
  | ok statement => rfl
  | error diagnostic =>
      simp only [resume, Attempt.resume, bind_apply, peek_apply]
      split <;> rfl

namespace Indexed

variable {α : Type} {machine : Machine}

theorem simulates_parts (h : machine.Valid) :
    (simulation machine.depth machine.grammar).RelParts machine.session.parts
      (machine.grammar.parts (expr maxNesting)) := by
  have hdepth := h.depth_le
  have hlevels : machine.depth + machine.session.levels = maxNesting := by
    unfold Session.levels
    change machine.depth + (maxNesting - machine.depth) = maxNesting
    omega
  exact (simulation _ _).relParts _ (fun _ h => .window h.position_lt)
    (simulates_expr hlevels (by omega))

theorem Simulates.withParts (h : machine.Valid) {x : Parse α}
    {y : Grammar → Parts Indexed → Indexed α}
    (hxy : ∀ parts,
      (simulation machine.depth machine.grammar).RelParts machine.session.parts parts →
        (simulation machine.depth machine.grammar).rel x (y machine.grammar parts)) :
    Simulates x (withParts y) machine :=
  .withGrammar (hxy _ (simulates_parts h) machine ⟨h, rfl, rfl⟩)

theorem Simulates.stmt {depth : Nat} {grammar : Grammar} (h : machine.At depth grammar) :
    Simulates (grammar.stmt (grammar.partsAt (maxNesting - depth))) Indexed.stmt machine := by
  obtain ⟨hvalid, rfl, rfl⟩ := h
  exact .withParts hvalid fun _ hparts => hparts.stmt machine.grammar

theorem current_apply (h : machine.position < machine.tokens.length) :
    (Parse.current : Indexed Token) machine = .ok machine.window.current machine := by
  rw [Parse.current, bind_apply, window_apply h]
  rfl

theorem caught_of_simulates {x : Parse α} {y : Indexed α} (h : Simulates x y machine) :
    ∃ position, machine.position ≤ position ∧ position < machine.tokens.length ∧
      (machine.moveTo position).window = x.stop machine.window ∧
      caught y machine = .ok (x.result machine.window) (machine.moveTo position) := by
  obtain ⟨position, hle, hlt, hstop, hrun⟩ := h
  refine ⟨position, hle, hlt, hstop, ?_⟩
  unfold caught Parse.result
  rw [hrun]
  cases x machine.window <;> rfl

theorem exists_try {x : Parse Stmt} {y : Indexed Stmt} (h : Simulates x y machine) :
    ∃ position, machine.position ≤ position ∧ position < machine.tokens.length ∧
      (machine.moveTo position).window = (Attempt.run x machine.window).stop ∧
      caught y machine = .ok (Attempt.run x machine.window).result (machine.moveTo position) := by
  rw [Attempt.run_eq]
  exact caught_of_simulates h

theorem exists_resume (h : machine.Valid) {attempt : Attempt}
    (hstop : machine.window = attempt.stop) :
    ∃ position, machine.position ≤ position ∧ position < machine.tokens.length ∧
      (machine.moveTo position).window = attempt.resume ∧
      (Parse.resume attempt.result : Indexed Unit) machine =
        .ok () (machine.moveTo position) := by
  let R := simulation machine.depth machine.grammar
  have hrel : R.rel (Parse.resume attempt.result) (Parse.resume attempt.result) := by
    cases attempt.result with
    | ok statement => exact R.advance
    | error diagnostic =>
        exact R.bind R.peek fun _ => R.ite (R.bind R.advance fun _ => R.advance) R.advance
  obtain ⟨position, hle, hlt, hwindow, hrun⟩ := hrel machine ⟨h, rfl, rfl⟩
  rw [Parse.resume_apply attempt.start] at hrun
  rw [Parse.stop, Parse.resume_apply attempt.start, hstop] at hwindow
  exact ⟨position, hle, hlt, hwindow, hrun⟩

-- A round of the loop: a try, the way to where the next one begins, and the rounds behind it.
theorem statements_of_ne_eof {token : Token} {budget : List Token}
    {result : Except Diagnostic Stmt} {between next stop : Machine} {report : Report}
    (h : machine.position < machine.tokens.length) (hk : machine.window.current.kind ≠ .eof)
    (hcaught : caught stmt machine = .ok result between)
    (hresume : (Parse.resume result : Indexed Unit) between = .ok () next)
    (hrest : statements budget next = .ok report stop) :
    statements (token :: budget) machine = .ok (report.add result) stop := by
  rw [statements, bind_apply, current_apply h]
  simp only [if_neg hk, bind_apply, hcaught, hresume, hrest]
  rfl

-- The budget lasts as long as the tries do, so the machine does not halt for the lack of it.
theorem simulates_statements {depth : Nat} {grammar : Grammar} {budget : List Token}
    (h : machine.At depth grammar) (hbudget : machine.window.length ≤ budget.length) :
    Simulates (grammar.report (maxNesting - depth)) (statements budget) machine := by
  refine @Grammar.attempts_induction grammar (maxNesting - depth) machine.window
    (fun w attempts => ∀ (machine : Machine) (budget : List Token),
      machine.At depth grammar → machine.window = w → w.length ≤ budget.length →
      Simulates (fun _ => .ok (.ofAttempts attempts)
        ((attempts.getLast?.map Attempt.resume).getD w)) (statements budget) machine)
    ?_ ?_ h.terminated_window machine budget h rfl hbudget
  · rintro w hk machine budget h rfl hbudget
    have hpos := machine.window.length_pos
    cases budget with
    | nil => exact absurd hbudget (by simp only [List.length_nil]; omega)
    | cons token budget =>
        refine .of_stays h.position_lt rfl ?_
        rw [statements, bind_apply, current_apply h.position_lt]
        simp only [if_pos hk]
        rfl
  · rintro w attempts hend hk ih machine budget h rfl hbudget
    have hpos := machine.window.length_pos
    cases budget with
    | nil => exact absurd hbudget (by simp only [List.length_nil]; omega)
    | cons token budget =>
        have hlength := Attempt.length_resume_lt
          (grammar.forward_stmt (maxNesting - depth)) hend hk
        obtain ⟨position, hle, hlt, hstop, hcaught⟩ := exists_try (.stmt h)
        have hbetween := h.moveTo hlt
        generalize Attempt.run _ machine.window = attempt at *
        obtain ⟨position', hle', hlt', hstop', hresume⟩ := exists_resume hbetween.toValid hstop
        simp only [List.length_cons] at hbudget
        obtain ⟨last, hle'', hlt'', hlast, hrest⟩ :=
          ih _ budget (hbetween.moveTo hlt') hstop' (by omega)
        refine ⟨last, Nat.le_trans hle (Nat.le_trans hle' hle''), hlt'', ?_, ?_⟩
        · exact hlast.trans (Attempt.resume_getLast?_cons attempt attempts machine.window).symm
        · rw [Report.ofAttempts_cons]
          exact statements_of_ne_eof h.position_lt hk hcaught hresume hrest

theorem Simulates.program (h : machine.Valid) :
    Simulates (machine.grammar.report machine.session.levels) Indexed.program machine := by
  have hrun : Indexed.program machine = statements machine.window.toList machine := by
    rw [Indexed.program, bind_apply, window_apply h.position_lt]
  have hbudget := Nat.le_of_eq machine.window.length_toList.symm
  unfold Simulates
  rw [hrun]
  exact simulates_statements ⟨h, rfl, rfl⟩ hbudget

end Indexed

namespace Machine

-- An operation on a machine that does not fault: the session it shows does the same, the tokens
-- stay, the index does not go back, and an operation that reads leaves the count of open
-- expressions and the rules as they were.
structure Performs (machine : Machine) (operation : Operation) (reply : Reply) (next : Machine) :
    Prop where
  run : Indexed.perform operation machine = .ok reply next
  session : machine.session.perform operation = (reply, next.session)
  valid : next.Valid
  tokens : next.tokens = machine.tokens
  position_le : machine.position ≤ next.position
  kept : operation.reads = true → next.depth = machine.depth ∧ next.grammar = machine.grammar

variable {machine : Machine}

theorem exists_answer {α : Type} {x : Parse α} {y : Indexed α} (h : Indexed.Simulates x y machine)
    (reply : α → Reply) :
    ∃ answer position, machine.position ≤ position ∧ position < machine.tokens.length ∧
      Indexed.answer reply y machine = .ok answer (machine.moveTo position) ∧
      Session.answer reply (machine.session.run x) =
        (answer, (machine.moveTo position).session) := by
  obtain ⟨position, hle, hlt, hstop, hcaught⟩ := Indexed.caught_of_simulates h
  have hsession : { machine.session with window := x.stop machine.session.window } =
      (machine.moveTo position).session := by
    change Session.mk (x.stop machine.window) machine.depth machine.grammar = _
    rw [← hstop]
    rfl
  rw [Session.run_eq, hsession, Indexed.answer, Indexed.bind_apply, hcaught]
  change ∃ answer other, _ ∧ _ ∧ _ ∧ Session.answer reply (x.result machine.window, _) = _
  cases x.result machine.window with
  | ok value => exact ⟨_, position, hle, hlt, rfl, rfl⟩
  | error diagnostic => exact ⟨_, position, hle, hlt, rfl, rfl⟩

-- Reading moves on, and that is all.
theorem performs_of_simulates {α : Type} {x : Parse α} {y : Indexed α} {operation : Operation}
    {reply : α → Reply} (h : machine.Valid) (hsimulates : Indexed.Simulates x y machine)
    (hrun : Indexed.perform operation = Indexed.answer reply y)
    (hsession : machine.session.perform operation =
      Session.answer reply (machine.session.run x)) :
    ∃ reply next, machine.Performs operation reply next := by
  obtain ⟨answer, position, hle, hlt, hanswer, hsame⟩ := exists_answer hsimulates reply
  rw [← hrun] at hanswer
  rw [← hsession] at hsame
  exact ⟨answer, _, hanswer, hsame, h.moveTo hlt, rfl, hle, fun _ => ⟨rfl, rfl⟩⟩

theorem performs_change (h : machine.Valid) {operation : Operation} (rules : Grammar → Grammar)
    (hrun : Indexed.perform operation = Indexed.change rules)
    (hsession : machine.session.perform operation =
      (.done, { machine.session with grammar := rules machine.grammar }))
    (hreads : operation.reads = false) : ∃ reply next, machine.Performs operation reply next := by
  refine ⟨.done, { machine with grammar := rules machine.grammar }, ?_, hsession,
    ⟨h.position_lt, h.terminated, h.depth_le⟩, rfl, Nat.le_refl _, fun hk => ?_⟩
  · rw [hrun]
    rfl
  · rw [hreads] at hk
    cases hk

theorem performs_enter (h : machine.Valid) : ∃ reply next, machine.Performs .enter reply next := by
  have hsession : machine.session.perform .enter =
      if maxNesting ≤ machine.depth then
        (.stopped ⟨.tooDeep maxNesting, machine.window.current⟩, machine.session)
      else (.done, { machine.session with depth := machine.depth + 1 }) := by
    change Session.answer _ (if maxNesting ≤ machine.depth then _ else _) = _
    split <;> rfl
  by_cases hfull : maxNesting ≤ machine.depth
  · rw [if_pos hfull] at hsession
    refine ⟨_, machine, ?_, hsession, h, rfl, Nat.le_refl _, fun hk => nomatch hk⟩
    change Indexed.answer _ Indexed.enter machine = _
    rw [Indexed.answer, Indexed.bind_apply, Indexed.caught,
      Indexed.enter_of_le h.position_lt hfull]
    rfl
  · rw [if_neg hfull] at hsession
    have hroom := Nat.lt_of_not_le hfull
    refine ⟨_, { machine with depth := machine.depth + 1 }, ?_, hsession,
      ⟨h.position_lt, h.terminated, hroom⟩, rfl, Nat.le_refl _, fun hk => nomatch hk⟩
    change Indexed.answer _ Indexed.enter machine = _
    rw [Indexed.answer, Indexed.bind_apply, Indexed.caught, Indexed.enter_of_lt hroom]
    rfl

-- Every operation can be performed on every valid machine, and gives a valid one.
theorem Valid.exists_performs (h : machine.Valid) (operation : Operation) :
    ∃ reply next, machine.Performs operation reply next := by
  cases operation with
  | advance => exact performs_of_simulates h (.advance h.position_lt) rfl rfl
  | expect kind => exact performs_of_simulates h (.expect h.position_lt kind) rfl rfl
  | enter => exact performs_enter h
  | leave =>
      have hdepth := h.depth_le
      exact ⟨.done, machine.leave, rfl, rfl,
        ⟨h.position_lt, h.terminated, by simp only [Machine.leave]; omega⟩, rfl, Nat.le_refl _,
        fun hk => nomatch hk⟩
  | registerStmt kind rule => exact performs_change h (·.registerStmt kind rule) rfl rfl rfl
  | registerPrefix kind rule => exact performs_change h (·.registerPrefix kind rule) rfl rfl rfl
  | registerInfix kind rule => exact performs_change h (·.registerInfix kind rule) rfl rfl rfl
  | addStandardStmts => exact performs_change h Grammar.withStandardStmts rfl rfl rfl
  | addStandardExprs => exact performs_change h Grammar.withStandardExprs rfl rfl rfl
  | expr limit =>
      exact performs_of_simulates h ((Indexed.simulates_parts h).expr limit machine ⟨h, rfl, rfl⟩)
        rfl rfl
  | stmt => exact performs_of_simulates h (.stmt ⟨h, rfl, rfl⟩) rfl rfl
  | block =>
      exact performs_of_simulates h (.withParts h fun _ hparts => hparts.block) rfl rfl
  | program => exact performs_of_simulates h (.program h) rfl rfl
  | applyStmt rule =>
      exact performs_of_simulates h (.withParts h fun _ hparts => hparts.stmtRule rule) rfl rfl
  | applyPrefix rule =>
      exact performs_of_simulates h (.withParts h fun _ hparts => hparts.prefixRule rule) rfl rfl
  | applyInfix rule left =>
      exact performs_of_simulates h (.withParts h fun _ hparts => hparts.infixRule rule left) rfl
        rfl

-- So any number of operations can be, one after another.
theorem Valid.exists_performAll (h : machine.Valid) (operations : List Operation) :
    ∃ replies last, Indexed.performAll operations machine = .ok replies last ∧
      machine.session.performAll operations = (replies, last.session) ∧
      last.Valid ∧ last.tokens = machine.tokens := by
  induction operations generalizing machine with
  | nil => exact ⟨[], machine, rfl, rfl, h, rfl⟩
  | cons operation operations ih =>
      obtain ⟨reply, next, hnext⟩ := h.exists_performs operation
      obtain ⟨replies, last, hrun, hsession, hvalid, htokens⟩ := ih hnext.valid
      refine ⟨reply :: replies, last, ?_, ?_, hvalid, htokens.trans hnext.tokens⟩
      · simp only [Indexed.performAll, Indexed.bind_apply, hnext.run, hrun]
        rfl
      · simp only [Session.performAll, hnext.session, hsession]

theorem tokens_start (tokens : List Token) :
    (start tokens).tokens = (Window.ofTokens tokens).toList := by
  obtain rfl | ⟨front, last, rfl⟩ := List.eq_nil_or_concat tokens
  · rfl
  · rw [List.concat_eq_append, Window.toList_ofTokens_concat]
    simp [start]

theorem valid_start (tokens : List Token) : (start tokens).Valid := by
  have hend := Window.terminated_ofTokens tokens
  refine ⟨?_, ?_, Nat.zero_le _⟩
  · rw [tokens_start, Window.length_toList]
    exact Window.length_pos _
  · rw [tokens_start, Window.toList, List.getLastD_cons]
    exact hend

theorem session_start (tokens : List Token) :
    (start tokens).session = .start .empty tokens := by
  have hwindow : (start tokens).window = .ofTokens tokens := by
    apply Window.toList_inj
    rw [toList_window (valid_start tokens).position_lt, tokens_start]
    rfl
  unfold session
  rw [hwindow]
  rfl

-- Whatever is done with a machine, in whatever order, it does not fault and does what a session
-- does. The tokens it started with stay, with an end of input as the last of them; the current
-- and the next token are there to be looked at; no more expressions are open than may be. From
-- there the index never goes back, and whatever is read, with a result or with a diagnostic,
-- leaves as many expressions open as before, and the same rules.
theorem exists_performAll_start (tokens : List Token) (operations : List Operation) :
    ∃ replies machine,
      Indexed.performAll operations (start tokens) = .ok replies machine ∧
      (Session.start .empty tokens).performAll operations = (replies, machine.session) ∧
      machine.tokens = (start tokens).tokens ∧
      (∃ last, machine.tokens.getLast? = some last ∧ last.kind = .eof) ∧
      machine.position < machine.tokens.length ∧
      machine.tokens[machine.position]? = some machine.session.current ∧
      machine.tokens[min (machine.position + 1) (machine.tokens.length - 1)]? =
        some machine.session.peek ∧
      machine.depth ≤ maxNesting ∧
      ∀ operation, ∃ reply next, Indexed.perform operation machine = .ok reply next ∧
        machine.session.perform operation = (reply, next.session) ∧
        machine.position ≤ next.position ∧
        (operation.reads = true → next.depth = machine.depth ∧ next.grammar = machine.grammar) := by
  obtain ⟨replies, machine, hrun, hsession, hvalid, htokens⟩ :=
    (valid_start tokens).exists_performAll operations
  rw [session_start] at hsession
  have hlast : ∃ last, machine.tokens.getLast? = some last ∧ last.kind = .eof := by
    have hend := hvalid.terminated
    have hlt := hvalid.position_lt
    rw [List.getLastD_eq_getLast?] at hend
    cases hget : machine.tokens.getLast? with
    | none =>
        rw [List.getLast?_eq_none_iff.mp hget] at hlt
        exact absurd hlt (Nat.not_lt_zero _)
    | some last =>
        rw [hget] at hend
        exact ⟨last, rfl, hend⟩
  refine ⟨replies, machine, hrun, hsession, htokens, hlast, hvalid.position_lt,
    getElem?_current hvalid.position_lt, getElem?_peek hvalid.position_lt, hvalid.depth_le,
    fun operation => ?_⟩
  obtain ⟨reply, next, hnext⟩ := hvalid.exists_performs operation
  exact ⟨reply, next, hnext.run, hnext.session, hnext.position_le, hnext.kept⟩

end Machine

end ScriptFront
