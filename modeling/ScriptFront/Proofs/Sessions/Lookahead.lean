import ScriptFront.Proofs.Programs.Positions
import ScriptFront.Proofs.Reading.Lookahead
import ScriptFront.Proofs.Sessions.Operations

namespace ScriptFront

open Parse

namespace Window

variable {front rest rest' ahead tokens tokens' : List Token} {last : Token}
  {w w' whole whole' : Window}

theorem reads_repeat_next (w : Window) (position : Nat) :
    ∃ tokens, w.Reads tokens (Nat.repeat next position w) := by
  induction position with
  | zero => exact ⟨[], .refl w⟩
  | succ position ih =>
      obtain ⟨first, hfirst⟩ := ih
      obtain ⟨second, hsecond⟩ := (Nat.repeat next position w).reads_next
      exact ⟨first ++ second, hfirst.trans hsecond⟩

theorem length_repeat_next (w : Window) (position : Nat) :
    (Nat.repeat next position w).length = max (w.length - position) 1 := by
  induction position with
  | zero =>
      have hpos := w.length_pos
      simp only [Nat.repeat]
      omega
  | succ position ih =>
      simp only [Nat.repeat, length_next, ih]
      omega

theorem indexIn_repeat_next (w : Window) (position : Nat) :
    (Nat.repeat next position w).indexIn w = min position (w.length - 1) := by
  have hpos := w.length_pos
  unfold indexIn
  rw [length_repeat_next]
  omega

theorem Reads.indexIn_le {stop : Window} (h : w.Reads tokens stop) :
    w.indexIn whole ≤ stop.indexIn whole := by
  have hle := h.length_le
  unfold indexIn
  omega

section Whole

variable (hwhole : whole.toList = front ++ last :: rest)
  (hwhole' : whole'.toList = front ++ last :: rest')
include hwhole hwhole'

-- At the same index in front of the last token that two lists share, the windows on them show
-- the same.
theorem exists_alike (hread : whole.Reads tokens w) (hread' : whole'.Reads tokens' w')
    (hindex : w'.indexIn whole' = w.indexIn whole) (hlt : w.indexIn whole < front.length) :
    ∃ ahead, w.Alike last rest rest' ahead w' := by
  have hle := Nat.le_of_lt hlt
  have hdrop := hread.drop_indexIn
  have hdrop' := hread'.drop_indexIn
  rw [hwhole, List.drop_append_of_le_length hle, List.drop_eq_getElem_cons hlt] at hdrop
  rw [hwhole', hindex, List.drop_append_of_le_length hle, List.drop_eq_getElem_cons hlt] at hdrop'
  obtain ⟨hcurrent, hupcoming⟩ := List.cons.inj hdrop
  obtain ⟨hcurrent', hupcoming'⟩ := List.cons.inj hdrop'
  exact ⟨_, hcurrent'.symm.trans hcurrent, hupcoming.symm, hupcoming'.symm⟩

-- And alike windows are at the same index.
theorem Alike.indexIn_eq (h : w.Alike last rest rest' ahead w') :
    w'.indexIn whole' = w.indexIn whole := by
  have hlength := congrArg List.length hwhole
  have hlength' := congrArg List.length hwhole'
  rw [length_toList, List.length_append, List.length_cons] at hlength hlength'
  have hw := congrArg List.length h.upcoming
  have hw' := congrArg List.length h.upcoming'
  rw [List.length_append, List.length_cons] at hw hw'
  unfold indexIn
  rw [hlength, hlength', length, length, hw, hw']
  omega

end Whole

-- Opening a list adds an end of input if the list does not come with one.
theorem toList_ofTokens_eq (tokens : List Token) :
    ∃ added, (ofTokens tokens).toList = tokens ++ added := by
  cases tokens with
  | nil => exact ⟨[.eof], rfl⟩
  | cons token tokens =>
      simp only [ofTokens]
      split
      · exact ⟨[], (List.append_nil _).symm⟩
      · exact ⟨[.eof], rfl⟩

theorem exists_toList_ofTokens (front : List Token) (last : Token) (rest : List Token) :
    ∃ behind, (ofTokens (front ++ last :: rest)).toList = front ++ last :: behind ∧
      (behind.getLastD last).kind = .eof := by
  obtain ⟨added, hadded⟩ := toList_ofTokens_eq (front ++ last :: rest)
  rw [List.append_assoc, List.cons_append] at hadded
  refine ⟨rest ++ added, hadded, ?_⟩
  have hend : ((ofTokens (front ++ last :: rest)).toList.getLastD .eof).kind = .eof := by
    rw [toList, List.getLastD_cons]
    exact terminated_ofTokens _
  rw [hadded] at hend
  simpa [List.getLastD_eq_getLast?, List.getLast?_append, List.getLast?_cons] using hend

end Window

namespace Session

variable {front rest rest' ahead ahead' : List Token} {last : Token} {session session' : Session}
  {operation : Operation}

theorem answer_snd {α : Type} (reply : α → Reply) (outcome : Except Diagnostic α × Session) :
    (answer reply outcome).2 = outcome.2 := by
  obtain ⟨result, next⟩ := outcome
  cases result <;> rfl

-- No operation that reads ever moves back.
theorem reads_perform (hreads : operation.reads = true) (hprogram : operation ≠ .program) :
    ∃ tokens, session.window.Reads tokens (session.perform operation).2.window := by
  obtain ⟨α, reply, piece, hruns⟩ := exists_runs session.grammar hreads hprogram
  have hforward : forward.rel (piece session.parts) (piece session.parts) :=
    hruns.rel forward (session.grammar.forward_partsAt session.levels)
  rw [hruns.perform session rfl, answer_snd, run_eq]
  exact hforward session.window

-- What an operation reads in front of the last token that two sessions share is the same for both.
theorem perform_of_alike (hend : (rest.getLastD last).kind = .eof)
    (halike : session.window.Alike last rest rest' ahead session'.window)
    (hdepth : session'.depth = session.depth) (hgrammar : session'.grammar = session.grammar)
    (hreads : operation.reads = true) (hprogram : operation ≠ .program)
    (hstop : (session.perform operation).2.window.upcoming = ahead' ++ last :: rest) :
    ∃ stop', (session.perform operation).2.window.Alike last rest rest' ahead' stop' ∧
      session'.perform operation =
        ((session.perform operation).1, { session' with window := stop' }) := by
  obtain ⟨α, reply, piece, hruns⟩ := exists_runs session.grammar hreads hprogram
  have hparts : session'.parts = session.parts := by
    unfold parts levels
    rw [hdepth, hgrammar]
  have hfollows :
      Follows last rest rest' ahead.length (piece session.parts) (piece session.parts) :=
    hruns.rel (lookahead last rest rest' hend ahead.length)
      (Grammar.follows_partsAt hend session.grammar session.levels ahead.length)
  rw [hruns.perform session rfl] at hstop ⊢
  rw [hruns.perform session' hgrammar, hparts]
  rw [answer_snd, run_eq] at hstop
  obtain ⟨stop', halike', hrun'⟩ := hfollows.2 halike (Nat.le_refl _) hstop
  refine ⟨stop', by rw [answer_snd, run_eq]; exact halike', ?_⟩
  unfold run
  rw [hrun']
  cases piece session.parts session.window <;> rfl

-- Two token lists are the same up to a last token, and behind it there is anything. A session on
-- each of them is at the same token, with as many expressions open and by the same grammar, and
-- something is read. If that ends in front of the last token on the first list, with a result or
-- with a diagnostic, then all of this comes of it on the second list too, and it ends at the same
-- token.
theorem perform_eq_of_indexIn_lt {position : Nat}
    (hwindow : session.window = Nat.repeat Window.next position (.ofTokens (front ++ last :: rest)))
    (hwindow' : session'.window =
      Nat.repeat Window.next position (.ofTokens (front ++ last :: rest')))
    (hdepth : session'.depth = session.depth) (hgrammar : session'.grammar = session.grammar)
    (hreads : operation.reads = true) (hprogram : operation ≠ .program)
    (hstop : (session.perform operation).2.window.indexIn (.ofTokens (front ++ last :: rest)) <
      front.length) :
    (session'.perform operation).1 = (session.perform operation).1 ∧
      (session'.perform operation).2.window.indexIn (.ofTokens (front ++ last :: rest')) =
        (session.perform operation).2.window.indexIn (.ofTokens (front ++ last :: rest)) ∧
      (session'.perform operation).2.depth = session.depth ∧
      (session'.perform operation).2.grammar = session.grammar := by
  obtain ⟨behind, hwhole, hend⟩ := Window.exists_toList_ofTokens front last rest
  obtain ⟨behind', hwhole', -⟩ := Window.exists_toList_ofTokens front last rest'
  obtain ⟨before, hbefore⟩ := Window.reads_repeat_next (.ofTokens (front ++ last :: rest)) position
  obtain ⟨before', hbefore'⟩ :=
    Window.reads_repeat_next (.ofTokens (front ++ last :: rest')) position
  have hindex := Window.indexIn_repeat_next (.ofTokens (front ++ last :: rest)) position
  have hindex' := Window.indexIn_repeat_next (.ofTokens (front ++ last :: rest')) position
  rw [← hwindow] at hbefore hindex
  rw [← hwindow'] at hbefore' hindex'
  generalize Window.ofTokens (front ++ last :: rest) = whole at *
  generalize Window.ofTokens (front ++ last :: rest') = whole' at *
  obtain ⟨tokens, hread⟩ := @reads_perform session operation hreads hprogram
  have hlt : session.window.indexIn whole < front.length :=
    Nat.lt_of_le_of_lt hread.indexIn_le hstop
  have hsame : session'.window.indexIn whole' = session.window.indexIn whole := by
    have hlength := congrArg List.length hwhole
    have hlength' := congrArg List.length hwhole'
    rw [Window.length_toList, List.length_append, List.length_cons] at hlength hlength'
    omega
  obtain ⟨ahead, halike⟩ := Window.exists_alike hwhole hwhole' hbefore hbefore' hsame hlt
  have hall := hbefore.trans hread
  obtain ⟨ahead', hself⟩ := Window.exists_alike hwhole hwhole hall hall rfl hstop
  obtain ⟨stop', halike', hperform⟩ :=
    perform_of_alike hend halike hdepth hgrammar hreads hprogram hself.upcoming
  rw [hperform]
  exact ⟨rfl, halike'.indexIn_eq hwhole hwhole', hdepth, hgrammar⟩

-- The statement ends at its semicolon, so what is behind the bracket makes no difference to it.
theorem perform_eq_of_indexIn_lt_let :
    let front : List Token := [⟨.kwLet, "let"⟩, ⟨.identifier, "x"⟩, ⟨.assignment, "="⟩,
      ⟨.identifier, "f"⟩, ⟨.openParen, "("⟩, ⟨.closeParen, ")"⟩, ⟨.semicolon, ";"⟩]
    let last : Token := ⟨.openBracket, "["⟩
    let rest : List Token := [⟨.closeBracket, "]"⟩]
    let rest' : List Token := [⟨.dash, "-"⟩, .eof, ⟨.dot, "."⟩]
    let session : Session := .start .standard (front ++ last :: rest)
    let session' : Session := .start .standard (front ++ last :: rest')
    (session.window = Nat.repeat Window.next 0 (.ofTokens (front ++ last :: rest)) ∧
      session'.window = Nat.repeat Window.next 0 (.ofTokens (front ++ last :: rest')) ∧
      session'.depth = session.depth ∧ session'.grammar = session.grammar ∧
      Operation.stmt.reads = true ∧ Operation.stmt ≠ .program ∧
      (session.perform .stmt).2.window.indexIn (.ofTokens (front ++ last :: rest)) <
        front.length) ∧
    (session'.perform .stmt).1 = (session.perform .stmt).1 ∧
      (session'.perform .stmt).2.window.indexIn (.ofTokens (front ++ last :: rest')) =
        (session.perform .stmt).2.window.indexIn (.ofTokens (front ++ last :: rest)) ∧
      (session'.perform .stmt).2.depth = session.depth ∧
      (session'.perform .stmt).2.grammar = session.grammar := by
  intro front last rest rest' session session'
  have hstop : (session.perform .stmt).2.window.indexIn (.ofTokens (front ++ last :: rest)) <
      front.length := by decide
  have hprogram : Operation.stmt ≠ .program := fun h => nomatch h
  exact ⟨⟨rfl, rfl, rfl, rfl, rfl, hprogram, hstop⟩,
    @perform_eq_of_indexIn_lt front rest rest' last session session' .stmt 0 rfl rfl rfl rfl rfl
      hprogram hstop⟩

end Session

end ScriptFront
