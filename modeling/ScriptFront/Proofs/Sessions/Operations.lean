import ScriptFront.Proofs.Machine.Basic
import ScriptFront.Proofs.Reading.Blame

namespace ScriptFront.Session

open Parse

-- By a grammar, the operation runs a piece that is put together from what the session has for
-- parts.
structure Runs (operation : Operation) (grammar : Grammar) {α : Type} (reply : α → Reply)
    (piece : Parts Parse → Parse α) : Prop where
  perform (session : Session) (hgrammar : session.grammar = grammar) :
    session.perform operation = answer reply (session.run (piece session.parts))
  rel (R : Congruence Parse Parse) {parts₁ parts₂ : Parts Parse} (h : R.RelParts parts₁ parts₂) :
    R.rel (piece parts₁) (piece parts₂)
  ne_stopped (value : α) (diagnostic : Diagnostic) : reply value ≠ .stopped diagnostic

variable {session next : Session} {operation : Operation} {diagnostic : Diagnostic}

-- All operations that read are of this kind, except for the one that reads a whole program.
theorem exists_runs (grammar : Grammar) (hreads : operation.reads = true)
    (hprogram : operation ≠ .program) :
    ∃ (α : Type) (reply : α → Reply) (piece : Parts Parse → Parse α),
      Runs operation grammar reply piece := by
  cases operation with
  | expr limit =>
      exact ⟨_, .expr, (·.expr limit), fun _ _ => rfl, fun _ _ _ h => h.expr limit,
        fun _ _ => Reply.noConfusion⟩
  | stmt =>
      refine ⟨_, .stmt, grammar.stmt, fun session h => ?_, fun _ _ _ h => h.stmt grammar,
        fun _ _ => Reply.noConfusion⟩
      rw [← h]
      rfl
  | block =>
      exact ⟨_, .block, (·.block), fun _ _ => rfl, fun _ _ _ h => h.block,
        fun _ _ => Reply.noConfusion⟩
  | program => exact absurd rfl hprogram
  | applyStmt rule =>
      exact ⟨_, .stmt, rule.parse, fun _ _ => rfl, fun _ _ _ h => h.stmtRule rule,
        fun _ _ => Reply.noConfusion⟩
  | applyPrefix rule =>
      exact ⟨_, .expr, rule.parse, fun _ _ => rfl, fun _ _ _ h => h.prefixRule rule,
        fun _ _ => Reply.noConfusion⟩
  | applyInfix rule left =>
      exact ⟨_, .expr, (rule.parse · left), fun _ _ => rfl, fun _ _ _ h => h.infixRule rule left,
        fun _ _ => Reply.noConfusion⟩
  | _ => cases hreads

section Answer

variable {α : Type} {reply : α → Reply} {piece : Parse α}

theorem pointsAt_of_answer_run (hblames : piece.Blames session.grammar)
    (hreply : ∀ value, reply value ≠ .stopped diagnostic)
    (h : answer reply (session.run piece) = (.stopped diagnostic, next)) :
    diagnostic.PointsAt next.grammar next.window ∧ next.depth = session.depth ∧
      next.grammar = session.grammar := by
  unfold run at h
  cases hrun : piece session.window with
  | ok value stop =>
      rw [hrun] at h
      exact absurd (congrArg Prod.fst h) (hreply value)
  | error diagnostic' stop =>
      rw [hrun] at h
      cases h
      exact ⟨hblames hrun, rfl, rfl⟩

end Answer

-- Whatever a session is stopped by, with any tokens, at any of them, with any number of
-- expressions open and by any grammar, points at where the session has stopped. The same number
-- of expressions is open as before.
theorem pointsAt_of_perform (h : session.perform operation = (.stopped diagnostic, next)) :
    diagnostic.PointsAt next.grammar next.window ∧ next.depth = session.depth ∧
      next.grammar = session.grammar := by
  by_cases hpiece : operation.reads = true ∧ operation ≠ .program
  · obtain ⟨α, reply, piece, hruns⟩ := exists_runs session.grammar hpiece.1 hpiece.2
    rw [hruns.perform session rfl] at h
    have hblames : (blames session.grammar).rel (piece session.parts) (piece session.parts) :=
      hruns.rel _ (session.grammar.blames_partsAt session.levels)
    exact pointsAt_of_answer_run hblames (hruns.ne_stopped · diagnostic) h
  · cases operation with
    | expect kind =>
        have hreply (_ : Unit) : Reply.done ≠ .stopped diagnostic := fun h => nomatch h
        exact pointsAt_of_answer_run (blames_expect kind) hreply h
    | enter =>
        simp only [perform, enter] at h
        split at h
        · cases h
          exact ⟨⟨rfl, rfl⟩, rfl, rfl⟩
        · cases h
    | expr | stmt | block | applyStmt | applyPrefix | applyInfix =>
        exact absurd ⟨rfl, fun h => nomatch h⟩ hpiece
    | _ => cases h

-- In a block, a call in it, an array in the call and an operator in the array, a comma stands where
-- an expression has to begin.
theorem pointsAt_of_perform_missing :
    let comma : Token := ⟨.comma, ","⟩
    let session : Session := ⟨⟨⟨.openCurly, "\x7b"⟩, [⟨.identifier, "f"⟩, ⟨.openParen, "("⟩,
      ⟨.openBracket, "["⟩, ⟨.dash, "-"⟩, comma, ⟨.closeCurly, "\x7d"⟩, .eof]⟩, 7, .standard⟩
    let next : Session := ⟨⟨comma, [⟨.closeCurly, "\x7d"⟩, .eof]⟩, 7, .standard⟩
    let diagnostic : Diagnostic := ⟨.missingPrefix .comma, comma⟩
    session.perform .block = (.stopped diagnostic, next) ∧
      diagnostic.PointsAt next.grammar next.window ∧ next.depth = session.depth ∧
        next.grammar = session.grammar :=
  ⟨rfl, @pointsAt_of_perform _ _ .block _ rfl⟩

end ScriptFront.Session
