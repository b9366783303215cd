import ScriptFront.Proofs.Reading.Loop

namespace ScriptFront

open Reader Parse

-- An operator binds more tightly than nothing at all, so it is not the end of input.
theorem Grammar.peek_ne_eof_of_continues {grammar : Grammar} {limit : Precedence} {w : Window}
    (h : grammar.continues limit w = true) : w.peek.kind ≠ .eof := by
  intro hk
  simp only [continues, hk, Bool.and_eq_true, decide_eq_true_eq, Precedence.lt_iff_rank] at h
  exact absurd h.1 (Nat.not_lt_zero _)

namespace Parse

theorem shrinks_names : Shrinks (·.peekIs .comma) (do advance; ident : Parse Ident) :=
  @shrinks_advance _ (fun _ next => next = .comma) _ (fun _ => rfl) forward.ident

end Parse

namespace Grammar

variable (grammar : Grammar) (levels : Nat)

theorem shrinks_furtherExprs :
    Shrinks (·.peekIs .comma) (do advance; advance; (grammar.partsAt levels).expr .lowest) := by
  have hforward : (do advance; (grammar.partsAt levels).expr .lowest : Parse Expr).Forward :=
    forward.bind forward.advance fun _ => (grammar.forward_partsAt levels).expr _
  exact @shrinks_advance _ (fun _ next => next = .comma) _ (fun _ => rfl) hforward

theorem shrinks_continuation (limit : Precedence) (left : Expr) :
    Shrinks (grammar.continues limit) (grammar.continuation (grammar.partsAt levels) left) := by
  intro w stop value hend hgo hrun
  refine length_lt_of_advance ?_ hend (.inr (peek_ne_eof_of_continues hgo)) hrun
  exact (grammar.forward_partsAt levels).operator grammar left

-- A statement starts before the end of input, so either it moves on or the step behind it does.
theorem shrinks_inBlock :
    Shrinks inBlock (do
      let statement ← grammar.stmt (grammar.partsAt levels)
      advance
      return statement) :=
  @shrinks_before_advance _ (fun now _ => now ≠ .closeCurly && now ≠ .eof) _ (fun _ => rfl)
    (grammar.forward_stmt levels)

theorem standard_prefixRule?_eof : standard.prefixRule? .eof = none := rfl

variable {grammar levels}

-- No rule starts an expression at the end of input.
theorem current_ne_eof_of_expr (heof : grammar.prefixRule? .eof = none) {limit : Precedence}
    {w stop : Window} {e : Expr} (hrun : grammar.expr levels limit w = .ok e stop) :
    w.current.kind ≠ .eof := by
  intro hk
  cases levels with
  | zero => cases hrun
  | succ levels =>
      simp only [Grammar.expr, nested, bind_apply, current_apply, hk, heof, blame_apply] at hrun
      cases hrun

theorem shrinks_pair (heof : grammar.prefixRule? .eof = none) (goOn : Window → Bool) :
    Shrinks goOn (grammar.partsAt levels).pair := by
  intro w stop value hend _ hrun
  have hparts := grammar.forward_partsAt levels
  refine length_lt_of_advance ?_ hend (.inr ?_) hrun
  · refine Forward.bind (hparts.expr _) fun key => Forward.bind (forward.expect _) fun _ =>
      Forward.bind forward.advance fun _ => Forward.bind (hparts.expr _) fun value =>
      Forward.bind forward.peek fun _ => ?_
    exact forward.ite (forward.pure (key, value))
      (forward.bind (forward.expect _) fun _ => forward.pure (key, value))
  · obtain ⟨_, between, hadvance, hrest⟩ := bind_eq_ok _ _ _ |>.mp hrun
    cases hadvance
    obtain ⟨key, _, hkey, -⟩ := bind_eq_ok _ _ _ |>.mp hrest
    rw [← w.current_next]
    exact current_ne_eof_of_expr heof hkey

-- No statement of the language is a block, so only expressions make a difference to one.
theorem standard_block_apply (expr : Precedence → Parse Expr) (w : Window) :
    standard.block expr w = blockOf (standard.stmt (standard.parts expr)) w := by
  have hcongr (block block' : Parse Block) :
      standard.stmt ⟨expr, block⟩ = standard.stmt ⟨expr, block'⟩ := by
    unfold stmt
    congr 1
    funext token
    cases token.kind <;> rfl
  change standard.blockWithin expr (w.current :: w.upcoming) w = _
  rw [blockWithin, hcongr]
  rfl

end Grammar

end ScriptFront
