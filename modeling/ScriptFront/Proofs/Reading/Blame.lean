import ScriptFront.Proofs.Reading.Attempts

namespace ScriptFront

open Reader Parse

namespace Diagnostic

-- What a diagnostic says is so at the window where reading has stopped.
def PointsAt (grammar : Grammar) (diagnostic : Diagnostic) (w : Window) : Prop :=
  match diagnostic.cause with
  | .unrecognised _ => False
  | .missingPrefix kind =>
    diagnostic.token = w.current ∧ kind = w.current.kind ∧ grammar.prefixRule? kind = none
  | .unexpected expected got =>
    diagnostic.token = w.peek ∧ got = w.peek.kind ∧ expected ≠ got
  | .malformedInteger literal => diagnostic.token = w.current ∧ literal = w.current.literal
  | .tooDeep limit => diagnostic.token = w.current ∧ limit = maxNesting

-- Whether reading stopped in front of the token that is blamed, and not on it.
def isAhead (diagnostic : Diagnostic) : Bool :=
  match diagnostic.cause with
  | .unexpected _ _ => true
  | _ => false

-- The window on the token that is blamed.
def blamed (diagnostic : Diagnostic) (stop : Window) : Window :=
  if diagnostic.isAhead then stop.next else stop

variable {grammar : Grammar} {diagnostic : Diagnostic} {w : Window}

theorem PointsAt.current_blamed (h : diagnostic.PointsAt grammar w) :
    (diagnostic.blamed w).current = diagnostic.token := by
  obtain ⟨cause, token⟩ := diagnostic
  cases cause with
  | unrecognised text => exact h.elim
  | unexpected expected got => exact w.current_next.trans h.1.symm
  | _ => exact h.1.symm

end Diagnostic

namespace Parse

variable {α β : Type} {grammar : Grammar}

-- Whatever a piece is stopped by points at where it stopped.
def Blames (grammar : Grammar) (x : Parse α) : Prop :=
  ∀ ⦃w stop : Window⦄ ⦃diagnostic : Diagnostic⦄,
    x w = .error diagnostic stop → diagnostic.PointsAt grammar stop

theorem Blames.bind {x : Parse α} {f : α → Parse β} (hx : x.Blames grammar)
    (hf : ∀ value, (f value).Blames grammar) : (x >>= f).Blames grammar := by
  intro w stop diagnostic hrun
  rw [bind_apply] at hrun
  cases hfirst : x w with
  | error diagnostic' between =>
      rw [hfirst] at hrun
      cases hrun
      exact hx hfirst
  | ok value between =>
      rw [hfirst] at hrun
      exact hf value hrun

theorem blames_expect (kind : TokenKind) : (expect kind : Parse Unit).Blames grammar := by
  intro w stop diagnostic hrun
  rw [expect_apply] at hrun
  split at hrun
  · cases hrun
  · rename_i hk
    cases hrun
    exact ⟨rfl, rfl, Ne.symm hk⟩

theorem blames_integerLiteral : (integerLiteral : Parse Expr).Blames grammar := by
  intro w stop diagnostic hrun
  simp only [integerLiteral, bind_apply, current_apply] at hrun
  cases hvalue : Text.int64? w.current.literal with
  | some value =>
      rw [hvalue] at hrun
      cases hrun
  | none =>
      rw [hvalue] at hrun
      cases hrun
      exact ⟨rfl, rfl⟩

def blames (grammar : Grammar) : Congruence Parse Parse :=
  .ofWindow (fun x _ => x.Blames grammar) (fun _ _ _ _ hrun => nomatch hrun) Blames.bind
    (fun _ _ _ hrun => nomatch hrun) (fun _ _ _ hrun => nomatch hrun) blames_expect
    blames_integerLiteral

end Parse

namespace Grammar

variable {grammar : Grammar}

-- That a prefix is missing is only known where its rule has been looked for.
theorem blames_nested {parts : Parts Parse} (h : (blames grammar).RelParts parts parts)
    (limit : Precedence) : (grammar.nested parts limit).Blames grammar := by
  intro w stop diagnostic hrun
  rw [nested, bind_apply, current_apply] at hrun
  cases hrule : grammar.prefixRule? w.current.kind with
  | none =>
      simp only [hrule] at hrun
      cases hrun
      exact ⟨rfl, rfl, hrule⟩
  | some rule =>
      simp only [hrule] at hrun
      have hrest : (blames grammar).rel _ _ :=
        (blames grammar).bind (h.prefixRule rule) fun left => h.climb grammar limit left
      exact hrest hrun

variable (grammar)

theorem blames_expr (levels : Nat) (limit : Precedence) :
    (grammar.expr levels limit).Blames grammar := by
  induction levels generalizing limit with
  | zero =>
      intro w stop diagnostic hrun
      cases hrun
      exact ⟨rfl, rfl⟩
  | succ levels ih =>
      exact blames_nested
        ((blames grammar).relParts grammar (fun _ _ _ hrun => nomatch hrun) ih) limit

theorem blames_partsAt (levels : Nat) :
    (blames grammar).RelParts (grammar.partsAt levels) (grammar.partsAt levels) :=
  (blames grammar).relParts grammar (fun _ _ _ hrun => nomatch hrun) (grammar.blames_expr levels)

theorem blames_stmt (levels : Nat) :
    (grammar.stmt (grammar.partsAt levels)).Blames grammar :=
  (grammar.blames_partsAt levels).stmt grammar

end Grammar

end ScriptFront
