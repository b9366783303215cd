import ScriptFront.Proofs.Machine.Invariant
import ScriptFront.Proofs.Termination.Cost

namespace ScriptFront

open Reader Parse

namespace Parse

variable {α : Type}

-- A diagnostic is a result like any other.
def caught (x : Parse α) : Parse (Except Diagnostic α) := fun w =>
  .ok (x.result w) (x.stop w)

section Tries

variable {m : Type → Type} [Reader m] (attempt : m (Except Diagnostic Stmt))

-- A try and the way to where the next one begins.
def resumed : m (Except Diagnostic Stmt) := do
  let result ← attempt
  resume result
  return result

-- Tries up to the end of input, whatever comes of each.
def tries : m (List (Except Diagnostic Stmt)) :=
  collectWhile (fun w => w.current.kind ≠ .eof) (resumed attempt)

end Tries

variable {stmt : Parse Stmt} {w : Window}

theorem resumed_apply (stmt : Parse Stmt) (w : Window) :
    (resumed stmt.caught : Parse (Except Diagnostic Stmt)) w =
      .ok (Attempt.run stmt w).result (Attempt.run stmt w).resume := by
  simp only [resumed, bind_apply, caught, resume_apply w, Attempt.run_eq, pure_apply]

theorem shrinks_resumed (h : stmt.Forward) :
    Shrinks (fun w => w.current.kind ≠ .eof) (resumed stmt.caught) := by
  intro w stop result hend hgo hrun
  rw [resumed_apply] at hrun
  cases hrun
  obtain ⟨tokens, hread⟩ := Attempt.reads_resume h w
  exact ⟨hread.terminated hend, Attempt.length_resume_lt h hend (of_decide_eq_true hgo)⟩

end Parse

-- The tries of a report are the ones that are made in a loop without a budget.
theorem Grammar.tries_apply (grammar : Grammar) (levels : Nat) {w : Window} (hend : w.Terminated) :
    (tries (grammar.stmt (grammar.partsAt levels)).caught : Parse _) w =
      .ok ((grammar.attempts levels w).map Attempt.result)
        (((grammar.attempts levels w).getLast?.map Attempt.resume).getD w) := by
  have hshrinks := shrinks_resumed (grammar.forward_stmt levels)
  refine @attempts_induction grammar levels w
    (fun w attempts => (tries (grammar.stmt (grammar.partsAt levels)).caught : Parse _) w =
      .ok (attempts.map Attempt.result) ((attempts.getLast?.map Attempt.resume).getD w)) ?_ ?_ hend
  · intro w hk
    exact collectWhile_of_not (by simp [hk])
  · intro w attempts hend hk ih
    unfold tries at ih ⊢
    rw [collectWhile_of_ok hshrinks hend (by simp [hk]) (resumed_apply _ w), bind_apply, ih,
      Attempt.resume_getLast?_cons]
    rfl

namespace Clocked

variable {α : Type}

-- An expression with room for a number of expressions open at once, itself included.
def expr (grammar : Grammar) (levels : Nat) (limit : Precedence) : Clocked Expr :=
  match levels with
  | 0 => blame fun _ => .tooDeep maxNesting
  | levels + 1 => grammar.nested (grammar.parts (expr grammar levels)) limit

-- Running out of ticks is not a result.
def caught (x : Clocked α) : Clocked (Except Diagnostic α) := fun clock =>
  match x clock with
  | .ok value stop => .ok (.ok value) stop
  | .error (.diagnostic diagnostic) stop => .ok (.error diagnostic) stop
  | .error .timeout stop => .error .timeout stop

def program (grammar : Grammar) (levels : Nat) : Clocked (List (Except Diagnostic Stmt)) :=
  tries (caught (grammar.stmt (grammar.parts (expr grammar levels))))

variable (grammar : Grammar) (levels : Nat)

theorem forward_expr (limit : Precedence) : (expr grammar levels limit).Forward := by
  induction levels generalizing limit with
  | zero => exact forward_blame _
  | succ levels ih =>
      have hexpr (limit : Precedence) :
          (same 0).rel (expr grammar levels limit) (expr grammar levels limit) :=
        ⟨ih limit, .refl _⟩
      have hparts := (same 0).relParts grammar ⟨forward_window, .refl _⟩ hexpr
      exact (hparts.nested grammar limit ⟨forward_blame _, .refl _⟩).1

theorem clocked_block {expr : Precedence → Parse Expr} {expr' : Precedence → Clocked Expr}
    (h : ∀ limit, clocked.rel (expr limit) (expr' limit))
    (hforward : ∀ limit, (expr' limit).Forward) :
    clocked.rel (grammar.block expr) (grammar.block expr') := by
  have hexpr (limit : Precedence) : Parse.forward.rel (expr limit) (expr limit) := (h limit).1
  refine ⟨(Parse.forward.relParts grammar (fun w => ⟨[], .refl w⟩) hexpr).block, ?_⟩
  intro w hend
  obtain ⟨cost, hcost⟩ := (clocked.blockWithin grammar h w.toList).2 w hend
  refine ⟨cost + 1, fun more => ?_⟩
  rw [Nat.add_right_comm, grammar.block_apply hforward hend]
  exact hcost more

theorem clocked_parts
    (h : ∀ limit, clocked.rel (grammar.expr levels limit) (expr grammar levels limit)) :
    clocked.RelParts (grammar.partsAt levels) (grammar.parts (expr grammar levels)) :=
  ⟨h, clocked_block grammar h (forward_expr grammar levels)⟩

-- An expression may open another one without having moved, but there is room for only so many.
theorem clocked_expr (limit : Precedence) :
    clocked.rel (grammar.expr levels limit) (expr grammar levels limit) := by
  induction levels generalizing limit with
  | zero => exact ⟨fun w => ⟨[], .refl w⟩, fun _ _ => .blame _⟩
  | succ levels ih =>
      have hparts := clocked_parts grammar levels ih
      exact hparts.nested grammar limit ⟨fun w => ⟨[], .refl w⟩, fun _ _ => .blame _⟩

theorem clocked_stmt :
    clocked.rel (grammar.stmt (grammar.partsAt levels))
      (grammar.stmt (grammar.parts (expr grammar levels))) :=
  (clocked_parts grammar levels (clocked_expr grammar levels)).stmt grammar

theorem Finishes.caught {x : Parse α} {y : Clocked α} {w : Window} (h : Finishes x y w) :
    Finishes x.caught y.caught w := by
  obtain ⟨cost, hcost⟩ := h
  refine ⟨cost, fun more => ?_⟩
  unfold Clocked.caught Parse.caught Parse.result Parse.stop
  rw [hcost]
  cases x w <;> rfl

theorem clocked_resume (result : Except Diagnostic Stmt) :
    clocked.rel (resume result : Parse Unit) (resume result) := by
  cases result with
  | ok statement => exact clocked.advance
  | error diagnostic =>
      exact clocked.bind clocked.peek fun _ =>
        clocked.ite (clocked.bind clocked.advance fun _ => clocked.advance) clocked.advance

-- So reading a program comes to its end, with the same tries.
theorem program_finishes {w : Window} (hend : w.Terminated) :
    Finishes (tries (grammar.stmt (grammar.partsAt levels)).caught) (program grammar levels) w := by
  have hstmt := clocked_stmt grammar levels
  have hcaught : clocked.rel (grammar.stmt (grammar.partsAt levels)).caught
      (caught (grammar.stmt (grammar.parts (expr grammar levels)))) :=
    ⟨fun w => hstmt.1 w, fun w hend => (hstmt.2 w hend).caught⟩
  have hstep := clocked.bind hcaught fun result =>
    clocked.bind (clocked_resume result) fun _ => clocked.pure result
  have hshrinks := shrinks_resumed (grammar.forward_stmt levels)
  exact (clocked.collectWhile (fun now _ => decide (now ≠ .eof)) hshrinks hstep).2 w hend

theorem exists_program_eq_ok {w : Window} (hend : w.Terminated) :
    ∃ cost, ∀ more, program grammar levels ⟨w, cost + more⟩ =
      .ok ((grammar.attempts levels w).map Attempt.result)
        ⟨((grammar.attempts levels w).getLast?.map Attempt.resume).getD w, more⟩ := by
  obtain ⟨cost, hcost⟩ := program_finishes grammar levels hend
  refine ⟨cost, fun more => ?_⟩
  rw [hcost, grammar.tries_apply levels hend]
  rfl

end Clocked

end ScriptFront
