import ScriptFront.Proofs.Reading.Loop

namespace ScriptFront

open Reader Parse

namespace Window

variable (w : Window) (count : Nat)

-- The window with more copies of its last token behind it.
def extended : Window :=
  ⟨w.current, w.upcoming ++ List.replicate count (w.upcoming.getLastD w.current)⟩

@[simp] theorem current_extended : (w.extended count).current = w.current := rfl

@[simp] theorem peek_extended : (w.extended count).peek = w.peek := by
  unfold peek extended
  cases w.upcoming <;> cases count <;> rfl

theorem length_toList_extended : (w.extended count).toList.length = w.length + count := by
  simp only [toList, extended, List.length_cons, List.length_append, List.length_replicate, length]
  omega

end Window

-- A window and the ticks that are left to read from it.
structure Clock where
  window : Window
  ticks : Nat

-- Why reading by a clock stops early.
inductive Interrupt where
  | diagnostic (diagnostic : Diagnostic)
  | timeout

-- Reading where each look at the window takes a tick. Loops and blocks take their budgets from a
-- look, and a look shows more tokens than there are ticks left, so no budget is ever used up: what
-- would go on forever times out, whatever number of ticks there are.
abbrev Clocked := EStateM Interrupt Clock

instance : Reader Clocked where
  window := fun clock =>
    match clock.ticks with
    | 0 => .error .timeout clock
    | ticks + 1 => .ok (clock.window.extended ticks) { clock with ticks := ticks }
  advance := fun clock => .ok () { clock with window := clock.window.next }
  fail := fun diagnostic clock => .error (.diagnostic diagnostic) clock

namespace Clocked

variable {α β : Type}

theorem bind_apply (x : Clocked α) (f : α → Clocked β) (clock : Clock) :
    (x >>= f) clock =
      match x clock with
      | .ok value stop => f value stop
      | .error interrupt stop => .error interrupt stop := by
  simp only [bind, EStateM.bind]
  cases x clock <;> rfl

section Run

variable (w : Window) (ticks : Nat)

@[simp] theorem pure_apply (value : α) (clock : Clock) :
    (pure value : Clocked α) clock = .ok value clock := rfl

@[simp] theorem window_timeout : (window : Clocked Window) ⟨w, 0⟩ = .error .timeout ⟨w, 0⟩ := rfl

@[simp] theorem window_apply :
    (window : Clocked Window) ⟨w, ticks + 1⟩ = .ok (w.extended ticks) ⟨w, ticks⟩ := rfl

@[simp] theorem advance_apply :
    (advance : Clocked Unit) ⟨w, ticks⟩ = .ok () ⟨w.next, ticks⟩ := rfl

@[simp] theorem current_apply :
    (current : Clocked Token) ⟨w, ticks + 1⟩ = .ok w.current ⟨w, ticks⟩ := rfl

@[simp] theorem peek_apply :
    (peek : Clocked Token) ⟨w, ticks + 1⟩ = .ok w.peek ⟨w, ticks⟩ := by
  simp only [peek, Clocked.bind_apply, window_apply, Window.peek_extended]
  rfl

end Run

-- Where the window is at the end.
def stop (x : Clocked α) (clock : Clock) : Window :=
  match x clock with
  | .ok _ stop => stop.window
  | .error _ stop => stop.window

def Forward (x : Clocked α) : Prop :=
  ∀ clock : Clock, ∃ tokens, clock.window.Reads tokens (x.stop clock)

theorem Forward.bind {x : Clocked α} {f : α → Clocked β} (hx : x.Forward)
    (hf : ∀ value, (f value).Forward) : (x >>= f).Forward := by
  intro clock
  obtain ⟨first, hfirst⟩ := hx clock
  unfold stop at hfirst ⊢
  rw [bind_apply]
  cases hrun : x clock with
  | error interrupt between => exact ⟨first, by simpa [hrun] using hfirst⟩
  | ok value between =>
      obtain ⟨second, hsecond⟩ := hf value between
      simp only [hrun] at hfirst
      exact ⟨first ++ second, hfirst.trans hsecond⟩

theorem forward_window : (window : Clocked Window).Forward := by
  rintro ⟨w, ticks⟩
  cases ticks <;> exact ⟨[], .refl w⟩

theorem forward_advance : (advance : Clocked Unit).Forward :=
  fun clock => clock.window.reads_next

theorem forward_fail (diagnostic : Diagnostic) : (fail diagnostic : Clocked α).Forward :=
  fun clock => ⟨[], .refl clock.window⟩

theorem forward_pure (value : α) : (pure value : Clocked α).Forward :=
  fun clock => ⟨[], .refl clock.window⟩

theorem forward_blame (cause : Token → Cause) : (blame cause : Clocked α).Forward :=
  .bind (.bind forward_window fun _ => forward_pure _) fun _ => forward_fail _

theorem forward_expect (kind : TokenKind) : (expect kind : Clocked Unit).Forward := by
  refine .bind (.bind forward_window fun _ => forward_pure _) fun token => ?_
  split
  · exact forward_advance
  · exact forward_fail _

theorem forward_integerLiteral : (integerLiteral : Clocked Expr).Forward := by
  refine .bind (.bind forward_window fun _ => forward_pure _) fun token => ?_
  cases Text.int64? token.literal with
  | none => exact forward_blame _
  | some value => exact forward_pure _

-- Two pieces that do the same on every clock that shows no more than a number of tokens.
def Same (bound : Nat) (x y : Clocked α) : Prop :=
  ∀ clock : Clock, clock.window.Terminated → clock.window.length ≤ bound → x clock = y clock

variable {bound : Nat}

theorem Same.refl (x : Clocked α) : Same bound x x := fun _ _ _ => rfl

-- A clock always shows a token.
theorem Same.zero (x y : Clocked α) : Same 0 x y :=
  fun clock _ hbound => absurd hbound (Nat.not_le.mpr clock.window.length_pos)

theorem Same.bind {x y : Clocked α} {f g : α → Clocked β} (hx : x.Forward)
    (h : Same bound x y) (hf : ∀ value, Same bound (f value) (g value)) :
    Same bound (x >>= f) (y >>= g) := by
  intro clock hend hbound
  obtain ⟨tokens, hread⟩ := hx clock
  unfold stop at hread
  rw [bind_apply, bind_apply, ← h clock hend hbound]
  cases hrun : x clock with
  | error interrupt between => rfl
  | ok value between =>
      simp only [hrun] at hread ⊢
      have hle := hread.length_le
      exact hf value between (hread.terminated hend) (by omega)

-- Both look at the same windows, so only what does not depend on these can make a difference.
def same (bound : Nat) : Congruence Clocked Clocked :=
  .ofWindow (fun x y => x.Forward ∧ Same bound x y) (fun value => ⟨forward_pure value, .refl _⟩)
    (fun hx hf => ⟨hx.1.bind fun value => (hf value).1, hx.2.bind hx.1 fun value => (hf value).2⟩)
    ⟨forward_window, .refl _⟩ ⟨forward_advance, .refl _⟩
    (fun kind => ⟨forward_expect kind, .refl _⟩) ⟨forward_integerLiteral, .refl _⟩

-- A loop that ends at once has not come to its step.
theorem collectWhile_congr {goOn : Window → Bool} {w : Window}
    (hgo : ∀ count, goOn (w.extended count) = false) (x y : Clocked α) (ticks : Nat) :
    collectWhile goOn x ⟨w, ticks⟩ = collectWhile goOn y ⟨w, ticks⟩ := by
  rcases ticks with _ | _ | ticks <;>
    simp [collectWhile, collect, Window.toList, bind_apply, hgo]

end Clocked

namespace Grammar

open Clocked

variable {bound : Nat}

-- What is read of a block behind its opening brace.
def blockBody (stmt : Clocked Stmt) (token : Token) : Clocked Block := do
  let statements ← collectWhile inBlock do
    let statement ← stmt
    advance
    return statement
  return ⟨token, statements⟩

theorem blockOf_apply (stmt : Clocked Stmt) (w : Window) (ticks : Nat) :
    blockOf stmt ⟨w, ticks + 1⟩ = blockBody stmt w.current ⟨w.next, ticks⟩ := rfl

-- A block opens with a token of its own, so there are fewer tokens left for what is in it.
theorem same_blockOf {stmt stmt' : Clocked Stmt} (hforward : stmt.Forward)
    (h : ∀ bound' < bound, Same bound' stmt stmt') : Same bound (blockOf stmt) (blockOf stmt') := by
  rintro ⟨w, ticks⟩ hend hbound
  cases ticks with
  | zero => rfl
  | succ ticks =>
      rw [blockOf_apply, blockOf_apply]
      cases hu : w.upcoming with
      | nil =>
          have hnext : w.next = w := by rw [Window.next, hu]
          have heof : w.current.kind = .eof := by simpa [Window.Terminated, hu] using hend
          have hgo : ∀ count, inBlock (w.extended count) = false := fun _ => by
            simp [inBlock, heof]
          have hstatements := collectWhile_congr hgo
            (do let statement ← stmt; advance; return statement)
            (do let statement ← stmt'; advance; return statement) ticks
          rw [hnext, blockBody, blockBody, Clocked.bind_apply, Clocked.bind_apply, hstatements]
      | cons token rest =>
          have hlt := Window.length_next_lt hu
          let R := same w.next.length
          have hstmt : R.rel stmt stmt' := ⟨hforward, h _ (Nat.lt_of_lt_of_le hlt hbound)⟩
          have hbody : R.rel (blockBody stmt w.current) (blockBody stmt' w.current) :=
            R.bind (R.statements hstmt) fun ss => R.pure _
          exact hbody.2 ⟨w.next, ticks⟩ hend.next (Nat.le_refl _)

variable (grammar : Grammar)

theorem same_blockWithin {expr : Precedence → Clocked Expr} (hexpr : ∀ limit, (expr limit).Forward)
    {budget budget' : List Token} (hbudget : bound ≤ budget.length)
    (hbudget' : bound ≤ budget'.length) :
    Same bound (grammar.blockWithin expr budget) (grammar.blockWithin expr budget') := by
  induction budget generalizing bound budget' with
  | nil =>
      obtain rfl : bound = 0 := Nat.le_zero.mp hbudget
      exact .zero _ _
  | cons token budget ih =>
      cases budget' with
      | nil =>
          obtain rfl : bound = 0 := Nat.le_zero.mp hbudget'
          exact .zero _ _
      | cons token' budget' =>
          simp only [List.length_cons] at hbudget hbudget'
          have hrel (limit : Precedence) : (same 0).rel (expr limit) (expr limit) :=
            ⟨hexpr limit, .refl _⟩
          have hblock := (same 0).blockWithin grammar hrel budget
          have hparts : (same 0).RelParts ⟨expr, grammar.blockWithin expr budget⟩
              ⟨expr, grammar.blockWithin expr budget⟩ := ⟨hrel, hblock⟩
          refine same_blockOf (hparts.stmt grammar).1 fun bound' hlt => ?_
          have hsame : Same bound' (grammar.blockWithin expr budget)
              (grammar.blockWithin expr budget') := ih (by omega) (by omega)
          have hparts' : (same bound').RelParts ⟨expr, grammar.blockWithin expr budget⟩
              ⟨expr, grammar.blockWithin expr budget'⟩ :=
            ⟨fun limit => ⟨hexpr limit, .refl _⟩, ⟨hblock.1, hsame⟩⟩
          exact (hparts'.stmt grammar).2

-- So the budget that a block gets by the clock can be taken for the one it gets without it.
theorem block_apply {expr : Precedence → Clocked Expr} (hexpr : ∀ limit, (expr limit).Forward)
    {w : Window} (hend : w.Terminated) (ticks : Nat) :
    grammar.block expr ⟨w, ticks + 1⟩ = grammar.blockWithin expr w.toList ⟨w, ticks⟩ := by
  have hlength := w.length_toList_extended ticks
  have hsame : Same w.length (grammar.blockWithin expr (w.extended ticks).toList)
      (grammar.blockWithin expr w.toList) :=
    grammar.same_blockWithin hexpr (by omega) (Nat.le_of_eq w.length_toList.symm)
  exact hsame ⟨w, ticks⟩ hend (Nat.le_refl _)

end Grammar

end ScriptFront
