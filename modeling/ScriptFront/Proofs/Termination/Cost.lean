import ScriptFront.Proofs.Termination.Clock

namespace ScriptFront

open Reader Parse

namespace Clocked

variable {α β : Type}

-- What a run comes to, with some ticks left.
def outcome (result : EStateM.Result Diagnostic Window α) (ticks : Nat) :
    EStateM.Result Interrupt Clock α :=
  match result with
  | .ok value stop => .ok value ⟨stop, ticks⟩
  | .error diagnostic stop => .error (.diagnostic diagnostic) ⟨stop, ticks⟩

-- By the clock the same comes of it for so many ticks. Any more are left.
def Costs (cost : Nat) (x : Parse α) (y : Clocked α) (w : Window) : Prop :=
  ∀ more, y ⟨w, cost + more⟩ = outcome (x w) more

section Costs

variable {cost cost' : Nat} {x x' : Parse α} {y : Clocked α} {f : α → Parse β} {g : α → Clocked β}
  {w between : Window}

theorem Costs.of_eq (h : x w = x' w) (h' : Costs cost x' y w) : Costs cost x y w := by
  unfold Costs
  rw [h]
  exact h'

theorem Costs.free (h : ∀ more, y ⟨w, more⟩ = outcome (x w) more) : Costs 0 x y w := by
  intro more
  rw [Nat.zero_add, h]

-- A look takes one tick, whatever it shows behind the last token.
theorem Costs.look {g : Window → Clocked α} (h : ∀ count, Costs cost x (g (w.extended count)) w) :
    Costs (cost + 1) x (window >>= g) w := by
  intro more
  rw [Nat.add_right_comm, bind_apply, window_apply]
  exact h _ more

theorem Costs.bind_of_error {diagnostic : Diagnostic} (h : Costs cost x y w)
    (hx : x w = .error diagnostic between) : Costs cost (x >>= f) (y >>= g) w := by
  intro more
  rw [bind_apply, Parse.bind_apply, h, hx]
  rfl

theorem Costs.bind_of_ok {value : α} (h : Costs cost x y w) (hx : x w = .ok value between)
    (hf : Costs cost' (f value) (g value) between) :
    Costs (cost + cost') (x >>= f) (y >>= g) w := by
  intro more
  rw [Nat.add_assoc, bind_apply, Parse.bind_apply, h, hx]
  exact hf more

theorem Costs.map (k : α → β) (h : Costs cost x y w) :
    Costs cost (do let value ← x; return k value) (do let value ← y; return k value) w := by
  intro more
  rw [bind_apply, Parse.bind_apply, h]
  cases x w <;> rfl

end Costs

-- By the clock the piece comes to its end, however many ticks that takes.
def Finishes (x : Parse α) (y : Clocked α) (w : Window) : Prop :=
  ∃ cost, Costs cost x y w

namespace Finishes

variable {x : Parse α} {y : Clocked α} {f : α → Parse β} {g : α → Clocked β} {w : Window}

theorem free (h : ∀ more, y ⟨w, more⟩ = outcome (x w) more) : Finishes x y w :=
  ⟨0, .free h⟩

theorem bind (h : Finishes x y w)
    (hf : ∀ value between, x w = .ok value between → Finishes (f value) (g value) between) :
    Finishes (x >>= f) (y >>= g) w := by
  obtain ⟨cost, h⟩ := h
  cases hx : x w with
  | error diagnostic between => exact ⟨cost, h.bind_of_error hx⟩
  | ok value between =>
      obtain ⟨cost', hf⟩ := hf value between hx
      exact ⟨cost + cost', h.bind_of_ok hx hf⟩

theorem current : Finishes Parse.current Parse.current w :=
  ⟨1, .look fun _ => .free fun _ => rfl⟩

theorem peek : Finishes Parse.peek Parse.peek w := by
  refine ⟨1, .look fun count => .free fun more => ?_⟩
  rw [Window.peek_extended]
  rfl

theorem blame (cause : Token → Cause) :
    Finishes (Parse.blame cause : Parse α) (Parse.blame cause) w :=
  .bind .current fun _ _ _ => .free fun _ => rfl

theorem expect (kind : TokenKind) : Finishes (Parse.expect kind) (Parse.expect kind) w := by
  refine .bind .peek fun token between _ => ?_
  split <;> exact .free fun _ => rfl

theorem integerLiteral : Finishes Parse.integerLiteral Parse.integerLiteral w := by
  refine .bind .current fun token between _ => ?_
  cases Text.int64? token.literal with
  | none => exact .blame _
  | some value => exact .free fun _ => rfl

end Finishes

section Collect

variable {test : TokenKind → TokenKind → Bool} {cost : Nat} {x : Parse α} {y : Clocked α}
  {w : Window} {budget : List Token}

theorem Costs.collect_done (hgo : test w.current.kind w.peek.kind = false)
    (hbudget : w.length ≤ budget.length) :
    Costs 1 (collectWhile (fun w => test w.current.kind w.peek.kind) x)
      (collect (fun w => test w.current.kind w.peek.kind) y budget) w := by
  obtain ⟨token, budget, rfl⟩ :=
    List.exists_cons_of_length_pos (Nat.lt_of_lt_of_le w.length_pos hbudget)
  refine .look fun count => .of_eq (collectWhile_of_not hgo : _ = (pure [] : Parse _) w) ?_
  simp only [Window.current_extended, Window.peek_extended, hgo]
  exact .free fun _ => rfl

theorem Costs.collect_more (hshrinks : Shrinks (fun w => test w.current.kind w.peek.kind) x)
    (hend : w.Terminated) (hgo : test w.current.kind w.peek.kind = true)
    (hbudget : w.length ≤ budget.length)
    (h : Costs cost
      (do
        let first ← x
        let rest ← collectWhile (fun w => test w.current.kind w.peek.kind) x
        return first :: rest)
      (do
        let first ← y
        let rest ← collect (fun w => test w.current.kind w.peek.kind) y budget.tail
        return first :: rest) w) :
    Costs (cost + 1) (collectWhile (fun w => test w.current.kind w.peek.kind) x)
      (collect (fun w => test w.current.kind w.peek.kind) y budget) w := by
  obtain ⟨token, budget, rfl⟩ :=
    List.exists_cons_of_length_pos (Nat.lt_of_lt_of_le w.length_pos hbudget)
  refine .look fun count => .of_eq (collectWhile_eq_bind hshrinks hend hgo) ?_
  simpa only [Window.current_extended, Window.peek_extended, hgo, if_true, List.tail_cons] using h

-- A loop takes as many ticks whatever its budget is, as long as that covers the tokens left.
theorem exists_costs_collect (hshrinks : Shrinks (fun w => test w.current.kind w.peek.kind) x)
    (hstep : ∀ w : Window, w.Terminated → Finishes x y w) (hend : w.Terminated) :
    ∃ cost, ∀ budget : List Token, w.length ≤ budget.length →
      Costs cost (collectWhile (fun w => test w.current.kind w.peek.kind) x)
        (collect (fun w => test w.current.kind w.peek.kind) y budget) w := by
  induction hn : w.length using Nat.strongRecOn generalizing w with
  | _ n ih =>
      subst hn
      cases hgo : test w.current.kind w.peek.kind with
      | false => exact ⟨1, fun budget hbudget => .collect_done hgo hbudget⟩
      | true =>
          obtain ⟨cost, hcost⟩ := hstep w hend
          cases hrun : x w with
          | error diagnostic between =>
              refine ⟨cost + 1, fun budget hbudget => ?_⟩
              exact .collect_more hshrinks hend hgo hbudget (hcost.bind_of_error hrun)
          | ok first between =>
              obtain ⟨hend', hlt⟩ := hshrinks hend hgo hrun
              obtain ⟨cost', hcost'⟩ := ih _ hlt hend' rfl
              refine ⟨cost + cost' + 1, fun budget hbudget => ?_⟩
              have hrest := hcost' budget.tail (by rw [List.length_tail]; omega)
              exact .collect_more hshrinks hend hgo hbudget (hcost.bind_of_ok hrun (hrest.map _))

theorem Finishes.collectWhile (hshrinks : Shrinks (fun w => test w.current.kind w.peek.kind) x)
    (hstep : ∀ w : Window, w.Terminated → Finishes x y w) (hend : w.Terminated) :
    Finishes (Parse.collectWhile (fun w => test w.current.kind w.peek.kind) x)
      (Parse.collectWhile (fun w => test w.current.kind w.peek.kind) y) w := by
  obtain ⟨cost, hcost⟩ := exists_costs_collect hshrinks hstep hend
  refine ⟨cost + 1, .look fun count => hcost _ ?_⟩
  rw [Window.length_toList_extended]
  exact Nat.le_add_right _ _

end Collect

section Iterate

variable {test : TokenKind → TokenKind → Bool} {cost : Nat} {x : α → Parse α} {y : α → Clocked α}
  {value : α} {w : Window} {budget : List Token}

theorem Costs.iterate_done (hgo : test w.current.kind w.peek.kind = false)
    (hbudget : w.length ≤ budget.length) :
    Costs 1 (iterateWhile (fun w => test w.current.kind w.peek.kind) x value)
      (iterate (fun w => test w.current.kind w.peek.kind) y budget value) w := by
  obtain ⟨token, budget, rfl⟩ :=
    List.exists_cons_of_length_pos (Nat.lt_of_lt_of_le w.length_pos hbudget)
  refine .look fun count => .of_eq (iterateWhile_of_not hgo : _ = (pure value : Parse _) w) ?_
  simp only [Window.current_extended, Window.peek_extended, hgo]
  exact .free fun _ => rfl

theorem Costs.iterate_more
    (hshrinks : ∀ value, Shrinks (fun w => test w.current.kind w.peek.kind) (x value))
    (hend : w.Terminated) (hgo : test w.current.kind w.peek.kind = true)
    (hbudget : w.length ≤ budget.length)
    (h : Costs cost (x value >>= iterateWhile (fun w => test w.current.kind w.peek.kind) x)
      (y value >>= iterate (fun w => test w.current.kind w.peek.kind) y budget.tail) w) :
    Costs (cost + 1) (iterateWhile (fun w => test w.current.kind w.peek.kind) x value)
      (iterate (fun w => test w.current.kind w.peek.kind) y budget value) w := by
  obtain ⟨token, budget, rfl⟩ :=
    List.exists_cons_of_length_pos (Nat.lt_of_lt_of_le w.length_pos hbudget)
  refine .look fun count => .of_eq (iterateWhile_eq_bind hshrinks hend hgo) ?_
  simpa only [Window.current_extended, Window.peek_extended, hgo, if_true, List.tail_cons] using h

theorem exists_costs_iterate
    (hshrinks : ∀ value, Shrinks (fun w => test w.current.kind w.peek.kind) (x value))
    (hstep : ∀ (w : Window) (value : α), w.Terminated → Finishes (x value) (y value) w)
    (hend : w.Terminated) (value : α) :
    ∃ cost, ∀ budget : List Token, w.length ≤ budget.length →
      Costs cost (iterateWhile (fun w => test w.current.kind w.peek.kind) x value)
        (iterate (fun w => test w.current.kind w.peek.kind) y budget value) w := by
  induction hn : w.length using Nat.strongRecOn generalizing w value with
  | _ n ih =>
      subst hn
      cases hgo : test w.current.kind w.peek.kind with
      | false => exact ⟨1, fun budget hbudget => .iterate_done hgo hbudget⟩
      | true =>
          obtain ⟨cost, hcost⟩ := hstep w value hend
          cases hrun : x value w with
          | error diagnostic between =>
              refine ⟨cost + 1, fun budget hbudget => ?_⟩
              exact .iterate_more hshrinks hend hgo hbudget (hcost.bind_of_error hrun)
          | ok value' between =>
              obtain ⟨hend', hlt⟩ := hshrinks value hend hgo hrun
              obtain ⟨cost', hcost'⟩ := ih _ hlt hend' value' rfl
              refine ⟨cost + cost' + 1, fun budget hbudget => ?_⟩
              have hrest := hcost' budget.tail (by rw [List.length_tail]; omega)
              exact .iterate_more hshrinks hend hgo hbudget (hcost.bind_of_ok hrun hrest)

theorem Finishes.iterateWhile
    (hshrinks : ∀ value, Shrinks (fun w => test w.current.kind w.peek.kind) (x value))
    (hstep : ∀ (w : Window) (value : α), w.Terminated → Finishes (x value) (y value) w)
    (hend : w.Terminated) :
    Finishes (Parse.iterateWhile (fun w => test w.current.kind w.peek.kind) x value)
      (Parse.iterateWhile (fun w => test w.current.kind w.peek.kind) y value) w := by
  obtain ⟨cost, hcost⟩ := exists_costs_iterate hshrinks hstep hend value
  refine ⟨cost + 1, .look fun count => hcost _ ?_⟩
  rw [Window.length_toList_extended]
  exact Nat.le_add_right _ _

end Iterate

-- What moves forward also comes to its end by the clock.
def clocked : Congruence Parse Clocked where
  rel x y := x.Forward ∧ ∀ w : Window, w.Terminated → Finishes x y w
  pure value := ⟨forward.pure value, fun _ _ => .free fun _ => rfl⟩
  bind hx hf := by
    refine ⟨hx.1.bind fun value => (hf value).1, fun w hend => ?_⟩
    refine .bind (hx.2 w hend) fun value between hrun => (hf value).2 between ?_
    obtain ⟨tokens, hread⟩ := hx.1.reads hrun
    exact hread.terminated hend
  repeatable test x := Shrinks (fun w => test w.current.kind w.peek.kind) x
  repeatable_advance htest hx := shrinks_advance htest hx.1
  repeatable_before_advance htest hx := shrinks_before_advance htest hx.1
  repeatable_expect hkind hx := shrinks_expect hkind hx.1
  repeatable_bind hx hf := .bind hx.1 hf
  current := ⟨Parse.forward.current, fun _ _ => .current⟩
  peek := ⟨Parse.forward.peek, fun _ _ => .peek⟩
  advance := ⟨Parse.forward.advance, fun _ _ => .free fun _ => rfl⟩
  expect kind := ⟨Parse.forward.expect kind, fun _ _ => .expect kind⟩
  integerLiteral := ⟨Parse.forward.integerLiteral, fun _ _ => .integerLiteral⟩
  collectWhile _ hrepeat hstep :=
    ⟨hstep.1.collectWhile _, fun _ hend => .collectWhile hrepeat hstep.2 hend⟩
  iterateWhile _ hrepeat hstep value :=
    ⟨Forward.iterateWhile (fun value => (hstep value).1) _ value,
      fun _ hend => .iterateWhile hrepeat (fun w value => (hstep value).2 w) hend⟩

end Clocked

end ScriptFront
