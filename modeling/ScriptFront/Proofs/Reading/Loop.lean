import ScriptFront.Proofs.Reading.Forward

namespace ScriptFront.Parse

open Reader

variable {α β : Type} {goOn : Window → Bool} {w between stop : Window}

-- Every step that a loop takes and that succeeds leaves fewer tokens than there were.
def Shrinks (goOn : Window → Bool) (step : Parse α) : Prop :=
  ∀ ⦃w stop : Window⦄ ⦃value : α⦄, w.Terminated → goOn w = true → step w = .ok value stop →
    stop.Terminated ∧ stop.length < w.length

-- A step that moves on does so when there is a token to move on to.
theorem length_lt_of_advance {f : Unit → Parse α} {value : α} (hf : (f ()).Forward)
    (hend : w.Terminated) (hk : w.current.kind ≠ .eof ∨ w.peek.kind ≠ .eof)
    (hrun : (advance >>= f) w = .ok value stop) :
    stop.Terminated ∧ stop.length < w.length := by
  obtain ⟨tokens, hread⟩ := hf.reads hrun
  have hle := hread.length_le
  have hlt := hend.length_next_lt hk
  exact ⟨hread.terminated hend.next, by omega⟩

section Steps

variable {test : TokenKind → TokenKind → Bool} {x : Parse α}

-- Steps that move on before or behind whatever else they do, with a test that sees that there is
-- something to move on to.
theorem shrinks_advance (htest : ∀ now, test now .eof = false) (hx : x.Forward) :
    Shrinks (fun w => test w.current.kind w.peek.kind) (advance >>= fun _ => x) := by
  intro w stop value hend hgo hrun
  refine length_lt_of_advance hx hend (.inr fun hk => ?_) hrun
  simp [hk, htest] at hgo

theorem shrinks_before_advance (htest : ∀ next, test .eof next = false) (hx : x.Forward) :
    Shrinks (fun w => test w.current.kind w.peek.kind)
      (x >>= fun value => advance >>= fun _ => pure value) := by
  intro w stop value hend hgo hrun
  obtain ⟨result, between, hfirst, hrest⟩ := (bind_eq_ok _ _ _).mp hrun
  cases hrest
  obtain ⟨tokens, hread⟩ := hx.reads hfirst
  have hk : w.current.kind ≠ .eof := fun hk => by simp [hk, htest] at hgo
  exact ⟨(hread.terminated hend).next, hread.length_next_lt hend hk⟩

-- Asking for a token sees to that by itself.
theorem shrinks_expect {kind : TokenKind} (hkind : kind ≠ .eof) (hx : x.Forward) :
    Shrinks goOn (expect kind >>= fun _ => x) := by
  intro w stop value hend _ hrun
  obtain ⟨_, between, hexpect, hrest⟩ := (bind_eq_ok _ _ _).mp hrun
  obtain ⟨tokens, hread⟩ := hx.reads hrest
  have hle := hread.length_le
  rw [expect_apply] at hexpect
  split at hexpect
  · rename_i hpeek
    cases hexpect
    have hlt := hend.length_next_lt (.inr (hpeek ▸ hkind))
    exact ⟨hread.terminated hend.next, by omega⟩
  · cases hexpect

-- A step that goes over a token with the last word on where it stops leaves fewer tokens.
theorem Shrinks.bind {f : α → Parse β} (hx : x.Forward)
    (hf : ∀ value, Shrinks (fun _ => true) (f value)) : Shrinks goOn (x >>= f) := by
  intro w stop result hend _ hrun
  obtain ⟨value, between, hfirst, hsecond⟩ := (bind_eq_ok _ _ _).mp hrun
  obtain ⟨tokens, hread⟩ := hx.reads hfirst
  have hle := hread.length_le
  obtain ⟨hstop, hlt⟩ := hf value (hread.terminated hend) rfl hsecond
  exact ⟨hstop, by omega⟩

end Steps

section Collect

variable {step : Parse α} {first : α} {rest : List α}

-- Any two budgets that cover the tokens left are as good as each other.
theorem collect_congr (hstep : Shrinks goOn step) (hend : w.Terminated)
    {budget budget' : List Token} (hbudget : w.length ≤ budget.length)
    (hbudget' : w.length ≤ budget'.length) :
    collect goOn step budget w = collect goOn step budget' w := by
  have hpos := w.length_pos
  induction budget generalizing w budget' with
  | nil => exact absurd hbudget (by simp only [List.length_nil]; omega)
  | cons token budget ih =>
      cases budget' with
      | nil => exact absurd hbudget' (by simp only [List.length_nil]; omega)
      | cons token' budget' =>
          simp only [List.length_cons] at hbudget hbudget'
          by_cases hgo : goOn w
          · simp only [collect, bind_apply, window_apply, if_pos hgo]
            cases hrun : step w with
            | error diagnostic between => rfl
            | ok value between =>
                obtain ⟨hend', hlt⟩ := hstep hend hgo hrun
                have hrest := ih hend' (show between.length ≤ budget.length by omega)
                  (show between.length ≤ budget'.length by omega) between.length_pos
                simp only [hrest]
          · simp only [collect, bind_apply, window_apply, if_neg hgo]

theorem collectWhile_of_not (hgo : goOn w = false) :
    collectWhile goOn step w = .ok [] w := by
  simp [collectWhile, collect, Window.toList, bind_apply, hgo]

theorem collectWhile_of_error {diagnostic : Diagnostic} (hgo : goOn w = true)
    (hrun : step w = .error diagnostic stop) :
    collectWhile goOn step w = .error diagnostic stop := by
  simp [collectWhile, collect, Window.toList, bind_apply, hgo, hrun]

theorem collectWhile_of_ok (hstep : Shrinks goOn step) (hend : w.Terminated) (hgo : goOn w = true)
    (hrun : step w = .ok first between) :
    collectWhile goOn step w =
      (do let rest ← collectWhile goOn step; return first :: rest : Parse (List α)) between := by
  obtain ⟨hend', hlt⟩ := hstep hend hgo hrun
  have hbudget : between.length ≤ w.upcoming.length := Nat.le_of_lt_succ hlt
  have hcongr := collect_congr hstep hend' hbudget (Nat.le_of_eq between.length_toList.symm)
  simp only [collectWhile, collect, Window.toList, bind_apply, window_apply, hgo, if_true, hrun]
  rw [hcongr]
  rfl

-- So a loop that goes on is a step and the same loop behind it.
theorem collectWhile_eq_bind (hstep : Shrinks goOn step) (hend : w.Terminated)
    (hgo : goOn w = true) :
    collectWhile goOn step w =
      (do
        let first ← step
        let rest ← collectWhile goOn step
        return first :: rest : Parse (List α)) w := by
  rw [bind_apply]
  cases hrun : step w with
  | error diagnostic between => exact collectWhile_of_error hgo hrun
  | ok first between => exact collectWhile_of_ok hstep hend hgo hrun

-- What holds of a loop that ends at once, and is handed back from the rest of a loop to the whole
-- of it, holds of every loop that ends well.
theorem collectWhile_induction {motive : Window → List α → Window → Prop}
    (hstep : Shrinks goOn step) (done : ∀ {w}, goOn w = false → motive w [] w)
    (more : ∀ {w between stop first rest}, w.Terminated → goOn w = true →
      step w = .ok first between → motive between rest stop → motive w (first :: rest) stop)
    (hend : w.Terminated) (hrun : collectWhile goOn step w = .ok rest stop) :
    motive w rest stop := by
  induction hn : w.length using Nat.strongRecOn generalizing w rest with
  | _ n ih =>
      subst hn
      cases hgo : goOn w with
      | false =>
          rw [collectWhile_of_not hgo] at hrun
          cases hrun
          exact done hgo
      | true =>
          cases hfirst : step w with
          | error diagnostic between =>
              rw [collectWhile_of_error hgo hfirst] at hrun
              cases hrun
          | ok first between =>
              rw [collectWhile_of_ok hstep hend hgo hfirst, bind_eq_ok] at hrun
              obtain ⟨rest', stop', hrest, heq⟩ := hrun
              cases heq
              obtain ⟨hend', hlt⟩ := hstep hend hgo hfirst
              exact more hend hgo hfirst (ih _ hlt hend' hrest rfl)

end Collect

section Iterate

variable {step : α → Parse α} {value value' result : α}

theorem iterate_congr (hstep : ∀ value, Shrinks goOn (step value)) (hend : w.Terminated)
    {budget budget' : List Token} (hbudget : w.length ≤ budget.length)
    (hbudget' : w.length ≤ budget'.length) :
    iterate goOn step budget value w = iterate goOn step budget' value w := by
  have hpos := w.length_pos
  induction budget generalizing w budget' value with
  | nil => exact absurd hbudget (by simp only [List.length_nil]; omega)
  | cons token budget ih =>
      cases budget' with
      | nil => exact absurd hbudget' (by simp only [List.length_nil]; omega)
      | cons token' budget' =>
          simp only [List.length_cons] at hbudget hbudget'
          by_cases hgo : goOn w
          · simp only [iterate, bind_apply, window_apply, if_pos hgo]
            cases hrun : step value w with
            | error diagnostic between => rfl
            | ok value' between =>
                obtain ⟨hend', hlt⟩ := hstep value hend hgo hrun
                exact ih hend' (by omega) (by omega) between.length_pos
          · simp only [iterate, bind_apply, window_apply, if_neg hgo]

theorem iterateWhile_of_not (hgo : goOn w = false) :
    iterateWhile goOn step value w = .ok value w := by
  simp [iterateWhile, iterate, Window.toList, bind_apply, hgo]

theorem iterateWhile_of_error {diagnostic : Diagnostic} (hgo : goOn w = true)
    (hrun : step value w = .error diagnostic stop) :
    iterateWhile goOn step value w = .error diagnostic stop := by
  simp [iterateWhile, iterate, Window.toList, bind_apply, hgo, hrun]

theorem iterateWhile_of_ok (hstep : ∀ value, Shrinks goOn (step value)) (hend : w.Terminated)
    (hgo : goOn w = true) (hrun : step value w = .ok value' between) :
    iterateWhile goOn step value w = iterateWhile goOn step value' between := by
  obtain ⟨hend', hlt⟩ := hstep value hend hgo hrun
  have hbudget : between.length ≤ w.upcoming.length := Nat.le_of_lt_succ hlt
  have hcongr : iterate goOn step w.upcoming value' between =
      iterate goOn step between.toList value' between :=
    iterate_congr hstep hend' hbudget (Nat.le_of_eq between.length_toList.symm)
  simp only [iterateWhile, iterate, Window.toList, bind_apply, window_apply, hgo, if_true, hrun]
  rw [hcongr]
  rfl

theorem iterateWhile_eq_bind (hstep : ∀ value, Shrinks goOn (step value)) (hend : w.Terminated)
    (hgo : goOn w = true) :
    iterateWhile goOn step value w = (step value >>= iterateWhile goOn step) w := by
  rw [bind_apply]
  cases hrun : step value w with
  | error diagnostic between => exact iterateWhile_of_error hgo hrun
  | ok value' between => exact iterateWhile_of_ok hstep hend hgo hrun

-- What every step keeps holds at the end, where the loop does not go on.
theorem iterateWhile_induction {motive : α → Window → Prop}
    (hstep : ∀ value, Shrinks goOn (step value))
    (hkeep : ∀ {w between value value'}, w.Terminated → motive value w → goOn w = true →
      step value w = .ok value' between → motive value' between)
    (hend : w.Terminated) (hstart : motive value w)
    (hrun : iterateWhile goOn step value w = .ok result stop) :
    motive result stop ∧ goOn stop = false := by
  induction hn : w.length using Nat.strongRecOn generalizing w value with
  | _ n ih =>
      subst hn
      cases hgo : goOn w with
      | false =>
          rw [iterateWhile_of_not hgo] at hrun
          cases hrun
          exact ⟨hstart, hgo⟩
      | true =>
          cases hnext : step value w with
          | error diagnostic between =>
              rw [iterateWhile_of_error hgo hnext] at hrun
              cases hrun
          | ok value' between =>
              rw [iterateWhile_of_ok hstep hend hgo hnext] at hrun
              obtain ⟨hend', hlt⟩ := hstep value hend hgo hnext
              exact ih _ hlt hend' (hkeep hend hstart hgo hnext) hrun rfl

end Iterate

end ScriptFront.Parse
