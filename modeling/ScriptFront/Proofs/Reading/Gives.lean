import ScriptFront.Parse.Basic

namespace ScriptFront.Parse

variable {α β : Type} {P P' : α → Prop} {Q : β → Prop} {x y : Parse α}

-- Whatever a piece gives, on any window, has the property.
def Gives (P : α → Prop) (x : Parse α) : Prop :=
  ∀ ⦃w stop : Window⦄ ⦃value : α⦄, x w = .ok value stop → P value

theorem Gives.mono (h : x.Gives P) (hP : ∀ value, P value → P' value) : x.Gives P' :=
  fun _ _ value hrun => hP value (h hrun)

theorem Gives.pure {value : α} (h : P value) : Gives P (Pure.pure value) := by
  intro w stop value' hrun
  cases hrun
  exact h

theorem gives_blame (cause : Token → Cause) : Gives P (blame cause) := by
  intro w stop value hrun
  cases hrun

theorem Gives.ite {c : Prop} [Decidable c] (hx : x.Gives P) (hy : y.Gives P) :
    Gives P (if c then x else y) := by
  split
  · exact hx
  · exact hy

theorem Gives.bind {f : α → Parse β} (hx : x.Gives P) (hf : ∀ value, P value → (f value).Gives Q) :
    Gives Q (x >>= f) := by
  intro w stop value hrun
  obtain ⟨first, between, hfirst, hrest⟩ := (bind_eq_ok _ _ _).mp hrun
  exact hf first (hx hfirst) hrest

-- Nothing needs to be known of what is read first.
theorem Gives.after (x : Parse α) {f : α → Parse β} (hf : ∀ value, (f value).Gives Q) :
    Gives Q (x >>= f) := by
  have hx : x.Gives fun _ => True := fun _ _ _ _ => trivial
  exact hx.bind fun value _ => hf value

theorem Gives.collectWhile (h : x.Gives P) (goOn : Window → Bool) :
    (Parse.collectWhile goOn x).Gives fun values => ∀ value ∈ values, P value := by
  refine .after _ fun w => ?_
  generalize w.toList = budget
  induction budget with
  | nil => exact .pure (by simp)
  | cons token budget ih =>
      refine .after _ fun w => .ite ?_ (.pure (by simp))
      refine h.bind fun first hfirst => ih.bind fun rest hrest => .pure ?_
      exact List.forall_mem_cons.mpr ⟨hfirst, hrest⟩

theorem Gives.iterateWhile {step : α → Parse α} (h : ∀ value, P value → (step value).Gives P)
    (goOn : Window → Bool) {value : α} (hvalue : P value) :
    (Parse.iterateWhile goOn step value).Gives P := by
  refine .after _ fun w => ?_
  generalize w.toList = budget
  induction budget generalizing value with
  | nil => exact .pure hvalue
  | cons token budget ih =>
      refine .after _ fun w => .ite ?_ (.pure hvalue)
      exact (h value hvalue).bind fun next hnext => ih hnext

end ScriptFront.Parse
