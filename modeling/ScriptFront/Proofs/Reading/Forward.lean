import ScriptFront.Proofs.Reading.Congruence
import ScriptFront.Proofs.Reading.Window

namespace ScriptFront

open Reader Parse

namespace Parse

variable {α β : Type}

-- Where a run ends, with a result or with a diagnostic.
def stop (x : Parse α) (w : Window) : Window :=
  match x w with
  | .ok _ stop => stop
  | .error _ stop => stop

-- What comes of a run, wherever it ends.
def result (x : Parse α) (w : Window) : Except Diagnostic α :=
  match x w with
  | .ok value _ => .ok value
  | .error diagnostic _ => .error diagnostic

-- Whatever comes of it, the window only moves forward.
def Forward (x : Parse α) : Prop :=
  ∀ w : Window, ∃ tokens, w.Reads tokens (x.stop w)

theorem Forward.bind {x : Parse α} {f : α → Parse β} (hx : x.Forward)
    (hf : ∀ value, (f value).Forward) : (x >>= f).Forward := by
  intro w
  obtain ⟨first, hfirst⟩ := hx w
  unfold stop at hfirst ⊢
  rw [bind_apply]
  cases hrun : x w with
  | error diagnostic between => exact ⟨first, by simpa [hrun] using hfirst⟩
  | ok value between =>
      obtain ⟨second, hsecond⟩ := hf value between
      simp only [hrun] at hfirst
      exact ⟨first ++ second, hfirst.trans hsecond⟩

theorem forward_expect (kind : TokenKind) : (expect kind : Parse Unit).Forward := by
  intro w
  unfold stop
  rw [expect_apply]
  by_cases hk : w.peek.kind = kind
  · rw [if_pos hk]
    exact w.reads_next
  · rw [if_neg hk]
    exact ⟨[], .refl w⟩

theorem forward_integerLiteral : (integerLiteral : Parse Expr).Forward := by
  intro w
  have hstop : (integerLiteral : Parse Expr).stop w = w := by
    simp only [stop, integerLiteral, bind_apply, current_apply]
    cases Text.int64? w.current.literal <;> rfl
  rw [hstop]
  exact ⟨[], .refl w⟩

-- Nothing that reads is written with more than these, so nothing ever moves back.
def forward : Congruence Parse Parse :=
  .ofWindow (fun x _ => x.Forward) (fun _ _ => ⟨[], .refl _⟩) Forward.bind
    (fun w => ⟨[], .refl w⟩) (fun w => w.reads_next) forward_expect forward_integerLiteral

theorem Forward.reads {x : Parse α} (h : x.Forward) {w stop : Window} {value : α}
    (hrun : x w = .ok value stop) : ∃ tokens, w.Reads tokens stop := by
  obtain ⟨tokens, hread⟩ := h w
  exact ⟨tokens, by simpa [Parse.stop, hrun] using hread⟩

section Loops

variable {x : Parse α} {step : α → Parse α}

theorem forward_collect (hx : x.Forward) (goOn : Window → Bool) (budget : List Token) :
    (collect goOn x budget).Forward := by
  have hrel : forward.rel x x := hx
  exact Congruence.rel_collect forward.rel forward.pure forward.bind (fun w => ⟨[], .refl w⟩) hrel
    goOn budget

theorem forward_iterate (hstep : ∀ value, (step value).Forward) (goOn : Window → Bool)
    (budget : List Token) (value : α) : (iterate goOn step budget value).Forward := by
  have hrel (value : α) : forward.rel (step value) (step value) := hstep value
  exact Congruence.rel_iterate forward.rel forward.pure forward.bind (fun w => ⟨[], .refl w⟩) hrel
    goOn budget value

theorem Forward.collectWhile (hx : x.Forward) (goOn : Window → Bool) :
    (Parse.collectWhile goOn x).Forward :=
  fun w => forward_collect hx goOn w.toList w

theorem Forward.iterateWhile (hstep : ∀ value, (step value).Forward) (goOn : Window → Bool)
    (value : α) : (Parse.iterateWhile goOn step value).Forward :=
  fun w => forward_iterate hstep goOn w.toList value w

end Loops

end Parse

namespace Grammar

variable (grammar : Grammar)

theorem forward_expr (levels : Nat) (limit : Precedence) :
    (grammar.expr levels limit).Forward := by
  induction levels generalizing limit with
  | zero => exact fun w => ⟨[], .refl w⟩
  | succ levels ih =>
      have hparts : forward.RelParts (grammar.partsAt levels) (grammar.partsAt levels) :=
        forward.relParts grammar (fun w => ⟨[], .refl w⟩) ih
      exact hparts.nested grammar limit fun w => ⟨[], .refl w⟩

theorem forward_partsAt (levels : Nat) :
    forward.RelParts (grammar.partsAt levels) (grammar.partsAt levels) :=
  forward.relParts grammar (fun w => ⟨[], .refl w⟩) (grammar.forward_expr levels)

theorem forward_stmt (levels : Nat) : (grammar.stmt (grammar.partsAt levels)).Forward :=
  (grammar.forward_partsAt levels).stmt grammar

end Grammar

end ScriptFront
