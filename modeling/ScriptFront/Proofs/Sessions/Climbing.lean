import ScriptFront.Proofs.Branches.Basic
import ScriptFront.Proofs.Nesting.Transparency
import ScriptFront.Proofs.Reading.Gives
import ScriptFront.Proofs.Sessions.Lookahead

namespace ScriptFront

open Reader Parse

namespace Parse

variable {α : Type} {goOn goOn' : Window → Bool} {step : α → Parse α} {w : Window} {value : α}

theorem Shrinks.of_imp {x : Parse α} (h : Shrinks goOn' x)
    (himp : ∀ w, goOn w = true → goOn' w = true) : Shrinks goOn x :=
  fun _ _ _ hend hgo hrun => h hend (himp _ hgo) hrun

-- A loop that goes on where another one does takes all the steps of that one first, and is then
-- where it would be without it.
theorem iterateWhile_bind_of_imp (himp : ∀ w, goOn w = true → goOn' w = true)
    (hshrinks : ∀ value, Shrinks goOn' (step value)) (hend : w.Terminated) :
    iterateWhile goOn' step value w =
      (iterateWhile goOn step value >>= iterateWhile goOn' step) w := by
  induction hn : w.length using Nat.strongRecOn generalizing w value with
  | _ n ih =>
      subst hn
      rw [bind_apply]
      cases hgo : goOn w with
      | false => rw [iterateWhile_of_not hgo]
      | true =>
          have hgo' := himp w hgo
          cases hrun : step value w with
          | error diagnostic stop =>
              rw [iterateWhile_of_error hgo hrun, iterateWhile_of_error hgo' hrun]
          | ok next between =>
              obtain ⟨hend', hlt⟩ := hshrinks value hend hgo' hrun
              have hrest : iterateWhile goOn' step next between =
                  (iterateWhile goOn step next >>= iterateWhile goOn' step) between :=
                ih _ hlt hend' rfl
              rw [iterateWhile_of_ok (fun value => (hshrinks value).of_imp himp) hend hgo hrun,
                iterateWhile_of_ok hshrinks hend hgo' hrun, hrest, bind_apply]

end Parse

-- The second expression is the first one, with operators and brackets behind it that it is the
-- left of.
inductive Expr.OnLeftOf (left : Expr) : Expr → Prop where
  | refl : OnLeftOf left left
  | step {inner outer : Expr} (houter : (Node.expr outer).left? = some (.expr inner))
      (h : OnLeftOf left inner) : OnLeftOf left outer

theorem InfixRule.gives_left (rule : InfixRule) (parts : Parts Parse) (left : Expr) :
    (rule.parse parts left).Gives fun e => (Node.expr e).left? = some (.expr left) := by
  refine .after _ fun token => ?_
  cases rule with
  | operator => exact .after _ fun _ => .after _ fun _ => .pure rfl
  | call => exact .after _ fun _ => .pure rfl
  | index => exact .after _ fun _ => .after _ fun _ => .after _ fun _ => .pure rfl
  | field => exact .after _ fun _ => .pure rfl

namespace Grammar

variable (grammar : Grammar)

theorem gives_continuation_onLeftOf (parts : Parts Parse) {left inner : Expr}
    (h : left.OnLeftOf inner) : (grammar.continuation parts inner).Gives left.OnLeftOf := by
  refine .after _ fun _ => .after _ fun token => ?_
  cases grammar.infixRule? token.kind with
  | none => exact .pure h
  | some rule => exact (rule.gives_left parts inner).mono fun outer houter => .step houter h

theorem gives_climb_onLeftOf (parts : Parts Parse) (limit : Precedence) (left : Expr) :
    (grammar.climb parts limit left).Gives left.OnLeftOf :=
  .iterateWhile (fun _ h => grammar.gives_continuation_onLeftOf parts h) _ .refl

variable {limit limit' : Precedence} {w : Window}

theorem continues_of_le (hle : limit' ≤ limit) (hgo : grammar.continues limit w = true) :
    grammar.continues limit' w = true := by
  simp only [continues, Bool.and_eq_true, decide_eq_true_eq] at hgo ⊢
  exact ⟨Nat.lt_of_le_of_lt hle hgo.1, hgo.2⟩

-- Operators that bind tighter than the higher limit come first, and the others are taken in behind
-- them.
theorem climb_bind_of_le (levels : Nat) (left : Expr) (hle : limit' ≤ limit)
    (hend : w.Terminated) :
    grammar.climb (grammar.partsAt levels) limit' left w =
      (grammar.climb (grammar.partsAt levels) limit left >>=
        grammar.climb (grammar.partsAt levels) limit') w :=
  iterateWhile_bind_of_imp (fun _ => grammar.continues_of_le hle)
    (grammar.shrinks_continuation levels limit') hend

theorem expr_bind_of_le (levels : Nat) (hle : limit' ≤ limit) (hend : w.Terminated) :
    grammar.expr (levels + 1) limit' w =
      (grammar.expr (levels + 1) limit >>= grammar.climb (grammar.partsAt levels) limit') w := by
  simp only [expr, nested, bind_apply, current_apply]
  cases grammar.prefixRule? w.current.kind with
  | none => rfl
  | some rule =>
      simp only [bind_apply]
      cases hrun : rule.parse (grammar.partsAt levels) w with
      | error diagnostic stop =>
          simp only [partsAt] at hrun
          simp only [hrun]
      | ok left between =>
          have hrule := (grammar.forward_partsAt levels).prefixRule rule
          obtain ⟨tokens, hread⟩ := Forward.reads hrule hrun
          have hclimb := grammar.climb_bind_of_le levels left hle (hread.terminated hend)
          simp only [partsAt, bind_apply] at hrun hclimb ⊢
          simp only [hrun, hclimb]

end Grammar

namespace Session

section Run

variable {α β : Type} {session next : Session} {x : Parse α} {f : α → Parse β}

theorem run_eq_ok_iff {value : α} :
    session.run x = (.ok value, next) ↔
      ∃ stop, x session.window = .ok value stop ∧ { session with window := stop } = next := by
  unfold run
  cases x session.window <;> simp [and_assoc]

theorem run_congr {y : Parse α} (h : x session.window = y session.window) :
    session.run x = session.run y := by
  unfold run
  rw [h]

theorem run_bind_of_ok {value : α} (h : session.run x = (.ok value, next)) :
    session.run (x >>= f) = next.run (f value) := by
  obtain ⟨stop, hrun, rfl⟩ := run_eq_ok_iff.mp h
  simp only [run, bind_apply, hrun]

theorem run_bind_of_error {diagnostic : Diagnostic}
    (h : session.run x = (.error diagnostic, next)) :
    session.run (x >>= f) = (.error diagnostic, next) := by
  unfold run at h ⊢
  rw [bind_apply]
  cases hrun : x session.window with
  | ok value stop =>
      rw [hrun] at h
      cases h
  | error diagnostic' stop =>
      rw [hrun] at h
      cases h
      rfl

end Run

-- Takes in operators behind an expression that has been read, at the level it was read on.
def climb (session : Session) (limit : Precedence) (left : Expr) :
    Except Diagnostic Expr × Session :=
  let opened : Session := { session with depth := session.depth + 1 }
  session.run (session.grammar.climb opened.parts limit left)

theorem climb_eq_run {session : Session} {levels : Nat} (hlevels : session.levels = levels + 1)
    (limit : Precedence) (left : Expr) :
    session.climb limit left =
      session.run (session.grammar.climb (session.grammar.partsAt levels) limit left) := by
  have hopened : maxNesting - (session.depth + 1) = levels := by
    unfold Session.levels at hlevels
    omega
  simp only [climb, parts, Session.levels, hopened]

theorem climb_eq_ok {session next : Session} {limit : Precedence} {left e : Expr}
    (h : session.climb limit left = (.ok e, next)) :
    (∃ tokens, session.window.Reads tokens next.window) ∧ left.OnLeftOf e := by
  obtain ⟨stop, hrun, rfl⟩ := run_eq_ok_iff.mp h
  have hforward := (session.grammar.forward_partsAt (maxNesting - (session.depth + 1))).climb
    session.grammar limit left
  exact ⟨Forward.reads hforward hrun, session.grammar.gives_climb_onLeftOf _ limit left hrun⟩

-- Without a level that is left, there is no room for any expression, whatever its operators.
theorem expr_of_levels_eq_zero {session : Session} (hlevels : session.levels = 0)
    (limit : Precedence) :
    session.expr limit = (.error ⟨.tooDeep maxNesting, session.current⟩, session) := by
  unfold expr
  rw [hlevels]
  rfl

theorem expr_eq_run {session : Session} {levels : Nat} (hlevels : session.levels = levels + 1)
    (limit : Precedence) :
    session.expr limit = session.run (session.grammar.expr (levels + 1) limit) := by
  unfold expr
  rw [hlevels]

theorem expr_eq_run_bind {session : Session} {levels : Nat} {limit limit' : Precedence}
    (hlevels : session.levels = levels + 1) (hle : limit' ≤ limit)
    (hend : session.window.Terminated) :
    session.expr limit' = session.run (session.grammar.expr (levels + 1) limit >>=
      session.grammar.climb (session.grammar.partsAt levels) limit') := by
  rw [expr_eq_run hlevels]
  exact run_congr (session.grammar.expr_bind_of_le levels hle hend)

-- Where the operators that bind tighter than a limit cannot all be taken in, a lower limit fails in
-- the same way. Where they can, a lower limit does what the climb at that limit does from there on
-- with the expression so far. It gives the expression itself or one that has it at its left end.
theorem expr_of_lt (grammar : Grammar) (tokens : List Token) (position depth : Nat)
    {limit limit' : Precedence} (hlt : limit' < limit) :
    let whole := Window.ofTokens tokens
    let session : Session := ⟨Nat.repeat Window.next position whole, depth, grammar⟩
    (∀ diagnostic next, session.expr limit = (.error diagnostic, next) →
      session.expr limit' = (.error diagnostic, next)) ∧
    ∀ e next, session.expr limit = (.ok e, next) →
      session.expr limit' = next.climb limit' e ∧
      ∀ e' stop, session.expr limit' = (.ok e', stop) →
        next.window.indexIn whole ≤ stop.window.indexIn whole ∧ e.OnLeftOf e' := by
  intro whole session
  have hend : session.window.Terminated := Window.terminated_repeat_next tokens position
  cases hlevels : session.levels with
  | zero =>
      have hfull := expr_of_levels_eq_zero hlevels
      refine ⟨fun diagnostic next h => (hfull limit').trans ((hfull limit).symm.trans h), ?_⟩
      intro e next h
      cases (hfull limit).symm.trans h
  | succ fewer =>
      have hbind := expr_eq_run_bind hlevels (Nat.le_of_lt hlt) hend
      constructor
      · intro diagnostic next h
        rw [expr_eq_run hlevels] at h
        exact hbind.trans (run_bind_of_error h)
      · intro e next h
        rw [expr_eq_run hlevels] at h
        obtain ⟨between, -, rfl⟩ := run_eq_ok_iff.mp h
        have hlevels' : levels { session with window := between } = fewer + 1 := hlevels
        have hclimb : session.expr limit' = climb { session with window := between } limit' e :=
          (hbind.trans (run_bind_of_ok h)).trans (climb_eq_run hlevels' limit' e).symm
        refine ⟨hclimb, fun e' stop h' => ?_⟩
        obtain ⟨⟨tokens, hread⟩, hleft⟩ := climb_eq_ok (hclimb.symm.trans h')
        exact ⟨hread.indexIn_le, hleft⟩

-- A product that a sum goes on with, and one that lacks its right side. The first names of both
-- are passed over.
theorem expr_of_lt_product :
    let start : Token := ⟨.identifier, "x"⟩
    let star : Token := ⟨.star, "*"⟩
    let plus : Token := ⟨.plus, "+"⟩
    let closing : Token := ⟨.closeParen, ")"⟩
    let tokens : List Token := [start, start, star, start, plus, start]
    let tokens' : List Token := [start, start, star, closing]
    let behind (tokens : List Token) : Window := Nat.repeat Window.next 1 (.ofTokens tokens)
    let x : Expr := .ident (.ofToken start)
    let product : Expr := .infixOp star "*" x x
    let sum : Expr := .infixOp plus "+" product x
    let next : Session := ⟨⟨start, [plus, start, .eof]⟩, 7, .standard⟩
    let stop : Session := ⟨⟨start, [.eof]⟩, 7, .standard⟩
    let next' : Session := ⟨⟨closing, [.eof]⟩, 7, .standard⟩
    let diagnostic : Diagnostic := ⟨.missingPrefix .closeParen, closing⟩
    (Precedence.lowest < .sum ∧
      Session.expr ⟨behind tokens, 7, .standard⟩ .sum = (.ok product, next) ∧
      Session.expr ⟨behind tokens, 7, .standard⟩ .lowest = (.ok sum, stop) ∧
      Session.expr ⟨behind tokens', 7, .standard⟩ .sum = (.error diagnostic, next')) ∧
    Session.expr ⟨behind tokens, 7, .standard⟩ .lowest = next.climb .lowest product ∧
      next.window.indexIn (.ofTokens tokens) ≤ stop.window.indexIn (.ofTokens tokens) ∧
      product.OnLeftOf sum ∧
      Session.expr ⟨behind tokens', 7, .standard⟩ .lowest = (.error diagnostic, next') := by
  intro start star plus closing tokens tokens' behind x product sum next stop next' diagnostic
  have hlt : Precedence.lowest < .sum := by decide
  have hsum : Session.expr ⟨behind tokens, 7, .standard⟩ .lowest = (.ok sum, stop) := rfl
  obtain ⟨hclimb, hstop⟩ := (expr_of_lt .standard tokens 1 7 hlt).2 product next rfl
  obtain ⟨hindex, hleft⟩ := hstop sum stop hsum
  exact ⟨⟨hlt, rfl, hsum, rfl⟩, hclimb, hindex, hleft,
    (expr_of_lt .standard tokens' 1 7 hlt).1 diagnostic next' rfl⟩

end Session

end ScriptFront
