import ScriptFront.Proofs.Reading.Loop

namespace ScriptFront

open Reader Parse

namespace Window

-- Two windows that show the same tokens up to a last one. Behind that one there may be anything.
structure Alike (last : Token) (rest rest' ahead : List Token) (w w' : Window) : Prop where
  current : w'.current = w.current
  upcoming : w.upcoming = ahead ++ last :: rest
  upcoming' : w'.upcoming = ahead ++ last :: rest'

namespace Alike

variable {last token : Token} {rest rest' ahead ahead' tokens : List Token} {w w' stop : Window}

theorem peek (h : Alike last rest rest' ahead w w') : w'.peek = w.peek := by
  unfold Window.peek
  rw [h.upcoming, h.upcoming', h.current]
  cases ahead <;> rfl

theorem next (h : Alike last rest rest' (token :: ahead) w w') :
    Alike last rest rest' ahead w.next w'.next := by
  have hu := h.upcoming
  have hu' := h.upcoming'
  unfold Window.next
  rw [hu, hu']
  exact ⟨rfl, rfl, rfl⟩

theorem length_eq (h : Alike last rest rest' ahead w w') :
    w.length = ahead.length + rest.length + 2 := by
  simp only [Window.length, h.upcoming, List.length_append, List.length_cons]
  omega

theorem length_lt (h : Alike last rest rest' ahead w w') :
    ahead.length < w.toList.length ∧ ahead.length < w'.toList.length := by
  simp only [toList, h.upcoming, h.upcoming', List.length_cons, List.length_append]
  omega

theorem terminated (h : Alike last rest rest' ahead w w')
    (hend : (rest.getLastD last).kind = .eof) : w.Terminated := by
  unfold Terminated
  rw [h.upcoming]
  cases hrest : rest.getLast? with
  | none => simp_all [List.getLastD_eq_getLast?]
  | some final => simp_all [List.getLastD_eq_getLast?, List.getLast?_append, List.getLast?_cons]

-- A window between the first of two alike ones and the end of the tokens they share has read the
-- first of these tokens.
theorem ahead_eq (h : Alike last rest rest' ahead w w') (hread : w.Reads tokens stop)
    (hstop : stop.upcoming = ahead' ++ last :: rest) : ahead = tokens ++ ahead' := by
  have hu := hread.1
  rw [h.upcoming, hstop, ← List.append_assoc] at hu
  exact List.append_cancel_right hu

end Alike

end Window

namespace Parse

variable {α β : Type}

-- What a run comes to, ended at another window.
def endAt (result : EStateM.Result Diagnostic Window α) (stop : Window) :
    EStateM.Result Diagnostic Window α :=
  match result with
  | .ok value _ => .ok value stop
  | .error diagnostic _ => .error diagnostic stop

section Follows

variable (last : Token) (rest rest' : List Token)

-- From its own window the second piece does what the first one does from an alike one, as long as
-- the first one stops in front of the last token that both windows show.
def FollowsAt (x y : Parse α) (w w' : Window) : Prop :=
  ∀ ⦃ahead : List Token⦄, (x.stop w).upcoming = ahead ++ last :: rest →
    ∃ stop', (x.stop w).Alike last rest rest' ahead stop' ∧ y w' = endAt (x w) stop'

-- The same for any two alike windows, with no more than a number of tokens ahead.
def Follows (bound : Nat) (x y : Parse α) : Prop :=
  x.Forward ∧ ∀ ⦃ahead : List Token⦄ ⦃w w' : Window⦄, w.Alike last rest rest' ahead w' →
    ahead.length ≤ bound → FollowsAt last rest rest' x y w w'

variable {last rest rest'} {ahead : List Token} {w w' : Window} {bound : Nat} {x y : Parse α}

section At

variable (halike : w.Alike last rest rest' ahead w')
include halike

-- A piece that stays where it is and does the same on both sides.
theorem FollowsAt.of_stays (hstay : x.stop w = w) (hsame : y w' = endAt (x w) w') :
    FollowsAt last rest rest' x y w w' := by
  intro ahead' hstop
  rw [hstay] at hstop ⊢
  obtain rfl : ahead = ahead' := halike.ahead_eq (.refl w) hstop
  exact ⟨w', halike, hsame⟩

theorem FollowsAt.pure (value : α) :
    FollowsAt last rest rest' (Pure.pure value) (Pure.pure value) w w' :=
  .of_stays halike rfl rfl

theorem FollowsAt.advance : FollowsAt last rest rest' Reader.advance Reader.advance w w' := by
  intro ahead' hstop
  cases ahead with
  | nil =>
      -- the last token would be current, and none like it is left
      have hnext : w.next.upcoming = rest := by
        have hu := halike.upcoming
        unfold Window.next
        rw [hu]
        rfl
      have hlength := congrArg List.length (hnext.symm.trans hstop)
      simp only [List.length_append, List.length_cons] at hlength
      omega
  | cons token ahead =>
      obtain rfl : ahead = ahead' := halike.next.ahead_eq (.refl _) hstop
      exact ⟨w'.next, halike.next, rfl⟩

-- The part that is read first stops in front of the last token if the whole does.
theorem FollowsAt.bind {f g : α → Parse β} (hforward : x.Forward)
    (hforward' : ∀ value, (f value).Forward) (h : FollowsAt last rest rest' x y w w')
    (hf : ∀ ⦃value between between' ahead'⦄, x w = .ok value between →
      ahead'.length ≤ ahead.length → between.Alike last rest rest' ahead' between' →
      FollowsAt last rest rest' (f value) (g value) between between') :
    FollowsAt last rest rest' (x >>= f) (y >>= g) w w' := by
  intro ahead' hstop
  obtain ⟨tokens, hread⟩ := hforward w
  unfold FollowsAt at h
  unfold stop at hread hstop h ⊢
  rw [bind_apply] at hstop ⊢
  rw [bind_apply]
  cases hx : x w with
  | error diagnostic between =>
      simp only [hx] at hstop h ⊢
      obtain ⟨stop', halike', hy⟩ := h hstop
      exact ⟨stop', halike', by rw [hy]; rfl⟩
  | ok value between =>
      simp only [hx] at hread hstop h ⊢
      obtain ⟨second, hsecond⟩ := hforward' value between
      have hbetween : between.upcoming = (second ++ ahead') ++ last :: rest := by
        rw [hsecond.1, List.append_assoc]
        exact congrArg (second ++ ·) hstop
      obtain ⟨between', halike', hy⟩ := h hbetween
      have hlength := congrArg List.length (halike.ahead_eq hread hbetween)
      rw [List.length_append] at hlength
      obtain ⟨stop', halike'', hg⟩ := hf hx (by omega) halike' hstop
      exact ⟨stop', halike'', by rw [hy]; exact hg⟩

end At

theorem Follows.of_stays (hstay : ∀ w, x.stop w = w)
    (hsame : ∀ ⦃ahead w w'⦄, w.Alike last rest rest' ahead w' → y w' = endAt (x w) w') :
    Follows last rest rest' bound x y :=
  ⟨fun w => ⟨[], (hstay w).symm ▸ .refl w⟩,
    fun _ w _ halike _ => .of_stays halike (hstay w) (hsame halike)⟩

theorem Follows.blame (cause : Token → Cause) :
    Follows last rest rest' bound (Parse.blame cause : Parse α) (Parse.blame cause) := by
  refine .of_stays (fun _ => rfl) fun ahead w w' h => ?_
  simp only [blame_apply, endAt, h.current]

theorem Follows.current : Follows last rest rest' bound Parse.current Parse.current := by
  refine .of_stays (fun _ => rfl) fun ahead w w' h => ?_
  simp only [current_apply, endAt, h.current]

theorem Follows.peek : Follows last rest rest' bound Parse.peek Parse.peek := by
  refine .of_stays (fun _ => rfl) fun ahead w w' h => ?_
  simp only [peek_apply, endAt, h.peek]

theorem Follows.integerLiteral :
    Follows last rest rest' bound Parse.integerLiteral Parse.integerLiteral := by
  refine .of_stays (fun w => ?_) fun ahead w w' h => ?_
  · simp only [stop, Parse.integerLiteral, bind_apply, current_apply]
    cases Text.int64? w.current.literal <;> rfl
  · simp only [Parse.integerLiteral, bind_apply, current_apply, h.current]
    cases Text.int64? w.current.literal with
    | none => simp only [blame_apply, endAt, h.current]
    | some value => rfl

theorem Follows.advance : Follows last rest rest' bound Reader.advance Reader.advance :=
  ⟨fun w => w.reads_next, fun _ _ _ halike _ => .advance halike⟩

theorem Follows.bind {f g : α → Parse β} (h : Follows last rest rest' bound x y)
    (hf : ∀ value, Follows last rest rest' bound (f value) (g value)) :
    Follows last rest rest' bound (x >>= f) (y >>= g) := by
  refine ⟨h.1.bind fun value => (hf value).1, fun ahead w w' halike hbound => ?_⟩
  refine .bind halike h.1 (fun value => (hf value).1) (h.2 halike hbound) ?_
  exact fun value _ _ _ _ hle halike' => (hf value).2 halike' (Nat.le_trans hle hbound)

theorem Follows.expect (kind : TokenKind) :
    Follows last rest rest' bound (Parse.expect kind) (Parse.expect kind) := by
  refine .bind .peek fun token => ?_
  split
  · exact .advance
  · exact .of_stays (fun _ => rfl) fun _ _ _ _ => rfl

section Loops

variable {test : TokenKind → TokenKind → Bool} {budget budget' : List Token}

-- What is done with the windows does not have to be the same, only what is read from them.
theorem FollowsAt.window_bind {f g : Window → Parse β}
    (h : FollowsAt last rest rest' (f w) (g w') w w') :
    FollowsAt last rest rest' (window >>= f) (window >>= g) w w' := h

-- A step of a loop that is followed leaves fewer tokens ahead.
theorem Shrinks.ahead_lt (hend : (rest.getLastD last).kind = .eof)
    (halike : w.Alike last rest rest' ahead w') {goOn : Window → Bool} (hshrinks : Shrinks goOn x)
    (hgo : goOn w = true) {value : α} {between between' : Window} {ahead' : List Token}
    (hrun : x w = .ok value between) (halike' : between.Alike last rest rest' ahead' between') :
    ahead'.length < ahead.length := by
  obtain ⟨-, hlt⟩ := hshrinks (halike.terminated hend) hgo hrun
  rw [halike.length_eq, halike'.length_eq] at hlt
  omega

variable (hend : (rest.getLastD last).kind = .eof)
include hend

-- So two budgets that last for the tokens ahead are as good as each other.
theorem FollowsAt.collect (halike : w.Alike last rest rest' ahead w')
    (hshrinks : Shrinks (fun w => test w.current.kind w.peek.kind) x)
    (h : Follows last rest rest' bound x y) (hbound : ahead.length ≤ bound)
    (hbudget : ahead.length < budget.length) (hbudget' : ahead.length < budget'.length) :
    FollowsAt last rest rest' (Parse.collect (fun w => test w.current.kind w.peek.kind) x budget)
      (Parse.collect (fun w => test w.current.kind w.peek.kind) y budget') w w' := by
  induction budget generalizing ahead w w' budget' with
  | nil => exact absurd hbudget (Nat.not_lt_zero _)
  | cons token budget ih =>
      cases budget' with
      | nil => exact absurd hbudget' (Nat.not_lt_zero _)
      | cons token' budget' =>
          simp only [List.length_cons] at hbudget hbudget'
          have hforward := forward_collect h.1 (fun w => test w.current.kind w.peek.kind) budget
          refine .window_bind ?_
          simp only [halike.current, halike.peek]
          split
          · rename_i hgo
            refine .bind halike h.1 (fun first => hforward.bind fun rest w => ⟨[], .refl w⟩)
              (h.2 halike hbound) ?_
            intro first between between' ahead' hrun hle halike'
            have hlt : ahead'.length < ahead.length :=
              hshrinks.ahead_lt hend halike hgo hrun halike'
            have hrest := ih halike' (by omega) (by omega) (show _ < budget'.length by omega)
            refine .bind halike' hforward (fun _ w => ⟨[], .refl w⟩) hrest ?_
            exact fun rest _ _ _ _ _ halike'' => .pure halike'' _
          · exact .pure halike _

theorem FollowsAt.iterate {step step' : α → Parse α} (halike : w.Alike last rest rest' ahead w')
    (hshrinks : ∀ value, Shrinks (fun w => test w.current.kind w.peek.kind) (step value))
    (h : ∀ value, Follows last rest rest' bound (step value) (step' value))
    (hbound : ahead.length ≤ bound) (hbudget : ahead.length < budget.length)
    (hbudget' : ahead.length < budget'.length) (value : α) :
    FollowsAt last rest rest'
      (Parse.iterate (fun w => test w.current.kind w.peek.kind) step budget value)
      (Parse.iterate (fun w => test w.current.kind w.peek.kind) step' budget' value) w w' := by
  induction budget generalizing ahead w w' budget' value with
  | nil => exact absurd hbudget (Nat.not_lt_zero _)
  | cons token budget ih =>
      cases budget' with
      | nil => exact absurd hbudget' (Nat.not_lt_zero _)
      | cons token' budget' =>
          simp only [List.length_cons] at hbudget hbudget'
          have hforward := forward_iterate (fun value => (h value).1)
            (fun w => test w.current.kind w.peek.kind) budget
          refine .window_bind ?_
          simp only [halike.current, halike.peek]
          split
          · rename_i hgo
            refine .bind halike (h value).1 hforward ((h value).2 halike hbound) ?_
            intro value' between between' ahead' hrun hle halike'
            have hlt : ahead'.length < ahead.length :=
              (hshrinks value).ahead_lt hend halike hgo hrun halike'
            exact ih halike' (by omega) (by omega) (show _ < budget'.length by omega) value'
          · exact .pure halike _

theorem Follows.collectWhile (hshrinks : Shrinks (fun w => test w.current.kind w.peek.kind) x)
    (h : Follows last rest rest' bound x y) :
    Follows last rest rest' bound
      (Parse.collectWhile (fun w => test w.current.kind w.peek.kind) x)
      (Parse.collectWhile (fun w => test w.current.kind w.peek.kind) y) := by
  refine ⟨h.1.collectWhile _, fun ahead w w' halike hbound => ?_⟩
  obtain ⟨hbudget, hbudget'⟩ := halike.length_lt
  exact .window_bind (.collect hend halike hshrinks h hbound hbudget hbudget')

theorem Follows.iterateWhile {step step' : α → Parse α}
    (hshrinks : ∀ value, Shrinks (fun w => test w.current.kind w.peek.kind) (step value))
    (h : ∀ value, Follows last rest rest' bound (step value) (step' value)) (value : α) :
    Follows last rest rest' bound
      (Parse.iterateWhile (fun w => test w.current.kind w.peek.kind) step value)
      (Parse.iterateWhile (fun w => test w.current.kind w.peek.kind) step' value) := by
  refine ⟨Forward.iterateWhile (fun value => (h value).1) _ value, ?_⟩
  intro ahead w w' halike hbound
  obtain ⟨hbudget, hbudget'⟩ := halike.length_lt
  exact .window_bind (.iterate hend halike hshrinks h hbound hbudget hbudget' value)

end Loops

end Follows

-- What is in a window in front of a token does not depend on what is behind it.
def lookahead (last : Token) (rest rest' : List Token) (hend : (rest.getLastD last).kind = .eof)
    (bound : Nat) : Congruence Parse Parse where
  rel x y := Follows last rest rest' bound x y
  pure _ := .of_stays (fun _ => rfl) fun _ _ _ _ => rfl
  bind := .bind
  repeatable test x := Shrinks (fun w => test w.current.kind w.peek.kind) x
  repeatable_advance htest hx := shrinks_advance htest hx.1
  repeatable_before_advance htest hx := shrinks_before_advance htest hx.1
  repeatable_expect hkind hx := shrinks_expect hkind hx.1
  repeatable_bind hx hf := .bind hx.1 hf
  current := .current
  peek := .peek
  advance := .advance
  expect := .expect
  integerLiteral := .integerLiteral
  collectWhile _ hrepeat hstep := .collectWhile hend hrepeat hstep
  iterateWhile _ hrepeat hstep value := .iterateWhile hend hrepeat hstep value

end Parse

namespace Grammar

variable {last : Token} {rest rest' : List Token} (hend : (rest.getLastD last).kind = .eof)
include hend

-- A block opens with a token of its own, so what is in it has fewer tokens ahead.
theorem follows_blockOf {stmt stmt' : Parse Stmt} {bound : Nat} (hforward : stmt.Forward)
    (h : ∀ bound' < bound, Follows last rest rest' bound' stmt stmt') :
    Follows last rest rest' bound (blockOf stmt) (blockOf stmt') := by
  have hrel : forward.rel stmt stmt := hforward
  have hstatements := fun token : Token => forward.bind (forward.statements hrel) fun ss =>
    forward.pure (Block.mk token ss)
  refine ⟨forward.blockOf hrel, fun ahead w w' halike hbound => ?_⟩
  refine .bind halike forward.current (fun token => forward.bind forward.advance fun _ =>
    hstatements token) (Follows.current.2 halike hbound) ?_
  rintro token between between' ahead' hrun hle halike'
  refine .bind halike' forward.advance (fun _ => hstatements token) (.advance halike') ?_
  rintro _ behind behind' ahead'' hnext hle' halike''
  cases hnext
  have hlt : ahead''.length < ahead'.length := by
    obtain ⟨first, further, hu⟩ : ∃ first further, between.upcoming = first :: further := by
      rw [halike'.upcoming]
      cases ahead' with
      | nil => exact ⟨_, _, rfl⟩
      | cons first further => exact ⟨_, _, rfl⟩
    have hlength := Window.length_next_lt hu
    rw [halike''.length_eq, halike'.length_eq] at hlength
    omega
  let R := lookahead last rest rest' hend ahead''.length
  have hbody : R.rel _ _ := R.bind (R.statements (h ahead''.length (by omega))) fun ss =>
    R.pure (Block.mk token ss)
  exact hbody.2 halike'' (Nat.le_refl _)

variable (grammar : Grammar)

theorem follows_blockWithin {expr : Precedence → Parse Expr}
    (h : ∀ bound limit, Follows last rest rest' bound (expr limit) (expr limit)) {bound : Nat}
    {budget budget' : List Token} (hbudget : bound < budget.length)
    (hbudget' : bound < budget'.length) :
    Follows last rest rest' bound (grammar.blockWithin expr budget)
      (grammar.blockWithin expr budget') := by
  induction budget generalizing bound budget' with
  | nil => exact absurd hbudget (Nat.not_lt_zero _)
  | cons token budget ih =>
      cases budget' with
      | nil => exact absurd hbudget' (Nat.not_lt_zero _)
      | cons token' budget' =>
          simp only [List.length_cons] at hbudget hbudget'
          have hstmt : (grammar.stmt ⟨expr, grammar.blockWithin expr budget⟩).Forward := by
            have hexpr (limit : Precedence) : forward.rel (expr limit) (expr limit) :=
              (h 0 limit).1
            have hparts : forward.RelParts ⟨expr, grammar.blockWithin expr budget⟩
                ⟨expr, grammar.blockWithin expr budget⟩ :=
              ⟨hexpr, forward.blockWithin grammar hexpr budget⟩
            exact hparts.stmt grammar
          refine follows_blockOf hend hstmt fun bound' hlt => ?_
          have hblock := @ih bound' budget' (by omega) (by omega)
          let R := lookahead last rest rest' hend bound'
          have hparts : R.RelParts ⟨expr, grammar.blockWithin expr budget⟩
              ⟨expr, grammar.blockWithin expr budget'⟩ := ⟨h bound', hblock⟩
          exact hparts.stmt grammar

theorem follows_block {expr : Precedence → Parse Expr}
    (h : ∀ bound limit, Follows last rest rest' bound (expr limit) (expr limit)) (bound : Nat) :
    Follows last rest rest' bound (grammar.block expr) (grammar.block expr) := by
  have hexpr (limit : Precedence) : forward.rel (expr limit) (expr limit) := (h 0 limit).1
  refine ⟨(forward.relParts grammar (fun w => ⟨[], .refl w⟩) hexpr).block, ?_⟩
  intro ahead w w' halike hbound
  obtain ⟨hbudget, hbudget'⟩ := halike.length_lt
  refine .window_bind ?_
  exact (follows_blockWithin hend grammar h hbudget hbudget').2 halike (Nat.le_refl _)

theorem follows_expr (levels bound : Nat) (limit : Precedence) :
    Follows last rest rest' bound (grammar.expr levels limit) (grammar.expr levels limit) := by
  induction levels generalizing bound limit with
  | zero => exact .blame _
  | succ levels ih =>
      let R := lookahead last rest rest' hend bound
      have hparts : R.RelParts (grammar.partsAt levels) (grammar.partsAt levels) :=
        ⟨ih bound, follows_block hend grammar ih bound⟩
      exact hparts.nested grammar limit (.blame _)

theorem follows_partsAt (levels bound : Nat) :
    (lookahead last rest rest' hend bound).RelParts (grammar.partsAt levels)
      (grammar.partsAt levels) :=
  ⟨follows_expr hend grammar levels bound,
    follows_block hend grammar (follows_expr hend grammar levels) bound⟩

end Grammar

end ScriptFront
