import ScriptFront.Parse.Session
import ScriptFront.Proofs.Nesting.Agreement
import ScriptFront.Proofs.Reading.Progress

namespace ScriptFront

open Reader Parse

namespace Watched

variable {α β : Type} {room fuel : Nat} {watch : Watch}

theorem AgreesAt.current_bind {f : Token → Parse β} {g : Token → Watched β}
    (h : AgreesAt room (f watch.window.current) (g watch.window.current) watch) :
    AgreesAt room (Parse.current >>= f) (Parse.current >>= g) watch := h

theorem AgreesAt.peek_bind {f : Token → Parse β} {g : Token → Watched β}
    (h : AgreesAt room (f watch.window.peek) (g watch.window.peek) watch) :
    AgreesAt room (Parse.peek >>= f) (Parse.peek >>= g) watch := h

theorem AgreesAt.window_bind {f : Window → Parse β} {g : Window → Watched β}
    (h : AgreesAt room (f watch.window) (g watch.window) watch) :
    AgreesAt room (Reader.window >>= f) (Reader.window >>= g) watch := h

-- Behind a token that is taken there is one token less, so less fuel is called for.
theorem AgreesAt.advance_bind {f : Unit → Parse β} {g : Unit → Watched β}
    (hf : (agreement room fuel).rel (f ()) (g ())) (hend : watch.window.Terminated)
    (hlength : watch.window.length ≤ fuel + 1)
    (hk : watch.window.current.kind ≠ .eof ∨ watch.window.peek.kind ≠ .eof) :
    AgreesAt room (Reader.advance >>= f) (Reader.advance >>= g) watch := by
  refine .bind .advance fun value stop new hy hext => ?_
  cases hy
  have hlt := hend.length_next_lt hk
  refine hf _ hend.next ?_
  simp only
  omega

theorem AgreesAt.expect_bind {kind : TokenKind} {f : Unit → Parse β} {g : Unit → Watched β}
    (hf : (agreement room fuel).rel (f ()) (g ())) (hend : watch.window.Terminated)
    (hlength : watch.window.length ≤ fuel + 1) (hkind : kind ≠ .eof) :
    AgreesAt room (Parse.expect kind >>= f) (Parse.expect kind >>= g) watch := by
  simp only [Parse.expect, bind_assoc]
  refine .peek_bind ?_
  split
  · rename_i hpeek
    exact .advance_bind hf hend hlength (.inr (hpeek ▸ hkind))
  · exact .of_extends (.refl watch) rfl

section Rules

variable {parts : Parts Parse} {watched : Parts Watched}
  (h : (agreement room fuel).RelParts parts watched) (hend : watch.window.Terminated)
  (hlength : watch.window.length ≤ fuel + 1)
include h hend hlength

theorem AgreesAt.pair_bind (hk : watch.window.current.kind ≠ .eof)
    {f : Expr × Expr → Parse β} {g : Expr × Expr → Watched β}
    (hf : ∀ pair, (agreement room fuel).rel (f pair) (g pair)) :
    AgreesAt room (parts.pair >>= f) (watched.pair >>= g) watch := by
  let R := agreement room fuel
  simp only [Parts.pair, bind_assoc]
  refine .advance_bind (R.bind (h.expr _) fun _ => R.bind (R.expect _) fun _ =>
    R.bind R.advance fun _ => R.bind (h.expr _) fun _ => R.bind R.peek fun _ =>
    R.bind (R.ite (R.pure _) ?_) hf) hend hlength (.inl hk)
  exact R.bind (R.expect _) fun _ => R.pure _

-- A rule starts at a token of its own, so the expressions inside it start behind that.
theorem AgreesAt.prefixRule (rule : PrefixRule) (hk : watch.window.current.kind ≠ .eof) :
    AgreesAt room (rule.parse parts) (rule.parse watched) watch := by
  have hmoves : watch.window.current.kind ≠ .eof ∨ watch.window.peek.kind ≠ .eof := .inl hk
  let R := agreement room fuel
  refine .current_bind ?_
  cases rule with
  | identifier => exact .pure _
  | integer => exact .integerLiteral
  | string => exact .pure _
  | boolean => exact .pure _
  | operator =>
      exact .advance_bind (R.bind (h.expr _) fun _ => R.pure _) hend hlength hmoves
  | grouped =>
      exact .advance_bind (R.bind (h.expr _) fun _ => R.bind (R.expect _) fun _ => R.pure _)
        hend hlength hmoves
  | ifElse =>
      simp only [Parts.condition, bind_assoc]
      refine .expect_bind (R.bind h.parenthesised fun _ => R.bind h.braced fun _ =>
        R.bind R.peek fun _ => R.ite ?_ (R.pure _)) hend hlength (by decide)
      exact R.bind R.advance fun _ => R.bind h.braced fun _ => R.pure _
  | whileLoop =>
      simp only [Parts.condition, bind_assoc]
      exact .expect_bind (R.bind h.parenthesised fun _ => R.bind h.braced fun _ => R.pure _)
        hend hlength (by decide)
  | function =>
      exact .expect_bind (R.bind R.parameters fun _ => R.bind h.braced fun _ => R.pure _)
        hend hlength (by decide)
  | array =>
      simp only [Parts.exprList, bind_assoc]
      refine .peek_bind ?_
      split
      · simp only [bind_assoc]
        exact .advance_bind (R.bind (R.pure _) fun _ => R.pure _) hend hlength hmoves
      · simp only [bind_assoc]
        refine .advance_bind (R.bind (h.expr _) fun _ => R.bind ?_ fun _ =>
          R.bind (R.expect _) fun _ => R.bind (R.pure _) fun _ => R.pure _) hend hlength hmoves
        exact R.collectWhile (fun _ next => next = .comma) trivial
          (R.bind R.advance fun _ => R.bind R.advance fun _ => h.expr _)
  | hash =>
      simp only [Parts.pairs, collectWhile, bind_assoc]
      refine .window_bind ?_
      simp only [Window.toList, collect, bind_assoc]
      refine .window_bind ?_
      split
      · simp only [bind_assoc]
        refine .pair_bind h hend hlength hk fun _ => R.bind ?_ fun _ =>
          R.bind (R.pure _) fun _ => R.bind (R.expect _) fun _ => R.bind (R.pure _) fun _ =>
          R.pure _
        exact Congruence.rel_collect R.rel R.pure R.bind (fun _ _ _ => .window) h.pair _ _
      · exact .bind (.pure _) fun _ _ _ _ _ => .bind (.expect _) fun _ _ _ _ _ =>
          .bind (.pure _) fun _ _ _ _ _ => .pure _

theorem AgreesAt.continuation (grammar : Grammar) (left : Expr)
    (hk : watch.window.peek.kind ≠ .eof) :
    AgreesAt room (grammar.continuation parts left) (grammar.continuation watched left) watch := by
  let R := agreement room fuel
  refine .advance_bind (R.bind R.current fun token => ?_) hend hlength (.inr hk)
  cases grammar.infixRule? token.kind with
  | none => exact R.pure _
  | some rule => exact h.infixRule rule left

end Rules

theorem AgreesAt.climb {parts : Parts Parse} {watched : Parts Watched}
    (h : (agreement room fuel).RelParts parts watched) (hend : watch.window.Terminated)
    (hlength : watch.window.length ≤ fuel + 1) (grammar : Grammar) (limit : Precedence)
    (left : Expr) :
    AgreesAt room (grammar.climb parts limit left) (grammar.climb watched limit left) watch := by
  refine .window_bind ?_
  generalize watch.window.toList = budget
  induction budget generalizing left watch with
  | nil => exact .pure _
  | cons token budget ih =>
      refine .window_bind ?_
      split
      · rename_i hgo
        have hpeek := Grammar.peek_ne_eof_of_continues hgo
        refine .bind (.continuation h hend hlength grammar left hpeek)
          fun value stop new hy hext => ?_
        exact ih (hext.terminated hend) (Nat.le_trans hext.length_le hlength) value
      · exact .pure _

theorem AgreesAt.nested {parts : Parts Parse} {watched : Parts Watched}
    (h : (agreement room fuel).RelParts parts watched) (hend : watch.window.Terminated)
    (hlength : watch.window.length ≤ fuel + 1) {grammar : Grammar}
    (heof : grammar.prefixRule? .eof = none) (limit : Precedence) :
    AgreesAt room (grammar.nested parts limit) (grammar.nested watched limit) watch := by
  refine .current_bind ?_
  cases hrule : grammar.prefixRule? watch.window.current.kind with
  | none => exact .blame _
  | some rule =>
      have hk : watch.window.current.kind ≠ .eof := by
        intro hk
        simp [hk, heof] at hrule
      refine .bind (.prefixRule h hend hlength rule hk) fun left stop new hy hext => ?_
      exact .climb h (hext.terminated hend) (Nat.le_trans hext.length_le hlength) grammar limit left

theorem finish_opened (x : Watched α) (watch : Watch) :
    finish (opened x watch) = (finish (x watch.enter)).leave := by
  unfold opened
  cases x watch.enter <;> rfl

-- Closing an expression does not show in what a cut leaves of the run.
theorem cutOff_opened (x : Watched α) (watch : Watch) (opening : Option Opening) :
    cutOff (opened x watch) opening = cutOff (x watch.enter) opening := by
  unfold opened
  cases opening <;> cases x watch.enter <;> rfl

theorem agrees_unguarded {grammar : Grammar} (heof : grammar.prefixRule? .eof = none)
    (room fuel : Nat) (limit : Precedence) :
    (agreement room fuel).rel (grammar.expr room limit) (grammar.unguarded fuel limit) := by
  induction fuel generalizing room limit with
  | zero => exact fun watch _ hlength => absurd watch.window.length_pos (by omega)
  | succ fuel ih =>
      intro watch hend hlength
      have hend' : watch.enter.window.Terminated := hend
      have hparts (room : Nat) : (agreement room fuel).RelParts (grammar.partsAt room)
          (grammar.parts (grammar.unguarded fuel)) :=
        (agreement room fuel).relParts grammar (fun _ _ _ => .window) (ih room)
      cases room with
      | zero =>
          -- there is no room, so what happens inside the opening does not matter
          have hnested : AgreesAt 0 (grammar.nested (grammar.partsAt 0) limit)
              (grammar.nested (grammar.parts (grammar.unguarded fuel)) limit) watch.enter :=
            .nested (hparts 0) hend' hlength heof limit
          obtain ⟨new, hext, -⟩ := hnested
          refine ⟨⟨watch.depth + 1, watch.window⟩ :: new, ?_, ?_⟩
          · exact (finish_opened _ watch).symm ▸ hext.leave
          · rw [List.find?_cons_of_pos (by simp)]
            rfl
      | succ room =>
          have hnested : AgreesAt room (grammar.nested (grammar.partsAt room) limit)
              (grammar.nested (grammar.parts (grammar.unguarded fuel)) limit) watch.enter :=
            .nested (hparts room) hend' hlength heof limit
          obtain ⟨new, hext, hrun⟩ := hnested
          refine ⟨⟨watch.depth + 1, watch.window⟩ :: new, ?_, ?_⟩
          · exact (finish_opened _ watch).symm ▸ hext.leave
          · have hdepth : watch.enter.depth + room = watch.depth + (room + 1) := by
              simp only [Watch.enter]
              omega
            rw [List.find?_cons_of_neg (by simp), ← hdepth]
            exact hrun.trans (cutOff_opened _ watch _).symm

end Watched

-- What agreement means for a session: the piece does what the watched one does, unless there is
-- an opening it has no room for.
theorem Session.run_of_agreesAt {α : Type} {room : Nat} {x : Parse α} {y : Watched α}
    (session : Session) (h : Watched.AgreesAt room x y (.start session.window)) :
    session.run x =
      match (y.run (.start session.window)).2.openings.find? fun opening =>
        room < opening.depth with
      | none =>
        ((y.run (.start session.window)).1,
          { session with window := (y.run (.start session.window)).2.window })
      | some opening =>
        (.error ⟨.tooDeep maxNesting, opening.window.current⟩,
          { session with window := opening.window }) := by
  obtain ⟨w, depth, grammar⟩ := session
  obtain ⟨new, hext, hrun⟩ := h
  have hopenings := hext.openings
  have hdepth : (Watch.start w).depth + room = room := Nat.zero_add room
  rw [hdepth] at hrun
  change x w = _ at hrun
  simp only [Session.run, Watched.run, hrun]
  cases hy : y (.start w) with
  | ok value stop =>
      rw [hy] at hopenings
      have hnew : stop.openings = new := hopenings
      rw [hnew]
      cases new.find? fun opening => room < opening.depth <;> rfl
  | error diagnostic stop =>
      rw [hy] at hopenings
      have hnew : stop.openings = new := hopenings
      rw [hnew]
      cases new.find? fun opening => room < opening.depth <;> rfl

theorem Window.terminated_repeat_next (tokens : List Token) (position : Nat) :
    (Nat.repeat Window.next position (.ofTokens tokens)).Terminated := by
  induction position with
  | zero => exact Window.terminated_ofTokens tokens
  | succ position ih => exact ih.next

-- The limit on nesting makes no difference to a run that never has more expressions open than
-- there is room for. Any other run stops where it would first open one too many.
theorem Session.expr_eq_unguarded (tokens : List Token) (position depth spare : Nat)
    (limit : Precedence) :
    let w := Nat.repeat Window.next position (.ofTokens tokens)
    let session : Session := ⟨w, depth, .standard⟩
    let watched := (Grammar.standard.unguarded (w.length + spare) limit).run (.start w)
    session.expr limit =
      match watched.2.openings.find? fun opening => maxNesting - depth < opening.depth with
      | none => (watched.1, { session with window := watched.2.window })
      | some opening =>
        (.error ⟨.tooDeep maxNesting, opening.window.current⟩,
          { session with window := opening.window }) := by
  intro w session watched
  have hend : w.Terminated := Window.terminated_repeat_next tokens position
  have hagrees := Watched.agrees_unguarded Grammar.standard_prefixRule?_eof (maxNesting - depth)
    (w.length + spare) limit (.start w) hend (Nat.le_add_right _ _)
  exact session.run_of_agreesAt hagrees

end ScriptFront
