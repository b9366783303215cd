import ScriptFront.Proofs.Machine.Basic

namespace ScriptFront

open Reader Parse

namespace Machine

-- What a session sees of a machine.
def window (machine : Machine) : Window :=
  ⟨machine.tokens.getD machine.position .eof, machine.tokens.drop (machine.position + 1)⟩

def session (machine : Machine) : Session :=
  ⟨machine.window, machine.depth, machine.grammar⟩

def moveTo (machine : Machine) (position : Nat) : Machine :=
  { machine with position := position }

-- What every step keeps: the index is in range, the last token is an end of input, and no more
-- expressions are open than may be.
structure Valid (machine : Machine) : Prop where
  position_lt : machine.position < machine.tokens.length
  terminated : (machine.tokens.getLastD .eof).kind = .eof
  depth_le : machine.depth ≤ maxNesting

variable {machine : Machine}

theorem Valid.moveTo (h : machine.Valid) {position : Nat}
    (hposition : position < machine.tokens.length) : (machine.moveTo position).Valid :=
  ⟨hposition, h.terminated, h.depth_le⟩

theorem toList_window (h : machine.position < machine.tokens.length) :
    machine.window.toList = machine.tokens.drop machine.position := by
  rw [List.drop_eq_getElem_cons h]
  simp only [window, Window.toList, List.getD_eq_getElem?_getD, List.getElem?_eq_getElem h,
    Option.getD_some]

theorem Valid.terminated_window (h : machine.Valid) : machine.window.Terminated := by
  have hlast : machine.window.toList.getLastD .eof = machine.tokens.getLastD .eof := by
    rw [toList_window h.position_lt, List.getLastD_eq_getLast?, List.getLastD_eq_getLast?,
      List.getLast?_drop, if_neg (Nat.not_le.mpr h.position_lt)]
  rw [Window.toList, List.getLastD_cons] at hlast
  unfold Window.Terminated
  rw [hlast]
  exact h.terminated

theorem getElem?_current (h : machine.position < machine.tokens.length) :
    machine.tokens[machine.position]? = some machine.window.current := by
  simp only [window, List.getD_eq_getElem?_getD, List.getElem?_eq_getElem h, Option.getD_some]

-- The next token is the one at the next index, or at the last one.
theorem getElem?_peek (h : machine.position < machine.tokens.length) :
    machine.tokens[min (machine.position + 1) (machine.tokens.length - 1)]? =
      some machine.window.peek := by
  unfold Window.peek
  by_cases hnext : machine.position + 1 < machine.tokens.length
  · rw [Nat.min_eq_left (by omega), List.getElem?_eq_getElem hnext]
    simp only [window, List.drop_eq_getElem_cons hnext, List.headD_cons]
  · have hlast : machine.tokens.length - 1 = machine.position := by omega
    rw [Nat.min_eq_right (by omega), hlast, getElem?_current h]
    simp only [window, List.drop_eq_nil_of_le (Nat.not_lt.mp hnext), List.headD_nil]

-- Moving on in the window is moving to the next index, if there is one.
theorem window_moveTo_succ (h : machine.position + 1 < machine.tokens.length) :
    (machine.moveTo (machine.position + 1)).window = machine.window.next := by
  simp only [window, moveTo, Window.next, List.drop_eq_getElem_cons h, List.getD_eq_getElem?_getD,
    List.getElem?_eq_getElem h, Option.getD_some]

theorem next_window (h : ¬machine.position + 1 < machine.tokens.length) :
    machine.window.next = machine.window := by
  simp only [window, Window.next, List.drop_eq_nil_of_le (Nat.not_lt.mp h)]

-- A machine with so many expressions open and such rules.
structure At (depth : Nat) (grammar : Grammar) (machine : Machine) : Prop
    extends machine.Valid where
  depth_eq : machine.depth = depth
  grammar_eq : machine.grammar = grammar

theorem At.moveTo {depth : Nat} {grammar : Grammar} (h : At depth grammar machine) {position : Nat}
    (hposition : position < machine.tokens.length) :
    At depth grammar (machine.moveTo position) :=
  ⟨h.toValid.moveTo hposition, h.depth_eq, h.grammar_eq⟩

end Machine

namespace Indexed

variable {α β : Type} {machine : Machine}

theorem bind_apply (x : Indexed α) (f : α → Indexed β) (machine : Machine) :
    (x >>= f) machine =
      match x machine with
      | .ok value stop => f value stop
      | .error halt stop => .error halt stop := by
  simp only [bind, EStateM.bind]
  cases x machine <;> rfl

theorem window_apply (h : machine.position < machine.tokens.length) :
    (Reader.window : Indexed Window) machine = .ok machine.window machine := by
  have hcurrent := Machine.getElem?_current h
  simp only [Reader.window, hcurrent]
  rfl

-- What a run comes to, ended in a machine.
def outcome (result : EStateM.Result Diagnostic Window α) (stop : Machine) :
    EStateM.Result Halt Machine α :=
  match result with
  | .ok value _ => .ok value stop
  | .error diagnostic _ => .error (.diagnostic diagnostic) stop

-- The machine does what is done with the window it shows. All that is different afterwards is the
-- index, and that has not gone back.
def Simulates (x : Parse α) (y : Indexed α) (machine : Machine) : Prop :=
  ∃ position, machine.position ≤ position ∧ position < machine.tokens.length ∧
    (machine.moveTo position).window = x.stop machine.window ∧
    y machine = outcome (x machine.window) (machine.moveTo position)

namespace Simulates

-- A piece that stays where it is.
theorem of_stays {x : Parse α} {y : Indexed α} (h : machine.position < machine.tokens.length)
    (hstop : x.stop machine.window = machine.window)
    (hrun : y machine = outcome (x machine.window) machine) : Simulates x y machine :=
  ⟨machine.position, Nat.le_refl _, h, hstop.symm, hrun⟩

theorem window (h : machine.position < machine.tokens.length) :
    Simulates Reader.window Reader.window machine :=
  .of_stays h rfl (window_apply h)

theorem advance (h : machine.position < machine.tokens.length) :
    Simulates Reader.advance Reader.advance machine := by
  by_cases hnext : machine.position + 1 < machine.tokens.length
  · refine ⟨machine.position + 1, Nat.le_succ _, hnext, Machine.window_moveTo_succ hnext, ?_⟩
    exact if_pos hnext
  · exact .of_stays h (Machine.next_window hnext) (if_neg hnext)

theorem bind {x : Parse α} {y : Indexed α} {f : α → Parse β} {g : α → Indexed β}
    (h : Simulates x y machine)
    (hf : ∀ value position, position < machine.tokens.length →
      Simulates (f value) (g value) (machine.moveTo position)) :
    Simulates (x >>= f) (y >>= g) machine := by
  obtain ⟨position, hle, hlt, hstop, hrun⟩ := h
  unfold Simulates
  unfold Parse.stop at hstop ⊢
  rw [Parse.bind_apply, bind_apply, hrun]
  cases hx : x machine.window with
  | error diagnostic between =>
      simp only [hx] at hstop
      exact ⟨position, hle, hlt, hstop, rfl⟩
  | ok value between =>
      simp only [hx] at hstop
      obtain ⟨position', hle', hlt', hstop', hrun'⟩ := hf value position hlt
      unfold Parse.stop at hstop'
      rw [hstop] at hstop' hrun'
      exact ⟨position', Nat.le_trans hle hle', hlt', hstop', hrun'⟩

theorem blame (h : machine.position < machine.tokens.length) (cause : Token → Cause) :
    Simulates (Parse.blame cause : Parse α) (Parse.blame cause) machine :=
  .bind (.bind (.window h) fun _ _ hlt => .of_stays hlt rfl rfl) fun _ _ hlt =>
    .of_stays hlt rfl rfl

theorem expect (h : machine.position < machine.tokens.length) (kind : TokenKind) :
    Simulates (Parse.expect kind) (Parse.expect kind) machine := by
  refine .bind (.bind (.window h) fun _ _ hlt => .of_stays hlt rfl rfl) fun token _ hlt => ?_
  split
  · exact .advance hlt
  · exact .of_stays hlt rfl rfl

theorem integerLiteral (h : machine.position < machine.tokens.length) :
    Simulates Parse.integerLiteral Parse.integerLiteral machine := by
  refine .bind (.bind (.window h) fun _ _ hlt => .of_stays hlt rfl rfl) fun token _ hlt => ?_
  cases Text.int64? token.literal with
  | none => exact .blame hlt _
  | some value => exact .of_stays hlt rfl rfl

end Simulates

-- Simulation from every machine with so many expressions open and such rules.
def simulation (depth : Nat) (grammar : Grammar) : Congruence Parse Indexed :=
  .ofWindow (fun x y => ∀ machine : Machine, machine.At depth grammar → Simulates x y machine)
    (fun _ _ h => .of_stays h.position_lt rfl rfl)
    (fun hx hf machine h => (hx machine h).bind fun value _ hlt => hf value _ (h.moveTo hlt))
    (fun _ h => .window h.position_lt) (fun _ h => .advance h.position_lt)
    (fun kind _ h => .expect h.position_lt kind) (fun _ h => .integerLiteral h.position_lt)

theorem enter_of_lt (h : machine.depth < maxNesting) :
    enter machine = .ok () { machine with depth := machine.depth + 1 } := by
  have hif : ¬maxNesting ≤ machine.depth := Nat.not_le.mpr h
  unfold enter
  rw [bind_apply]
  change (if maxNesting ≤ machine.depth then _ else _ : Indexed Unit) machine = _
  rw [if_neg hif]
  rfl

theorem enter_of_le (h : machine.position < machine.tokens.length)
    (hfull : maxNesting ≤ machine.depth) :
    enter machine =
      .error (.diagnostic ⟨.tooDeep maxNesting, machine.window.current⟩) machine := by
  unfold enter
  rw [bind_apply]
  change (if maxNesting ≤ machine.depth then _ else _ : Indexed Unit) machine = _
  rw [if_pos hfull, Parse.blame, bind_apply, Parse.current, bind_apply, window_apply h]
  rfl

-- What is let in and out again is simulated if it is with one more expression open.
theorem Simulates.opened {x : Parse α} {y : Indexed α} (hroom : machine.depth < maxNesting)
    (h : Simulates x y { machine with depth := machine.depth + 1 }) :
    Simulates x (opened y) machine := by
  obtain ⟨position, hle, hlt, hstop, hrun⟩ := h
  refine ⟨position, hle, hlt, hstop, ?_⟩
  unfold Indexed.opened
  rw [bind_apply, enter_of_lt hroom]
  change closing y { machine with depth := machine.depth + 1 } = _
  -- closing takes back what opening has added
  unfold closing
  rw [hrun]
  change _ = outcome (x (Machine.window { machine with depth := machine.depth + 1 })) _
  cases x (Machine.window { machine with depth := machine.depth + 1 }) <;> rfl

-- Without room for one more, nothing is let in.
theorem Simulates.opened_full {y : Indexed α} (h : machine.position < machine.tokens.length)
    (hfull : maxNesting ≤ machine.depth) :
    Simulates (Parse.blame fun _ => .tooDeep maxNesting) (Indexed.opened y) machine := by
  refine .of_stays h rfl ?_
  unfold Indexed.opened
  rw [bind_apply, enter_of_le h hfull]
  rfl

theorem Simulates.withGrammar {x : Parse α} {y : Grammar → Indexed α}
    (h : Simulates x (y machine.grammar) machine) : Simulates x (withGrammar y) machine := h

variable {depth levels fuel : Nat} {grammar : Grammar}

-- Every expression inside another one takes one of the levels that are left, and one of the fuel.
theorem simulates_expr (hlevels : depth + levels = maxNesting) (hfuel : levels ≤ fuel)
    (limit : Precedence) :
    (simulation depth grammar).rel (grammar.expr levels limit) (expr fuel limit) := by
  induction levels generalizing depth fuel limit with
  | zero =>
      intro machine h
      have hfull : maxNesting ≤ machine.depth := by
        have hdepth := h.depth_eq
        omega
      cases fuel <;> exact .opened_full h.position_lt hfull
  | succ levels ih =>
      intro machine h
      cases fuel with
      | zero => exact absurd hfuel (Nat.not_succ_le_zero _)
      | succ fuel =>
          have hroom : machine.depth < maxNesting := by
            have hdepth := h.depth_eq
            omega
          let R := simulation (depth + 1) grammar
          have hparts : R.RelParts (grammar.partsAt levels) (grammar.parts (expr fuel)) :=
            R.relParts grammar (fun _ h => .window h.position_lt) (ih (by omega) (by omega))
          have hnested : R.rel _ _ :=
            hparts.nested grammar limit fun _ h => .blame h.position_lt _
          have hinside := hnested { machine with depth := machine.depth + 1 }
            ⟨⟨h.position_lt, h.terminated, hroom⟩, congrArg (· + 1) h.depth_eq, h.grammar_eq⟩
          obtain ⟨-, -, rfl⟩ := h
          exact .opened hroom (.withGrammar hinside)

end Indexed

end ScriptFront
