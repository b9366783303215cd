import ScriptFront.Proofs.Nesting.Watched

namespace ScriptFront

open Reader Parse

namespace Watched

variable {α β : Type}

-- Where a watched run ends, well or badly.
def finish (result : EStateM.Result Diagnostic Watch α) : Watch :=
  match result with
  | .ok _ stop => stop
  | .error _ stop => stop

-- What is left of a watched run when it is cut off at an opening, or not at all.
def cutOff (result : EStateM.Result Diagnostic Watch α) :
    Option Opening → EStateM.Result Diagnostic Window α
  | none =>
    match result with
    | .ok value stop => .ok value stop.window
    | .error diagnostic stop => .error diagnostic stop.window
  | some opening => .error ⟨.tooDeep maxNesting, opening.window.current⟩ opening.window

-- Guarded reading with room for so many more expressions does what watched reading does, except
-- that it is cut off at the first opening there is no room for.
def AgreesAt (room : Nat) (x : Parse α) (y : Watched α) (watch : Watch) : Prop :=
  ∃ new, watch.Extends new (finish (y watch)) ∧
    x watch.window = cutOff (y watch) (new.find? fun opening => watch.depth + room < opening.depth)

variable {room : Nat} {watch : Watch}

-- A step that opens nothing and does the same on both sides.
theorem AgreesAt.of_extends {x : Parse α} {y : Watched α}
    (hext : watch.Extends [] (finish (y watch))) (hrun : x watch.window = cutOff (y watch) none) :
    AgreesAt room x y watch :=
  ⟨[], hext, hrun⟩

theorem AgreesAt.pure (value : α) :
    AgreesAt room (Pure.pure value) (Pure.pure value) watch :=
  .of_extends (.refl watch) rfl

theorem AgreesAt.window : AgreesAt room (Reader.window : Parse Window) Reader.window watch :=
  .of_extends (.refl watch) rfl

theorem AgreesAt.blame (cause : Token → Cause) :
    AgreesAt room (Parse.blame cause : Parse α) (Parse.blame cause) watch :=
  .of_extends (.refl watch) rfl

theorem AgreesAt.advance : AgreesAt room (Reader.advance : Parse Unit) Reader.advance watch := by
  obtain ⟨tokens, hread⟩ := watch.window.reads_next
  exact .of_extends ⟨rfl, (List.append_nil _).symm, tokens, hread⟩ rfl

-- If the first part is cut off, the second part of the watched run does not matter. If it is not,
-- the two second parts start at the same window.
theorem AgreesAt.bind {x : Parse α} {y : Watched α} {f : α → Parse β} {g : α → Watched β}
    (h : AgreesAt room x y watch)
    (hf : ∀ value stop new, y watch = .ok value stop → watch.Extends new stop →
      AgreesAt room (f value) (g value) stop) :
    AgreesAt room (x >>= f) (y >>= g) watch := by
  obtain ⟨new, hext, hrun⟩ := h
  unfold AgreesAt
  rw [Parse.bind_apply, bind_apply, hrun]
  cases hy : y watch with
  | error diagnostic stop =>
      rw [hy] at hext
      refine ⟨new, hext, ?_⟩
      cases new.find? fun opening => watch.depth + room < opening.depth <;> rfl
  | ok value stop =>
      rw [hy] at hext
      obtain ⟨new', hext', hrun'⟩ := hf value stop new hy hext
      refine ⟨new ++ new', hext.trans hext', ?_⟩
      have hdepth : stop.depth = watch.depth := hext.depth
      rw [List.find?_append]
      cases new.find? fun opening => watch.depth + room < opening.depth with
      | some opening => rfl
      | none => simpa only [cutOff, Option.none_or, hdepth] using hrun'

theorem AgreesAt.expect (kind : TokenKind) :
    AgreesAt room (Parse.expect kind : Parse Unit) (Parse.expect kind) watch := by
  refine .bind (.bind .window fun _ _ _ _ _ => .pure _) fun token stop new hy hext => ?_
  split
  · exact .advance
  · exact .of_extends (.refl stop) rfl

theorem AgreesAt.integerLiteral :
    AgreesAt room (Parse.integerLiteral : Parse Expr) Parse.integerLiteral watch := by
  refine .bind (.bind .window fun _ _ _ _ _ => .pure _) fun token stop new hy hext => ?_
  cases Text.int64? token.literal with
  | none => exact .blame _
  | some value => exact .pure _

-- Agreement wherever a number of tokens or fewer are left.
def agreement (room bound : Nat) : Congruence Parse Watched :=
  .ofWindow
    (fun x y => ∀ watch : Watch, watch.window.Terminated → watch.window.length ≤ bound →
      AgreesAt room x y watch)
    (fun value _ _ _ => .pure value)
    (fun hx hf watch hend hlength => (hx watch hend hlength).bind fun value stop _ _ hext =>
      hf value stop (hext.terminated hend) (Nat.le_trans hext.length_le hlength))
    (fun _ _ _ => .window) (fun _ _ _ => .advance) (fun kind _ _ _ => .expect kind)
    (fun _ _ _ => .integerLiteral)

end Watched

end ScriptFront
