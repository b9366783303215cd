import ScriptFront.Diagnostic
import ScriptFront.Parse.Window

namespace ScriptFront

-- What reading can do: look at the window, move it on by one token, and stop with a diagnostic.
-- Whatever reads is written in these terms alone, so it runs wherever they are given.
class Reader (m : Type → Type) extends Monad m where
  window : m Window
  advance : m Unit
  fail {α : Type} : Diagnostic → m α

-- A piece of reading: moves the window and gives a result, or stops with a diagnostic. The
-- window of a failure is the one the failure happened at.
abbrev Parse := EStateM Diagnostic Window

instance : Reader Parse where
  window := fun window => .ok window window
  advance := fun window => .ok () window.next
  fail := fun diagnostic window => .error diagnostic window

namespace Parse

open Reader

variable {m : Type → Type} [Reader m] {α : Type}

def current : m Token := return (← window).current

def peek : m Token := return (← window).peek

-- Stops at the current token.
def blame (cause : Token → Cause) : m α := do
  let token ← current
  fail ⟨cause token, token⟩

-- Moves on to the next token if it is of the kind asked for. If not, the token is blamed and the
-- window stays.
def expect (kind : TokenKind) : m Unit := do
  let token ← peek
  if token.kind = kind then advance else fail ⟨.unexpected kind token.kind, token⟩

-- Collects the results of a step as long as a look at the window says to go on. Each step is
-- paid for with one token of the budget.
def collect (goOn : Window → Bool) (step : m α) (budget : List Token) : m (List α) :=
  match budget with
  | [] => return []
  | _ :: budget => do
    if goOn (← window) then
      let first ← step
      let rest ← collect goOn step budget
      return first :: rest
    else return []

-- The tokens left are budget enough when each step that succeeds moves on by at least one.
def collectWhile (goOn : Window → Bool) (step : m α) : m (List α) := do
  collect goOn step (← window).toList

-- Feeds a value through a step as long as a look at the window says to go on.
def iterate (goOn : Window → Bool) (step : α → m α) (budget : List Token) (value : α) : m α :=
  match budget with
  | [] => return value
  | _ :: budget => do
    if goOn (← window) then
      let value ← step value
      iterate goOn step budget value
    else return value

-- The budget is that of `collectWhile`.
def iterateWhile (goOn : Window → Bool) (step : α → m α) (value : α) : m α := do
  iterate goOn step (← window).toList value

section Run

variable {β : Type} (first : Parse α) (second : α → Parse β) (w : Window)

theorem bind_apply :
    (first >>= second) w =
      match first w with
      | .ok value stop => second value stop
      | .error diagnostic stop => .error diagnostic stop := by
  simp only [bind, EStateM.bind]
  cases first w <;> rfl

@[simp] theorem pure_apply (value : α) : (pure value : Parse α) w = .ok value w := rfl

@[simp] theorem window_apply : (window : Parse Window) w = .ok w w := rfl

@[simp] theorem advance_apply : (advance : Parse Unit) w = .ok () w.next := rfl

@[simp] theorem current_apply : (current : Parse Token) w = .ok w.current w := rfl

@[simp] theorem peek_apply : (peek : Parse Token) w = .ok w.peek w := rfl

@[simp] theorem blame_apply (cause : Token → Cause) :
    (blame cause : Parse α) w = .error ⟨cause w.current, w.current⟩ w := rfl

theorem expect_apply (kind : TokenKind) :
    (expect kind : Parse Unit) w =
      if w.peek.kind = kind then .ok () w.next
      else .error ⟨.unexpected kind w.peek.kind, w.peek⟩ w := by
  simp only [expect, bind_apply, peek_apply]
  split <;> rfl

theorem bind_eq_ok {result : β} {stop : Window} :
    (first >>= second) w = .ok result stop ↔
      ∃ value between, first w = .ok value between ∧ second value between = .ok result stop := by
  rw [bind_apply]
  cases first w <;> simp [and_assoc]

end Run

end Parse

end ScriptFront
