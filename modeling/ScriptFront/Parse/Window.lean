import ScriptFront.Token

namespace ScriptFront

-- The part of a token list that is still to be read: the current token and those behind it.
-- Moving on only ever drops tokens from the front, so what a window holds is always the end of
-- the list it was opened on.
structure Window where
  current : Token
  upcoming : List Token
deriving DecidableEq, Repr

namespace Window

-- Opens a window on a token list. A list that does not end with an end-of-input token gets one;
-- the token may also stand earlier.
def ofTokens : List Token → Window
  | [] => ⟨.eof, []⟩
  | token :: tokens =>
    if (tokens.getLastD token).kind = .eof then ⟨token, tokens⟩ else ⟨token, tokens ++ [.eof]⟩

def toList (window : Window) : List Token :=
  window.current :: window.upcoming

-- How many tokens are left, the current one included.
def length (window : Window) : Nat :=
  window.upcoming.length + 1

-- The token behind the current one. The last token is its own successor.
def peek (window : Window) : Token :=
  window.upcoming.headD window.current

def peekIs (window : Window) (kind : TokenKind) : Bool :=
  window.peek.kind = kind

-- Moves on by one token, except from the last.
def next (window : Window) : Window :=
  match window.upcoming with
  | [] => window
  | token :: tokens => ⟨token, tokens⟩

theorem length_toList (window : Window) : window.toList.length = window.length := by
  simp [toList, length]

theorem length_pos (window : Window) : 0 < window.length := by
  simp [length]

theorem current_next (window : Window) : window.next.current = window.peek := by
  obtain ⟨current, upcoming⟩ := window
  cases upcoming <;> rfl

end Window

end ScriptFront
