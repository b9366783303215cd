import ScriptFront.Lexeme
import ScriptFront.Parse.Expression

namespace ScriptFront

open Parse

-- One try at reading a statement: where it began, what came of it, and where it stopped.
structure Attempt where
  start : Window
  result : Except Diagnostic Stmt
  stop : Window

namespace Attempt

def run (stmt : Parse Stmt) (start : Window) : Attempt :=
  match stmt start with
  | .ok statement stop => ⟨start, .ok statement, stop⟩
  | .error diagnostic stop => ⟨start, .error diagnostic, stop⟩

-- Where the next try begins. A semicolon right behind a failure belongs to the statement that
-- failed.
def resume (attempt : Attempt) : Window :=
  match attempt.result with
  | .ok _ => attempt.stop.next
  | .error _ =>
    if attempt.stop.peek.kind = .semicolon then attempt.stop.next.next else attempt.stop.next

def statement? (attempt : Attempt) : Option Stmt :=
  match attempt.result with
  | .ok statement => some statement
  | .error _ => none

def diagnostic? (attempt : Attempt) : Option Diagnostic :=
  match attempt.result with
  | .ok _ => none
  | .error diagnostic => some diagnostic

-- Tries one statement after another up to the end of input, each paid for with a token of the
-- budget.
def runAll (stmt : Parse Stmt) (budget : List Token) (window : Window) : List Attempt :=
  match budget with
  | [] => []
  | _ :: budget =>
    if window.current.kind = .eof then []
    else
      let attempt := run stmt window
      attempt :: runAll stmt budget attempt.resume

end Attempt

-- What came of reading a token list: the statements that could be read, and a diagnostic for each
-- try that failed, both in order. A program with diagnostics is not fit to run.
structure Report where
  program : Program
  diagnostics : List Diagnostic

namespace Report

def ofAttempts (attempts : List Attempt) : Report :=
  ⟨⟨attempts.filterMap Attempt.statement?⟩, attempts.filterMap Attempt.diagnostic?⟩

end Report

namespace Grammar

-- All tries at statements from a window on. Each try may move, so the tokens left are budget
-- enough.
def attempts (grammar : Grammar) (levels : Nat) (window : Window) : List Attempt :=
  Attempt.runAll (grammar.stmt (grammar.partsAt levels)) window.toList window

end Grammar

namespace Program

-- Reads the statements of a token list by the standard grammar.
def ofTokens (tokens : List Token) : Report :=
  .ofAttempts (Grammar.standard.attempts maxNesting (.ofTokens tokens))

-- Reads a source, unless it has a character that no token starts with.
def ofSource (source : String) : Except Diagnostic Report := do
  let tokens ← tokenize source
  return ofTokens tokens

end Program

end ScriptFront
