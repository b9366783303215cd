import ScriptFront.Diagnostic
import ScriptFront.Lexeme.Pattern

namespace ScriptFront

-- A piece of a source and the pattern it was read by.
structure Lexeme where
  pattern : Pattern
  text : List Char
deriving DecidableEq, Repr

namespace Lexeme

def token? (lexeme : Lexeme) : Option Token :=
  lexeme.pattern.token? lexeme.text

-- The lexeme at the front of the input by the first pattern that fits, and the rest.
def first? (input : List Char) : Option (Lexeme × List Char) :=
  Pattern.all.findSome? fun pattern =>
    (pattern.split? input).map fun (text, rest) => (⟨pattern, text⟩, rest)

theorem split?_of_first? {input rest : List Char} {lexeme : Lexeme}
    (h : first? input = some (lexeme, rest)) :
    lexeme.pattern.split? input = some (lexeme.text, rest) := by
  obtain ⟨pattern, _, hmap⟩ := List.exists_of_findSome?_eq_some h
  obtain ⟨⟨text, after⟩, hsplit, heq⟩ := Option.map_eq_some_iff.1 hmap
  obtain ⟨rfl, rfl⟩ := Prod.mk.inj heq
  exact hsplit

theorem first?_length_lt {input rest : List Char} {lexeme : Lexeme}
    (h : first? input = some (lexeme, rest)) : rest.length < input.length :=
  Pattern.split?_length_lt (split?_of_first? h)

-- The blame for a character that no pattern fits.
def unrecognised (c : Char) : Diagnostic :=
  ⟨.unrecognised (String.singleton c), ⟨.illegal, String.singleton c⟩⟩

-- Cuts the whole input into lexemes.
def ofChars (input : List Char) : Except Diagnostic (List Lexeme) :=
  match input with
  | [] => .ok []
  | c :: tail =>
    match _h : first? (c :: tail) with
    | none => .error (unrecognised c)
    | some (lexeme, rest) => do
      let lexemes ← ofChars rest
      return lexeme :: lexemes
termination_by input.length
decreasing_by exact first?_length_lt (by assumption)

theorem ofChars_nil : ofChars [] = .ok [] := by
  rw [ofChars]

theorem ofChars_of_first?_eq_none {c : Char} {tail : List Char} (h : first? (c :: tail) = none) :
    ofChars (c :: tail) = .error (unrecognised c) := by
  rw [ofChars]
  split
  · rfl
  · simp_all

theorem ofChars_of_first?_eq_some {input rest : List Char} {lexeme : Lexeme}
    (h : first? input = some (lexeme, rest)) :
    ofChars input = (ofChars rest).map (lexeme :: ·) := by
  cases input with
  | nil => simp [first?, Pattern.all, Pattern.split?, Pattern.run?, Pattern.fixed?,
      TokenKind.spelling] at h
  | cons c tail =>
    rw [ofChars]
    split
    · simp_all
    · rename_i found
      rw [h] at found
      obtain ⟨rfl, rfl⟩ := Prod.mk.inj (Option.some.inj found)
      rfl

end Lexeme

-- The tokens of a source, closed by the end-of-input token, or the blame for the first
-- character that cannot be read.
def tokenize (source : String) : Except Diagnostic (List Token) := do
  let lexemes ← Lexeme.ofChars source.toList
  return lexemes.filterMap Lexeme.token? ++ [Token.eof]

end ScriptFront
