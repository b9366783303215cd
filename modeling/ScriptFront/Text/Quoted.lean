import ScriptFront.Text.DefaultIgnorable
import ScriptFront.Text.GraphemeExtend
import ScriptFront.Text.Unprintable

namespace ScriptFront.Text

-- A code point by number, in lower-case hexadecimal without leading zeros.
def codePointEscape (c : Char) : List Char :=
  "\\u\x7b".toList ++ Nat.toDigits 16 c.toNat ++ "\x7d".toList

-- The characters with nothing to see.
def isInvisible (c : Char) : Bool :=
  isUnprintable c || isDefaultIgnorable c

-- The halfwidth voiced and semi-voiced sound marks. They are letters and take up a place of their
-- own, alone among the characters with Grapheme_Extend.
def isSoundMark (c : Char) : Bool :=
  c = '\uFF9E' || c = '\uFF9F'

-- The characters that would be drawn onto the one before them.
def joinsPrevious (c : Char) : Bool :=
  isGraphemeExtend c && !isSoundMark c

-- How one character stands inside quotes. An apostrophe needs no escape; a character that
-- shows nothing of its own, or that would join its neighbour, is given by its code point.
def escapeChar (c : Char) : List Char :=
  if c = '\x00' then ['\\', '0']
  else if c = '\t' then ['\\', 't']
  else if c = '\r' then ['\\', 'r']
  else if c = '\n' then ['\\', 'n']
  else if c = '"' then ['\\', '"']
  else if c = '\\' then ['\\', '\\']
  else if joinsPrevious c || isInvisible c then codePointEscape c
  else [c]

-- A text between double quotes, on one line and with every character visible.
def quoted (text : String) : String :=
  "\"" ++ String.ofList (text.toList.flatMap escapeChar) ++ "\""

end ScriptFront.Text
