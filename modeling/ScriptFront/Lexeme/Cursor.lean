namespace ScriptFront

-- A place in a source, counted in bytes of its UTF-8 form. It may lie behind the end, or
-- inside a character.
structure SourceCursor where
  source : String
  offset : Nat

namespace SourceCursor

def start (source : String) : SourceCursor :=
  ⟨source, 0⟩

def advance (cursor : SourceCursor) (bytes : Nat) : SourceCursor :=
  ⟨cursor.source, cursor.offset + bytes⟩

-- Also true behind the end.
def atEnd (cursor : SourceCursor) : Bool :=
  cursor.source.utf8ByteSize ≤ cursor.offset

-- The characters behind a number of bytes, if a character starts or the text ends there.
def dropBytes? : Nat → List Char → Option (List Char)
  | 0, text => some text
  | _ + 1, [] => none
  | bytes + 1, c :: text =>
    if c.utf8Size ≤ bytes + 1 then dropBytes? (bytes + 1 - c.utf8Size) text else none

-- What is left of the source, if the place is one where it can be cut.
def remainder? (cursor : SourceCursor) : Option String :=
  (dropBytes? cursor.offset cursor.source.toList).map String.ofList

end SourceCursor

end ScriptFront
