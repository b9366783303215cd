namespace ScriptFront.Text

-- A property of characters, given as inclusive ranges of code points.
abbrev Ranges := List (Nat × Nat)

namespace Ranges

-- Whether some range holds the character's code point.
def covers (ranges : Ranges) (c : Char) : Bool :=
  ranges.any fun (first, last) => first ≤ c.toNat && c.toNat ≤ last

-- Each range is well formed and ends before the next one starts with a gap between them,
-- so no range can be dropped and no two can be merged.
def separated : Ranges → Bool
  | [] => true
  | [(first, last)] => first ≤ last
  | (first, last) :: (next, stop) :: rest =>
    first ≤ last && last + 1 < next && separated ((next, stop) :: rest)

end Ranges

end ScriptFront.Text
