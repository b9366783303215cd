import ScriptFront.Text.Integer
import ScriptFront.Text.Dump

namespace ScriptFront

-- What a hash files a value under. Keys of different types are never equal.
inductive HashKey where
  | integer (value : Int64)
  | boolean (value : Bool)
  | string (value : String)
deriving DecidableEq, Repr

namespace HashKey

-- Integers come first, then booleans, then strings; within a type the values decide: by number,
-- false before true, by code points.
def order : HashKey → HashKey → Ordering
  | .integer a, .integer b => compare a b
  | .integer _, _ => .lt
  | .boolean _, .integer _ => .gt
  | .boolean a, .boolean b => compare a b
  | .boolean _, .string _ => .lt
  | .string a, .string b => compare a b
  | .string _, _ => .gt

instance : Ord HashKey := ⟨order⟩

def dump : HashKey → Text.Dump
  | .integer value => .wrapped "Integer" (.atom (Text.ofInt64 value))
  | .boolean value => .wrapped "Boolean" (.ofBool value)
  | .string value => .wrapped "String" (.ofText value)

end HashKey

end ScriptFront
