import ScriptFront.OrderedMap
import ScriptFront.Tree.Render
import ScriptFront.Value.HashKey

namespace ScriptFront

inductive ValueType where
  | integer | boolean | string | null | returned | error | function | array | hash
deriving DecidableEq, Repr

-- The word that error messages and scripts see.
def ValueType.word : ValueType → String
  | .integer => "INTEGER"
  | .boolean => "BOOLEAN"
  | .string => "STRING"
  | .null => "NULL"
  | .returned => "RETURN_VALUE"
  | .error => "ERROR"
  | .function => "FUNCTION"
  | .array => "ARRAY"
  | .hash => "HASH"

-- Scopes are shared, so a value names the scope it holds instead of containing it.
abbrev ScopeId := Nat

mutual

-- A runtime value. Values never change; composite ones share their parts.
inductive Value where
  | integer (value : Int64)
  | boolean (value : Bool)
  | string (value : String)
  | null
  -- on its way out of a function body
  | returned (inner : Handle)
  | error (message : String)
  -- with the scope it was written in
  | function (parameters : List Ident) (body : Block) (scope : ScopeId)
  | array (elements : List Handle)
  | hash (table : OrderedMap HashKey HashEntry)

-- A value together with the stamp it was made under, which tells it from its equals.
structure Handle where
  stamp : Nat
  value : Value

-- An entry keeps the key it was filed with, which is more than its hash key.
structure HashEntry where
  key : Handle
  value : Handle

end

namespace Value

def type : Value → ValueType
  | .integer _ => .integer
  | .boolean _ => .boolean
  | .string _ => .string
  | .null => .null
  | .returned _ => .returned
  | .error _ => .error
  | .function _ _ _ => .function
  | .array _ => .array
  | .hash _ => .hash

-- Only integers, booleans and strings can be keys.
def hashKey? : Value → Option HashKey
  | .integer value => some (.integer value)
  | .boolean value => some (.boolean value)
  | .string value => some (.string value)
  | _ => none

end Value

namespace Handle

-- Whether two handles are of the very same value.
def same (a b : Handle) : Bool :=
  a.stamp == b.stamp

def type (handle : Handle) : ValueType :=
  handle.value.type

def hashKey? (handle : Handle) : Option HashKey :=
  handle.value.hashKey?

end Handle

-- Hands out stamps, each once.
structure Stamps where
  next : Nat

namespace Stamps

def fresh : Stamps := ⟨0⟩

def make (stamps : Stamps) (value : Value) : Handle × Stamps :=
  (⟨stamps.next, value⟩, ⟨stamps.next + 1⟩)

end Stamps

mutual

-- The text a script's user sees.
def Value.inspect : Value → String
  | .integer value => Text.ofInt64 value
  | .boolean value => if value then "true" else "false"
  | .string value => value
  | .null => "null"
  | .returned inner => inner.inspect
  | .error message => "ERROR: " ++ message
  | .function parameters body _ =>
    "fn(" ++ ", ".intercalate (parameters.map Ident.name) ++ ") \x7b\n" ++ body.render ++ "\n\x7d"
  | .array elements => "[" ++ ", ".intercalate (inspectAll elements) ++ "]"
  | .hash ⟨entries⟩ => "\x7b" ++ ", ".intercalate (inspectEntries entries) ++ "\x7d"

def Handle.inspect : Handle → String
  | ⟨_, value⟩ => value.inspect

def inspectAll : List Handle → List String
  | [] => []
  | handle :: handles => handle.inspect :: inspectAll handles

def inspectEntries : List (HashKey × HashEntry) → List String
  | [] => []
  | (_, ⟨key, value⟩) :: entries =>
    (key.inspect ++ ": " ++ value.inspect) :: inspectEntries entries

end

end ScriptFront
