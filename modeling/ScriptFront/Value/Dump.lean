import ScriptFront.Tree.Dump
import ScriptFront.Value

namespace ScriptFront

open Text (Dump)

mutual

-- A function does not show its scope, which may hold the function again.
def Value.dump : Value → Dump
  | .integer value => .record "Integer" [("value", .atom (Text.ofInt64 value))]
  | .boolean value => .record "Boolean" [("value", .ofBool value)]
  | .string value => .record "StringObj" [("value", .ofText value)]
  | .null => .record "Null" []
  | .returned inner => .record "ReturnValue" [("value", inner.dump)]
  | .error message => .record "ErrorObj" [("message", .ofText message)]
  | .function parameters body _ =>
    .partialRecord "Function"
      [("parameters", .sequence (parameters.map Ident.dump)), ("body", body.dump)]
  | .array elements => .record "Array" [("elements", .sequence (dumpHandles elements))]
  | .hash ⟨entries⟩ => .record "Hash" [("pairs", .map (dumpEntries entries))]

def Handle.dump : Handle → Dump
  | ⟨_, value⟩ => .wrapped "ObjectWrapper" value.dump

def dumpHandles : List Handle → List Dump
  | [] => []
  | handle :: handles => handle.dump :: dumpHandles handles

def dumpEntries : List (HashKey × HashEntry) → List (Dump × Dump)
  | [] => []
  | (hashKey, ⟨key, value⟩) :: entries =>
    (hashKey.dump, .record "HashPair" [("key", key.dump), ("value", value.dump)]) ::
      dumpEntries entries

end

end ScriptFront
