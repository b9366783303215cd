import ScriptFront.Value

namespace ScriptFront

-- The entries of a hash value, in the order of their hash keys.
abbrev HashTable := OrderedMap HashKey HashEntry

namespace HashTable

-- Files one pair after another, so that of pairs with equal keys the last one stays. Stops at the
-- first key that cannot be one, naming its type.
def ofPairs (pairs : List (Handle × Handle)) : Except ValueType HashTable :=
  pairs.foldlM
    (fun table (key, value) =>
      match key.hashKey? with
      | some hashKey => .ok (table.insert hashKey ⟨key, value⟩)
      | none => .error key.type)
    OrderedMap.empty

def get? (table : HashTable) (key : Handle) : Option Handle := do
  let hashKey ← key.hashKey?
  let entry ← table.find? hashKey
  return entry.value

end HashTable

end ScriptFront
