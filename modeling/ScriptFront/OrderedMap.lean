namespace ScriptFront

-- Entries in increasing order of their keys, each key once.
structure OrderedMap (κ α : Type) where
  entries : List (κ × α)

namespace OrderedMap

def empty : OrderedMap κ α := ⟨[]⟩

variable [Ord κ]

def insertEntry (key : κ) (value : α) : List (κ × α) → List (κ × α)
  | [] => [(key, value)]
  | (first, old) :: rest =>
    match compare key first with
    | .lt => (key, value) :: (first, old) :: rest
    | .eq => (key, value) :: rest
    | .gt => (first, old) :: insertEntry key value rest

-- Puts an entry in its place. An entry under the same key is replaced.
def insert (map : OrderedMap κ α) (key : κ) (value : α) : OrderedMap κ α :=
  ⟨insertEntry key value map.entries⟩

def find? (map : OrderedMap κ α) (key : κ) : Option α :=
  (map.entries.find? fun entry => compare key entry.1 == .eq).map Prod.snd

def size (map : OrderedMap κ α) : Nat :=
  map.entries.length

def isEmpty (map : OrderedMap κ α) : Bool :=
  map.entries.isEmpty

def keys (map : OrderedMap κ α) : List κ :=
  map.entries.map Prod.fst

def values (map : OrderedMap κ α) : List α :=
  map.entries.map Prod.snd

end OrderedMap

end ScriptFront
