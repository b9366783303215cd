import ScriptFront.Text.Quoted

namespace ScriptFront.Text

-- The shape of a structural dump: named records and wrappers, sequences, pairs and maps over
-- atoms that are shown as they are.
inductive Dump where
  | atom (text : String)
  | wrapped (name : String) (inner : Dump)
  | record (name : String) (fields : List (String × Dump))
  -- a record with parts that are not shown
  | partialRecord (name : String) (fields : List (String × Dump))
  | sequence (items : List Dump)
  | pair (first second : Dump)
  | map (entries : List (Dump × Dump))

namespace Dump

def ofText (s : String) : Dump := .atom (quoted s)

def ofBool (b : Bool) : Dump := .atom (if b then "true" else "false")

mutual

-- One line of text. A record without fields is its name alone.
def render : Dump → String
  | .atom text => text
  | .wrapped name inner => name ++ "(" ++ inner.render ++ ")"
  | .record name [] => name
  | .record name (field :: fields) =>
    name ++ " \x7b " ++ ", ".intercalate (renderFields (field :: fields)) ++ " \x7d"
  | .partialRecord name fields =>
    name ++ " \x7b " ++ ", ".intercalate (renderFields fields ++ [".."]) ++ " \x7d"
  | .sequence items => "[" ++ ", ".intercalate (renderItems items) ++ "]"
  | .pair first second => "(" ++ first.render ++ ", " ++ second.render ++ ")"
  | .map entries => "\x7b" ++ ", ".intercalate (renderEntries entries) ++ "\x7d"

def renderFields : List (String × Dump) → List String
  | [] => []
  | (name, value) :: fields => (name ++ ": " ++ value.render) :: renderFields fields

def renderItems : List Dump → List String
  | [] => []
  | item :: items => item.render :: renderItems items

def renderEntries : List (Dump × Dump) → List String
  | [] => []
  | (key, value) :: entries => (key.render ++ ": " ++ value.render) :: renderEntries entries

end

end Dump

end ScriptFront.Text
