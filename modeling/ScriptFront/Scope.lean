import ScriptFront.Value

namespace ScriptFront

-- The names bound in one scope, and the scope around it.
structure Scope where
  names : OrderedMap String Handle
  outer : Option ScopeId

-- All scopes made so far. They are shared: a name bound later is seen by whoever holds the scope.
structure Scopes where
  scopes : Array Scope

namespace Scopes

def empty : Scopes := ⟨#[]⟩

-- Makes a scope, inside another one or on its own.
def create (store : Scopes) (outer : Option ScopeId) : ScopeId × Scopes :=
  (store.scopes.size, ⟨store.scopes.push ⟨.empty, outer⟩⟩)

-- Binds a name in the scope itself, whatever the scopes around it bind.
def bind (store : Scopes) (id : ScopeId) (name : String) (handle : Handle) : Scopes :=
  ⟨store.scopes.modify id fun scope => { scope with names := scope.names.insert name handle }⟩

-- Looks a name up in a scope, then in the scopes around it, one per step.
def resolve (store : Scopes) (name : String) (steps : Nat) (id : ScopeId) : Option Handle :=
  match steps with
  | 0 => none
  | steps + 1 =>
    match store.scopes[id]? with
    | none => none
    | some scope =>
      match scope.names.find? name with
      | some handle => some handle
      | none =>
        match scope.outer with
        | some outer => store.resolve name steps outer
        | none => none

-- A scope is made inside one that is there already, so no chain is longer than the store.
def lookup (store : Scopes) (id : ScopeId) (name : String) : Option Handle :=
  store.resolve name store.scopes.size id

end Scopes

-- Bound values may hold the scope again, so only the names are shown.
def Scope.dump (scope : Scope) : Text.Dump :=
  .record "Environment"
    [("names", .sequence (scope.names.keys.map Text.Dump.ofText)),
      ("enclosed", .ofBool scope.outer.isSome)]

end ScriptFront
