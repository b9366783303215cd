import ScriptFront.Scope

namespace ScriptFront.Scopes

-- What can happen to scopes.
inductive Event where
  -- a scope is made, inside another one or on its own
  | create (outer : Option ScopeId)
  | bind (scope : ScopeId) (name : String) (handle : Handle)

-- What has happened to scopes so far, the earliest first. It says what every name stands for
-- without a word on how names are kept.
abbrev History := List Event

-- The scopes that are there after a history. Nothing happens to a scope before it is made.
inductive Run : History → Scopes → Prop where
  | empty : Run [] .empty
  | create {history : History} {store : Scopes} (h : Run history store) {outer : Option ScopeId}
      (houter : ∀ scope ∈ outer, scope < store.scopes.size) :
      Run (history ++ [.create outer]) (store.create outer).2
  | bind {history : History} {store : Scopes} (h : Run history store) {scope : ScopeId}
      (hscope : scope < store.scopes.size) (name : String) (handle : Handle) :
      Run (history ++ [.bind scope name handle]) (store.bind scope name handle)

namespace History

-- What each scope was made inside, in the order in which they were made.
def outers (history : History) : List (Option ScopeId) :=
  history.filterMap fun
    | .create outer => some outer
    | .bind _ _ _ => none

def Encloses (history : History) (outer scope : ScopeId) : Prop :=
  history.outers[scope]? = some (some outer)

-- A scope, the scope it was made inside, and so on up to one that was made on its own.
inductive Chain (history : History) : ScopeId → List ScopeId → Prop where
  | outermost {scope : ScopeId} (h : history.outers[scope]? = some none) :
      Chain history scope [scope]
  | inside {outer scope : ScopeId} {chain : List ScopeId} (h : history.Encloses outer scope)
      (hrest : Chain history outer chain) : Chain history scope (scope :: chain)

-- The name was bound in the scope at some time.
def Binds (history : History) (scope : ScopeId) (name : String) : Prop :=
  ∃ handle, .bind scope name handle ∈ history

-- The handle is the last one that was bound to the name in the scope.
def Latest (history : History) (scope : ScopeId) (name : String) (handle : Handle) : Prop :=
  ∃ earlier later, history = earlier ++ .bind scope name handle :: later ∧
    ∀ other, .bind scope name other ∉ later

-- Of the scopes of a chain, this is the first one that the name was bound in.
def Nearest (history : History) (chain : List ScopeId) (name : String) (binder : ScopeId) : Prop :=
  ∃ nearer farther, chain = nearer ++ binder :: farther ∧ history.Binds binder name ∧
    ∀ scope ∈ nearer, ¬history.Binds scope name

-- What an event binds to the name in the scope.
def bound? (scope : ScopeId) (name : String) : Event → Option Handle
  | .create _ => none
  | .bind scope' name' handle => if scope = scope' ∧ name = name' then some handle else none

def latest? (history : History) (scope : ScopeId) (name : String) : Option Handle :=
  history.reverse.findSome? (bound? scope name)

variable {history : History} {scope scope' : ScopeId} {name name' : String} {handle : Handle}
  {outer : Option ScopeId}

theorem bound?_eq_some {event : Event} :
    bound? scope name event = some handle ↔ event = .bind scope name handle := by
  cases event with
  | create outer => simp [bound?]
  | bind scope' name' handle' =>
      simp only [bound?, Option.ite_none_right_eq_some, Option.some.injEq, Event.bind.injEq]
      constructor
      · rintro ⟨⟨rfl, rfl⟩, rfl⟩
        exact ⟨rfl, rfl, rfl⟩
      · rintro ⟨rfl, rfl, rfl⟩
        exact ⟨⟨rfl, rfl⟩, rfl⟩

theorem bound?_eq_none {event : Event} :
    bound? scope name event = none ↔ ∀ handle, event ≠ .bind scope name handle := by
  simp only [Option.eq_none_iff_forall_ne_some, ne_eq, bound?_eq_some]

theorem latest?_eq_none_iff : history.latest? scope name = none ↔ ¬history.Binds scope name := by
  simp only [latest?, List.findSome?_eq_none_iff, List.mem_reverse, bound?_eq_none, Binds,
    not_exists]
  exact ⟨fun h handle hmem => h _ hmem handle rfl,
    fun h event hmem handle heq => h handle (heq ▸ hmem)⟩

theorem latest?_eq_some_iff :
    history.latest? scope name = some handle ↔ history.Latest scope name handle := by
  simp only [latest?, List.findSome?_eq_some_iff, bound?_eq_some, bound?_eq_none]
  constructor
  · rintro ⟨later, _, earlier, hreverse, rfl, hlater⟩
    refine ⟨earlier.reverse, later.reverse, ?_, fun other hmem => ?_⟩
    · rw [List.reverse_eq_iff] at hreverse
      simpa using hreverse
    · exact hlater _ (List.mem_reverse.mp hmem) other rfl
  · rintro ⟨earlier, later, rfl, hlater⟩
    refine ⟨later.reverse, _, earlier.reverse, by simp, rfl, fun event hmem other heq => ?_⟩
    exact hlater other (heq ▸ List.mem_reverse.mp hmem)

theorem latest?_concat (event : Event) :
    History.latest? (history ++ [event]) scope name =
      (bound? scope name event).or (history.latest? scope name) := by
  simp only [latest?, List.reverse_append, List.reverse_singleton, List.singleton_append,
    List.findSome?_cons]
  cases bound? scope name event <;> rfl

theorem Latest.binds (h : history.Latest scope name handle) : history.Binds scope name := by
  obtain ⟨earlier, later, rfl, -⟩ := h
  exact ⟨handle, by simp⟩

theorem outers_concat_create :
    History.outers (history ++ [.create outer]) = history.outers ++ [outer] := by
  simp [outers]

theorem outers_concat_bind :
    History.outers (history ++ [.bind scope name handle]) = history.outers := by
  simp [outers]

theorem binds_concat {event : Event} :
    History.Binds (history ++ [event]) scope name ↔
      history.Binds scope name ∨ ∃ handle, event = .bind scope name handle := by
  simp only [Binds, List.mem_append, List.mem_singleton, exists_or, eq_comm]

theorem latest_concat_self :
    History.Latest (history ++ [.bind scope name handle]) scope name handle :=
  ⟨history, [], rfl, by simp⟩

-- Binding a name in a scope changes what was bound last for that name and that scope only.
theorem Latest.of_concat_bind {handle' : Handle}
    (h : History.Latest (history ++ [.bind scope name handle]) scope' name' handle')
    (hne : ¬(scope' = scope ∧ name' = name)) : history.Latest scope' name' handle' := by
  rw [← latest?_eq_some_iff, latest?_concat, bound?, if_neg hne, Option.none_or] at h
  exact latest?_eq_some_iff.mp h

-- Binding a name in a scope leaves the chains as they are.
theorem Chain.concat_bind {chain : List ScopeId} (h : history.Chain scope chain) :
    History.Chain (history ++ [.bind scope' name handle]) scope chain := by
  induction h with
  | outermost h => exact .outermost (by rw [outers_concat_bind, h])
  | inside h _ ih =>
      refine .inside ?_ ih
      unfold Encloses
      rw [outers_concat_bind]
      exact h

section Nearest

variable {chain : List ScopeId}

-- Going along a chain comes to the last handle of the nearest scope.
theorem findSome?_latest?_eq_some_iff :
    chain.findSome? (fun scope => history.latest? scope name) = some handle ↔
      ∃ binder, history.Nearest chain name binder ∧ history.Latest binder name handle := by
  simp only [List.findSome?_eq_some_iff, latest?_eq_some_iff, latest?_eq_none_iff, Nearest]
  constructor
  · rintro ⟨nearer, binder, farther, hchain, hlatest, hnearer⟩
    exact ⟨binder, ⟨nearer, farther, hchain, hlatest.binds, hnearer⟩, hlatest⟩
  · rintro ⟨binder, ⟨nearer, farther, hchain, -, hnearer⟩, hlatest⟩
    exact ⟨nearer, binder, farther, hchain, hlatest, hnearer⟩

theorem findSome?_latest?_eq_none_iff :
    chain.findSome? (fun scope => history.latest? scope name) = none ↔
      ∀ scope ∈ chain, ¬history.Binds scope name := by
  simp only [List.findSome?_eq_none_iff, latest?_eq_none_iff]

end Nearest

end History

end ScriptFront.Scopes
