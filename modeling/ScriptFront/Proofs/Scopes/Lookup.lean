import ScriptFront.Proofs.Scopes.History
import ScriptFront.Proofs.Tables.Lookup

namespace ScriptFront.Scopes

open History

-- What looking a name up comes to, with no bound on the number of scopes on the way.
inductive Resolves (store : Scopes) (name : String) : ScopeId → Option Handle → Prop where
  | here {id : ScopeId} {scope : Scope} {handle : Handle} (hscope : store.scopes[id]? = some scope)
      (hfound : scope.names.find? name = some handle) : Resolves store name id (some handle)
  | nowhere {id : ScopeId} {scope : Scope} (hscope : store.scopes[id]? = some scope)
      (hfound : scope.names.find? name = none) (houter : scope.outer = none) :
      Resolves store name id none
  | outside {id outer : ScopeId} {scope : Scope} {answer : Option Handle}
      (hscope : store.scopes[id]? = some scope) (hfound : scope.names.find? name = none)
      (houter : scope.outer = some outer) (hrest : Resolves store name outer answer) :
      Resolves store name id answer

-- The second scope is right inside the first one.
def Encloses (store : Scopes) (outer id : ScopeId) : Prop :=
  ∃ scope, store.scopes[id]? = some scope ∧ scope.outer = some outer

-- The store holds what the history says, scope by scope. A scope is inside one that was made
-- before it.
structure Holds (store : Scopes) (history : History) : Prop where
  size : store.scopes.size = history.outers.length
  outer (id : ScopeId) : store.scopes[id]?.map Scope.outer = history.outers[id]?
  names {id : ScopeId} {scope : Scope} (hscope : store.scopes[id]? = some scope) (name : String) :
    scope.names.find? name = history.latest? id name
  outer_lt {outer id : ScopeId} (hencloses : history.Encloses outer id) : outer < id
  binder_lt {id : ScopeId} {name : String} (hbinds : history.Binds id name) :
    id < store.scopes.size

variable {history : History} {store : Scopes} {id : ScopeId} {name : String}

theorem size_bind (store : Scopes) (scope : ScopeId) (name : String) (handle : Handle) :
    (store.bind scope name handle).scopes.size = store.scopes.size :=
  Array.size_modify ..

theorem holds_empty : Holds .empty [] where
  size := rfl
  outer _ := rfl
  names h := by simp [empty] at h
  outer_lt h := by simp [History.Encloses, outers] at h
  binder_lt h := by simp [Binds] at h

theorem Holds.create (h : store.Holds history) {outer : Option ScopeId}
    (houter : ∀ scope ∈ outer, scope < store.scopes.size) :
    (store.create outer).2.Holds (history ++ [.create outer]) where
  size := by
    rw [outers_concat_create, List.length_append, ← h.size]
    simp [Scopes.create]
  outer id := by
    rw [outers_concat_create, List.getElem?_append, ← h.size]
    simp only [Scopes.create, Array.getElem?_push]
    by_cases hnew : id = store.scopes.size
    · simp [hnew]
    · rw [if_neg hnew, h.outer]
      by_cases hold : id < store.scopes.size
      · rw [if_pos hold]
      · rw [if_neg hold, List.getElem?_eq_none (h.size ▸ Nat.le_of_not_lt hold),
          List.getElem?_eq_none]
        exact Nat.sub_pos_of_lt (Nat.lt_of_le_of_ne (Nat.le_of_not_lt hold) (Ne.symm hnew))
  names := by
    intro id scope hscope name
    rw [latest?_concat]
    simp only [Scopes.create, Array.getElem?_push] at hscope
    by_cases hnew : id = store.scopes.size
    · -- nothing can have been bound in the new scope
      rw [if_pos hnew] at hscope
      cases hscope
      refine Eq.symm (latest?_eq_none_iff.mpr fun hbinds => ?_)
      exact absurd (h.binder_lt hbinds) (hnew ▸ Nat.lt_irrefl _)
    · rw [if_neg hnew] at hscope
      exact h.names hscope name
  outer_lt := by
    intro outer' id hencloses
    rw [History.Encloses, outers_concat_create, List.getElem?_append, ← h.size] at hencloses
    split at hencloses
    · exact h.outer_lt hencloses
    · rename_i hold
      rw [List.getElem?_singleton] at hencloses
      split at hencloses
      · have hlt := houter outer' (Option.some.inj hencloses)
        exact Nat.lt_of_lt_of_le hlt (Nat.le_of_not_lt hold)
      · cases hencloses
  binder_lt := by
    intro id name hbinds
    simp only [binds_concat, reduceCtorEq, exists_false, or_false] at hbinds
    simp only [Scopes.create, Array.size_push]
    exact Nat.lt_succ_of_lt (h.binder_lt hbinds)

theorem Holds.bind (h : store.Holds history) {scope : ScopeId} (hscope : scope < store.scopes.size)
    (name : String) (handle : Handle) :
    (store.bind scope name handle).Holds (history ++ [.bind scope name handle]) where
  size := by rw [size_bind, outers_concat_bind, h.size]
  outer id := by
    rw [outers_concat_bind, ← h.outer]
    simp only [Scopes.bind, Array.getElem?_modify]
    split
    · cases store.scopes[id]? <;> rfl
    · rfl
  names := by
    intro id found hfound name'
    rw [latest?_concat, bound?]
    simp only [Scopes.bind, Array.getElem?_modify] at hfound
    by_cases hid : id = scope
    · rw [if_pos hid.symm] at hfound
      obtain ⟨old, hold, rfl⟩ := Option.map_eq_some_iff.mp hfound
      simp only [OrderedMap.find?_insert, hid, true_and]
      split
      · rfl
      · exact h.names (hid ▸ hold) name'
    · rw [if_neg (Ne.symm hid)] at hfound
      simp only [hid, false_and, if_false]
      exact h.names hfound name'
  outer_lt := by
    intro outer id hencloses
    rw [History.Encloses, outers_concat_bind] at hencloses
    exact h.outer_lt hencloses
  binder_lt := by
    intro id name' hbinds
    rw [size_bind]
    cases binds_concat.mp hbinds with
    | inl hbefore => exact h.binder_lt hbefore
    | inr hnow =>
        obtain ⟨other, heq⟩ := hnow
        cases heq
        exact hscope

theorem Run.holds (h : Run history store) : store.Holds history := by
  induction h with
  | empty => exact holds_empty
  | create _ houter ih => exact ih.create houter
  | bind _ hscope name handle ih => exact ih.bind hscope name handle

section Holds

variable (h : store.Holds history)
include h

theorem Holds.exists_scope (hid : id < store.scopes.size) :
    ∃ scope, store.scopes[id]? = some scope ∧ history.outers[id]? = some scope.outer := by
  refine ⟨store.scopes[id], Array.getElem?_eq_getElem hid, ?_⟩
  rw [← h.outer, Array.getElem?_eq_getElem hid]
  rfl

theorem Holds.exists_scope_of_outers {outer : Option ScopeId}
    (houter : history.outers[id]? = some outer) :
    ∃ scope, store.scopes[id]? = some scope ∧ scope.outer = outer := by
  rw [← h.outer] at houter
  exact Option.map_eq_some_iff.mp houter

theorem Holds.lt_of_encloses {outer : ScopeId} (hencloses : store.Encloses outer id) :
    outer < id := by
  obtain ⟨scope, hscope, houter⟩ := hencloses
  exact h.outer_lt (by rw [History.Encloses, ← h.outer, hscope, Option.map_some, houter])

-- Numbers only get smaller on the way outwards, so no scope is ever inside itself.
theorem Holds.lt_of_transGen {outer : ScopeId}
    (hencloses : Relation.TransGen store.Encloses outer id) : outer < id := by
  induction hencloses with
  | single hstep => exact h.lt_of_encloses hstep
  | tail _ hstep ih => exact Nat.lt_trans ih (h.lt_of_encloses hstep)

-- And so every chain comes to its end.
theorem Holds.exists_chain (hid : id < store.scopes.size) : ∃ chain, history.Chain id chain := by
  induction id using Nat.strongRecOn with
  | _ id ih =>
      obtain ⟨scope, -, houters⟩ := h.exists_scope hid
      cases houter : scope.outer with
      | none => exact ⟨[id], .outermost (by rw [houters, houter])⟩
      | some outer =>
          have hencloses : history.Encloses outer id := by rw [History.Encloses, houters, houter]
          have hlt := h.outer_lt hencloses
          obtain ⟨chain, hchain⟩ := ih outer hlt (Nat.lt_trans hlt hid)
          exact ⟨id :: chain, .inside hencloses hchain⟩

theorem Holds.resolves {chain : List ScopeId} (hchain : history.Chain id chain) :
    store.Resolves name id (chain.findSome? fun scope => history.latest? scope name) := by
  induction hchain with
  | @outermost id houters =>
      obtain ⟨scope, hscope, houter⟩ := h.exists_scope_of_outers houters
      have hnames := h.names hscope name
      rw [List.findSome?_singleton]
      cases hlatest : history.latest? id name with
      | some handle => exact .here hscope (hnames.trans hlatest)
      | none => exact .nowhere hscope (hnames.trans hlatest) houter
  | @inside outer id chain hencloses _ ih =>
      obtain ⟨scope, hscope, houter⟩ := h.exists_scope_of_outers hencloses
      have hnames := h.names hscope name
      rw [List.findSome?_cons]
      cases hlatest : history.latest? id name with
      | some handle => exact .here hscope (hnames.trans hlatest)
      | none => exact .outside hscope (hnames.trans hlatest) houter ih

-- More steps than a scope's number are steps enough.
theorem Holds.resolve_of_resolves {answer : Option Handle}
    (hresolves : store.Resolves name id answer) {steps : Nat} (hsteps : id < steps) :
    store.resolve name steps id = answer := by
  induction hresolves generalizing steps with
  | here hscope hfound =>
      cases steps with
      | zero => exact absurd hsteps (Nat.not_lt_zero _)
      | succ steps => simp only [resolve, hscope, hfound]
  | nowhere hscope hfound houter =>
      cases steps with
      | zero => exact absurd hsteps (Nat.not_lt_zero _)
      | succ steps => simp only [resolve, hscope, hfound, houter]
  | @outside id outer scope answer hscope hfound houter _ ih =>
      cases steps with
      | zero => exact absurd hsteps (Nat.not_lt_zero _)
      | succ steps =>
          have hlt := h.lt_of_encloses ⟨scope, hscope, houter⟩
          simp only [resolve, hscope, hfound, houter]
          exact ih (Nat.lt_of_lt_of_le hlt (Nat.le_of_lt_succ hsteps))

theorem Holds.lookup_eq {chain : List ScopeId} (hid : id < store.scopes.size)
    (hchain : history.Chain id chain) :
    store.lookup id name = chain.findSome? fun scope => history.latest? scope name :=
  h.resolve_of_resolves (h.resolves hchain) hid

theorem Holds.lookup_eq_some_iff {chain : List ScopeId} (hid : id < store.scopes.size)
    (hchain : history.Chain id chain) {handle : Handle} :
    store.lookup id name = some handle ↔
      ∃ binder, history.Nearest chain name binder ∧ history.Latest binder name handle := by
  rw [h.lookup_eq hid hchain, findSome?_latest?_eq_some_iff]

theorem Holds.lookup_eq_none_iff {chain : List ScopeId} (hid : id < store.scopes.size)
    (hchain : history.Chain id chain) :
    store.lookup id name = none ↔ ∀ scope ∈ chain, ¬history.Binds scope name := by
  rw [h.lookup_eq hid hchain, findSome?_latest?_eq_none_iff]

-- Binding a name makes a difference to that name only, and only where the scope is the nearest one
-- with a binding of it.
theorem Holds.lookup_bind_of_not_nearest {chain : List ScopeId} (hid : id < store.scopes.size)
    (hchain : history.Chain id chain) {scope : ScopeId} (hscope : scope < store.scopes.size)
    {name' : String} {handle : Handle}
    (hfar : ¬(name' = name ∧
      History.Nearest (history ++ [.bind scope name handle]) chain name scope)) :
    (store.bind scope name handle).lookup id name' = store.lookup id name' := by
  have hbind := h.bind hscope name handle
  have hsize : id < (store.bind scope name handle).scopes.size := by rwa [size_bind]
  cases hlookup : (store.bind scope name handle).lookup id name' with
  | none =>
      rw [hbind.lookup_eq_none_iff hsize hchain.concat_bind] at hlookup
      refine Eq.symm ((h.lookup_eq_none_iff hid hchain).mpr fun binder hmem hbinds => ?_)
      exact hlookup binder hmem (binds_concat.mpr (.inl hbinds))
  | some found =>
      rw [hbind.lookup_eq_some_iff hsize hchain.concat_bind] at hlookup
      obtain ⟨binder, hnearest, hlatest⟩ := hlookup
      have hne : ¬(binder = scope ∧ name' = name) := by
        rintro ⟨rfl, rfl⟩
        exact hfar ⟨rfl, hnearest⟩
      have hbefore := hlatest.of_concat_bind hne
      obtain ⟨nearer, farther, rfl, -, hnearer⟩ := hnearest
      refine Eq.symm ((h.lookup_eq_some_iff hid hchain).mpr ⟨binder, ?_, hbefore⟩)
      refine ⟨nearer, farther, rfl, hbefore.binds, fun scope hmem hbinds => ?_⟩
      exact hnearer scope hmem (binds_concat.mpr (.inl hbinds))

theorem Holds.lookup_bind_of_nearest {chain : List ScopeId} (hid : id < store.scopes.size)
    (hchain : history.Chain id chain) {scope : ScopeId} (hscope : scope < store.scopes.size)
    {handle : Handle}
    (hnearest : History.Nearest (history ++ [.bind scope name handle]) chain name scope) :
    (store.bind scope name handle).lookup id name = some handle := by
  have hbind := h.bind hscope name handle
  have hsize : id < (store.bind scope name handle).scopes.size := by rwa [size_bind]
  exact (hbind.lookup_eq_some_iff hsize hchain.concat_bind).mpr
    ⟨scope, hnearest, latest_concat_self⟩

end Holds

-- Scopes are made inside each other and names are bound in them, in any order. No scope is ever
-- inside itself, so looking a name up comes to an end from every scope. What is found is the last
-- handle of the nearest scope around that ever bound the name, and nothing is found if there is
-- none. So to bind a name in a scope changes what is found for that name and no other one, and only
-- from where that scope is now the nearest one to bind it.
theorem lookup_of_run (h : Run history store) :
    (∀ scope, ¬Relation.TransGen store.Encloses scope scope) ∧
      ∀ id < store.scopes.size, ∃ chain, history.Chain id chain ∧
        (∀ name, store.Resolves name id (store.lookup id name) ∧
          (∀ handle, store.lookup id name = some handle ↔
            ∃ binder, history.Nearest chain name binder ∧ history.Latest binder name handle) ∧
          (store.lookup id name = none ↔ ∀ scope ∈ chain, ¬history.Binds scope name)) ∧
        ∀ scope < store.scopes.size, ∀ name handle,
          let later : History := history ++ [.bind scope name handle]
          (later.Nearest chain name scope →
            (store.bind scope name handle).lookup id name = some handle) ∧
          ∀ name', ¬(name' = name ∧ later.Nearest chain name scope) →
            (store.bind scope name handle).lookup id name' = store.lookup id name' := by
  have hholds := h.holds
  refine ⟨fun scope hencloses => Nat.lt_irrefl scope (hholds.lt_of_transGen hencloses), ?_⟩
  intro id hid
  obtain ⟨chain, hchain⟩ := hholds.exists_chain hid
  refine ⟨chain, hchain, fun name => ⟨?_, ?_, ?_⟩, fun scope hscope name handle => ⟨?_, ?_⟩⟩
  · rw [hholds.lookup_eq hid hchain]
    exact hholds.resolves hchain
  · exact fun handle => hholds.lookup_eq_some_iff hid hchain
  · exact hholds.lookup_eq_none_iff hid hchain
  · exact hholds.lookup_bind_of_nearest hid hchain hscope
  · exact fun name' hfar => hholds.lookup_bind_of_not_nearest hid hchain hscope hfar

-- To bind a name again in the outer scope changes nothing for the inner one, which binds it too.
theorem lookup_of_run_shadowed :
    let outside : Handle := ⟨0, .integer 1⟩
    let inside : Handle := ⟨1, .integer 1⟩
    let again : Handle := ⟨2, .integer 1⟩
    let history : History := [.create none, .create (some 0), .bind 0 "x" outside,
      .bind 1 "x" inside]
    let store := (((Scopes.empty.create none).2.create (some 0)).2.bind 0 "x" outside).bind 1 "x"
      inside
    Run history store ∧ (∀ scope, ¬Relation.TransGen store.Encloses scope scope) ∧
      store.lookup 0 "x" = some outside ∧ store.lookup 1 "x" = some inside ∧
      (∀ name, store.Resolves name 1 (store.lookup 1 name)) ∧
      (store.bind 0 "x" again).lookup 0 "x" = some again ∧
      (store.bind 0 "x" again).lookup 1 "x" = some inside := by
  have hempty : Run [.create none] (Scopes.empty.create none).2 := Run.empty.create nofun
  have hnested : Run [.create none, .create (some 0)]
      ((Scopes.empty.create none).2.create (some 0)).2 := hempty.create (by decide)
  have hrun := (hnested.bind (show 0 < 2 by decide) "x" ⟨0, .integer 1⟩).bind
    (show 1 < 2 by decide) "x" ⟨1, .integer 1⟩
  obtain ⟨hacyclic, hlookup⟩ := lookup_of_run hrun
  obtain ⟨chain, -, hnames, -⟩ := hlookup 1 (show 1 < 2 by decide)
  exact ⟨hrun, hacyclic, rfl, rfl, fun name => (hnames name).1, rfl, rfl⟩

end ScriptFront.Scopes
