import Mathlib.Data.List.Dedup
import ScriptFront.Proofs.Tables.Lookup
import ScriptFront.Value.HashKey

namespace ScriptFront

namespace HashKey

-- The orders of the three types of values are put one after another, so what holds of each of them
-- holds of the whole: keys of different types are told apart before their values are looked at.
instance : Std.TransOrd HashKey where
  eq_swap {a b} := by
    cases a <;> cases b <;> try rfl
    · exact Std.OrientedOrd.eq_swap (α := Int64)
    · exact Std.OrientedOrd.eq_swap (α := Bool)
    · exact Std.OrientedOrd.eq_swap (α := String)
  isLE_trans {a b c} hab hbc := by
    change (order a b).isLE = true at hab
    change (order b c).isLE = true at hbc
    change (order a c).isLE = true
    cases a <;> cases b <;> cases c <;> simp only [order, Ordering.isLE_gt, Ordering.isLE_lt,
      Bool.false_eq_true] at hab hbc ⊢
    · exact Std.TransOrd.isLE_trans hab hbc
    · exact Std.TransOrd.isLE_trans hab hbc
    · exact Std.TransOrd.isLE_trans hab hbc

instance : Std.LawfulEqOrd HashKey where
  compare_self {a} := by
    cases a with
    | integer a => exact Std.ReflOrd.compare_self (α := Int64)
    | boolean a => exact Std.ReflOrd.compare_self (α := Bool)
    | string a => exact Std.ReflOrd.compare_self (α := String)
  eq_of_compare {a b} h := by
    cases a <;> cases b <;> try cases h
    · exact congrArg integer (Std.LawfulEqOrd.eq_of_compare h)
    · exact congrArg boolean (Std.LawfulEqOrd.eq_of_compare h)
    · exact congrArg string (Std.LawfulEqOrd.eq_of_compare h)

end HashKey

namespace OrderedMap

variable {κ α : Type} [Ord κ] {map : OrderedMap κ α} {entries : List (κ × α)} {entry : κ × α}
  {key : κ} {value : α}

-- Each entry comes before those behind it by its key.
def Ascending (entries : List (κ × α)) : Prop :=
  entries.Pairwise fun entry later => compare entry.1 later.1 = .lt

def Sorted (map : OrderedMap κ α) : Prop :=
  Ascending map.entries

theorem sorted_empty : Sorted (empty : OrderedMap κ α) :=
  .nil

theorem mem_insertEntry (h : entry ∈ insertEntry key value entries) :
    entry = (key, value) ∨ entry ∈ entries := by
  induction entries with
  | nil => exact .inl (List.mem_singleton.mp h)
  | cons first entries ih =>
      unfold insertEntry at h
      split at h
      · exact List.mem_cons.mp h
      · rcases List.mem_cons.mp h with heq | hmem
        · exact .inl heq
        · exact .inr (List.mem_cons_of_mem _ hmem)
      · rcases List.mem_cons.mp h with heq | hmem
        · exact .inr (heq ▸ List.mem_cons_self)
        · exact (ih hmem).imp_right (List.mem_cons_of_mem _)

variable [Std.LawfulEqOrd κ]

theorem Ascending.insertEntry [Std.TransOrd κ] (h : Ascending entries) (key : κ) (value : α) :
    Ascending (insertEntry key value entries) := by
  induction entries with
  | nil => exact List.pairwise_singleton _ _
  | cons first entries ih =>
      obtain ⟨hfirst, hentries⟩ := List.pairwise_cons.mp h
      unfold OrderedMap.insertEntry
      cases horder : compare key first.1 with
      | lt =>
          refine List.pairwise_cons.mpr ⟨fun later hlater => ?_, h⟩
          rcases List.mem_cons.mp hlater with rfl | hmem
          · exact horder
          · exact Std.TransCmp.lt_trans horder (hfirst later hmem)
      | eq =>
          obtain rfl : key = first.1 := Std.LawfulEqOrd.eq_of_compare horder
          exact List.pairwise_cons.mpr ⟨hfirst, hentries⟩
      | gt =>
          refine List.pairwise_cons.mpr ⟨fun later hlater => ?_, ih hentries⟩
          rcases mem_insertEntry hlater with rfl | hmem
          · exact Std.OrientedCmp.gt_iff_lt.mp horder
          · exact hfirst later hmem

theorem Sorted.insert [Std.TransOrd κ] (h : map.Sorted) (key : κ) (value : α) :
    (map.insert key value).Sorted :=
  Ascending.insertEntry h key value

-- What is found under a key is its entry, since there is no other one.
theorem Sorted.find?_eq_some_iff (h : map.Sorted) :
    map.find? key = some value ↔ (key, value) ∈ map.entries := by
  obtain ⟨entries⟩ := map
  unfold find?
  induction entries with
  | nil => simp
  | cons first entries ih =>
      obtain ⟨hfirst, hentries⟩ := List.pairwise_cons.mp h
      by_cases hkey : key = first.1
      · subst hkey
        have hrest : (first.1, value) ∉ entries := by
          intro hmem
          have hlt := hfirst _ hmem
          rw [Std.ReflOrd.compare_self] at hlt
          cases hlt
        simp [hrest, Prod.ext_iff, eq_comm]
      · have hne : compare key first.1 ≠ .eq := fun heq =>
          hkey (Std.LawfulEqOrd.eq_of_compare heq)
        have hhead : (key, value) ≠ first := fun heq => hkey (congrArg Prod.fst heq)
        simpa [hne, hhead] using ih hentries

theorem Sorted.nodup_keys (h : map.Sorted) : map.keys.Nodup := by
  refine List.pairwise_map.mpr (h.imp fun hlt heq => ?_)
  rw [heq, Std.ReflOrd.compare_self] at hlt
  cases hlt

theorem Sorted.mem_keys_iff (h : map.Sorted) :
    key ∈ map.keys ↔ ∃ value, map.find? key = some value := by
  simp only [h.find?_eq_some_iff, keys, List.mem_map, Prod.exists, exists_and_right,
    exists_eq_right]

end OrderedMap

end ScriptFront
