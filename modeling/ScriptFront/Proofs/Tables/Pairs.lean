import Mathlib.Data.List.Induction
import ScriptFront.Proofs.Tables.Order
import ScriptFront.Value.HashTable

namespace ScriptFront.HashTable

-- A pair that is filed under the hash key, with no such pair behind it.
def IsLast (pairs : List (Handle × Handle)) (hashKey : HashKey) (pair : Handle × Handle) : Prop :=
  ∃ before after, pairs = before ++ pair :: after ∧ pair.1.hashKey? = some hashKey ∧
    ∀ later ∈ after, later.1.hashKey? ≠ some hashKey

def last? (pairs : List (Handle × Handle)) (hashKey : HashKey) : Option (Handle × Handle) :=
  pairs.reverse.find? fun pair => pair.1.hashKey? = some hashKey

-- The table has one entry for each hash key, which is the last pair's.
structure Files (table : HashTable) (pairs : List (Handle × Handle)) : Prop where
  sorted : table.Sorted
  find?_iff : ∀ hashKey entry,
    table.find? hashKey = some entry ↔ IsLast pairs hashKey (entry.key, entry.value)

variable {pairs : List (Handle × Handle)} {pair : Handle × Handle} {hashKey : HashKey}
  {key value : Handle} {table : HashTable} {type : ValueType}

theorem last?_eq_none_iff :
    last? pairs hashKey = none ↔ ∀ pair ∈ pairs, pair.1.hashKey? ≠ some hashKey := by
  simp [last?]

theorem last?_eq_some_iff : last? pairs hashKey = some pair ↔ IsLast pairs hashKey pair := by
  rw [last?, List.find?_eq_some_iff_append]
  constructor
  · rintro ⟨hpair, after, before, hreverse, hafter⟩
    refine ⟨before.reverse, after.reverse, ?_, of_decide_eq_true hpair, fun later hlater => ?_⟩
    · rw [List.reverse_eq_iff] at hreverse
      simpa using hreverse
    · simpa using hafter later (List.mem_reverse.mp hlater)
  · rintro ⟨before, after, rfl, hpair, hafter⟩
    refine ⟨decide_eq_true hpair, after.reverse, before.reverse, by simp, fun later hlater => ?_⟩
    simpa using hafter later (List.mem_reverse.mp hlater)

theorem exists_isLast_iff :
    (∃ pair, IsLast pairs hashKey pair) ↔ ∃ pair ∈ pairs, pair.1.hashKey? = some hashKey := by
  constructor
  · rintro ⟨pair, before, after, rfl, hpair, -⟩
    exact ⟨pair, by simp, hpair⟩
  · rintro ⟨pair, hmem, hpair⟩
    cases hlast : last? pairs hashKey with
    | none => exact absurd hpair (last?_eq_none_iff.mp hlast pair hmem)
    | some found => exact ⟨found, last?_eq_some_iff.mp hlast⟩

theorem isLast_concat_iff (hpair : pair.1.hashKey? = some hashKey) {hashKey' : HashKey}
    {pair' : Handle × Handle} :
    IsLast (pairs ++ [pair]) hashKey' pair' ↔
      if hashKey' = hashKey then pair' = pair else IsLast pairs hashKey' pair' := by
  rw [← last?_eq_some_iff, ← last?_eq_some_iff, last?, List.reverse_append,
    List.reverse_singleton, List.singleton_append, List.find?_cons, hpair]
  by_cases heq : hashKey' = hashKey
  · simp [heq, eq_comm]
  · simp [heq, Ne.symm heq, last?]

theorem ofPairs_concat (h : ofPairs pairs = .ok table) (hkey : key.hashKey? = some hashKey) :
    ofPairs (pairs ++ [(key, value)]) = .ok (table.insert hashKey ⟨key, value⟩) := by
  unfold ofPairs at h ⊢
  simp only [List.foldlM_append, h, bind, Except.bind, List.foldlM_cons, List.foldlM_nil, hkey]
  rfl

theorem ofPairs_of_unhashable (h : ofPairs pairs = .ok table) (hkey : key.hashKey? = none)
    (after : List (Handle × Handle)) :
    ofPairs (pairs ++ (key, value) :: after) = .error key.type := by
  unfold ofPairs at h ⊢
  simp only [List.foldlM_append, h, bind, Except.bind, List.foldlM_cons, hkey]

theorem Files.concat (h : table.Files pairs) (hkey : key.hashKey? = some hashKey) :
    Files (table.insert hashKey ⟨key, value⟩) (pairs ++ [(key, value)]) := by
  refine ⟨h.sorted.insert hashKey ⟨key, value⟩, fun hashKey' entry => ?_⟩
  rw [OrderedMap.find?_insert, isLast_concat_iff hkey]
  by_cases heq : hashKey' = hashKey
  · obtain ⟨key', value'⟩ := entry
    simp [heq, eq_comm]
  · rw [if_neg heq, if_neg heq]
    exact h.find?_iff hashKey' entry

theorem exists_files (h : ∀ pair ∈ pairs, pair.1.hashKey? ≠ none) :
    ∃ table, ofPairs pairs = .ok table ∧ table.Files pairs := by
  induction pairs using List.reverseRecOn with
  | nil =>
      refine ⟨_, rfl, OrderedMap.sorted_empty, fun hashKey entry => ?_⟩
      simp [IsLast, OrderedMap.find?, OrderedMap.empty]
  | append_singleton pairs pair ih =>
      obtain ⟨key, value⟩ := pair
      obtain ⟨table, htable, hfiles⟩ := ih fun pair hmem => h pair (List.mem_append_left _ hmem)
      obtain ⟨hashKey, hkey⟩ := Option.ne_none_iff_exists'.mp (h (key, value) (by simp))
      exact ⟨_, ofPairs_concat htable hkey, hfiles.concat hkey⟩

theorem exists_first_unhashable (h : ¬∀ pair ∈ pairs, pair.1.hashKey? ≠ none) :
    ∃ before key value after, pairs = before ++ (key, value) :: after ∧
      (∀ pair ∈ before, pair.1.hashKey? ≠ none) ∧ key.hashKey? = none := by
  cases hfind : pairs.find? fun pair => pair.1.hashKey? = none with
  | none => exact absurd (by simpa using hfind) h
  | some pair =>
      obtain ⟨hkey, before, after, hpairs, hbefore⟩ := List.find?_eq_some_iff_append.mp hfind
      refine ⟨before, pair.1, pair.2, after, hpairs, fun earlier hmem => ?_, of_decide_eq_true hkey⟩
      simpa using hbefore earlier hmem

theorem ofPairs_eq_error_iff :
    ofPairs pairs = .error type ↔
      ∃ before key value after, pairs = before ++ (key, value) :: after ∧
        (∀ pair ∈ before, pair.1.hashKey? ≠ none) ∧ key.hashKey? = none ∧ key.type = type := by
  constructor
  · intro h
    by_cases hall : ∀ pair ∈ pairs, pair.1.hashKey? ≠ none
    · obtain ⟨table, htable, -⟩ := exists_files hall
      rw [htable] at h
      cases h
    · obtain ⟨before, key, value, after, rfl, hbefore, hkey⟩ := exists_first_unhashable hall
      obtain ⟨table, htable, -⟩ := exists_files hbefore
      rw [ofPairs_of_unhashable htable hkey] at h
      exact ⟨before, key, value, after, rfl, hbefore, hkey, Except.error.inj h⟩
  · rintro ⟨before, key, value, after, rfl, hbefore, hkey, rfl⟩
    obtain ⟨table, htable, -⟩ := exists_files hbefore
    exact ofPairs_of_unhashable htable hkey after

namespace Files

theorem mem_entries_iff (h : table.Files pairs) {entry : HashEntry} :
    (hashKey, entry) ∈ table.entries ↔ IsLast pairs hashKey (entry.key, entry.value) := by
  rw [← h.sorted.find?_eq_some_iff]
  exact h.find?_iff hashKey entry

theorem get?_eq_some_iff (h : table.Files pairs) :
    table.get? key = some value ↔
      ∃ hashKey last, key.hashKey? = some hashKey ∧ IsLast pairs hashKey (last, value) := by
  simp only [get?, bind, Option.bind_eq_some_iff, h.find?_iff, pure, Option.some.injEq]
  constructor
  · rintro ⟨hashKey, hkey, entry, hlast, rfl⟩
    exact ⟨hashKey, entry.key, hkey, hlast⟩
  · rintro ⟨hashKey, last, hkey, hlast⟩
    exact ⟨hashKey, hkey, ⟨last, value⟩, hlast, rfl⟩

theorem get?_eq_none_iff (h : table.Files pairs) :
    table.get? key = none ↔
      key.hashKey? = none ∨ ∀ pair ∈ pairs, pair.1.hashKey? ≠ key.hashKey? := by
  have hpairs : table.get? key = none ↔
      ∀ hashKey, key.hashKey? = some hashKey → ¬∃ pair, IsLast pairs hashKey pair := by
    simp only [Option.eq_none_iff_forall_ne_some, ne_eq, h.get?_eq_some_iff]
    constructor
    · rintro hnone hashKey hkey ⟨⟨last, value⟩, hlast⟩
      exact hnone value ⟨hashKey, last, hkey, hlast⟩
    · rintro hnone value ⟨hashKey, last, hkey, hlast⟩
      exact hnone hashKey hkey ⟨_, hlast⟩
  simp only [exists_isLast_iff, not_exists, not_and] at hpairs
  rw [hpairs]
  cases key.hashKey? with
  | none => simp
  | some hashKey => simp

theorem mem_keys_iff (h : table.Files pairs) :
    hashKey ∈ table.keys ↔ ∃ pair ∈ pairs, pair.1.hashKey? = some hashKey := by
  rw [h.sorted.mem_keys_iff, ← exists_isLast_iff]
  constructor
  · rintro ⟨entry, hentry⟩
    exact ⟨_, (h.find?_iff hashKey entry).mp hentry⟩
  · rintro ⟨⟨key, value⟩, hlast⟩
    exact ⟨⟨key, value⟩, (h.find?_iff hashKey _).mpr hlast⟩

-- The keys of the table are the hash keys of the pairs, each once.
theorem size_eq (h : table.Files pairs) :
    table.size = (pairs.filterMap fun pair => pair.1.hashKey?).dedup.length := by
  have hmem : ∀ hashKey, hashKey ∈ table.keys ↔
      hashKey ∈ (pairs.filterMap fun pair => pair.1.hashKey?).dedup := by
    intro hashKey
    rw [h.mem_keys_iff, List.mem_dedup, List.mem_filterMap]
  have hperm : table.keys.Perm (pairs.filterMap fun pair => pair.1.hashKey?).dedup :=
    (List.perm_ext_iff_of_nodup h.sorted.nodup_keys (List.nodup_dedup _)).mpr hmem
  rw [← hperm.length_eq, OrderedMap.keys, List.length_map]
  rfl

end Files

-- A table is made of pairs unless some key cannot be one, and then the first such key is blamed.
-- Each hash key is filed once, with the key and the value of the last pair that has it, and that
-- value is what is found under any key with the same hash key.
theorem ofPairs_files_last (pairs : List (Handle × Handle)) :
    (∀ type, ofPairs pairs = .error type ↔
      ∃ before key value after, pairs = before ++ (key, value) :: after ∧
        (∀ pair ∈ before, pair.1.hashKey? ≠ none) ∧ key.hashKey? = none ∧ key.type = type) ∧
    ((∀ pair ∈ pairs, pair.1.hashKey? ≠ none) →
      ∃ table, ofPairs pairs = .ok table ∧
        (∀ key value, table.get? key = some value ↔
          ∃ hashKey last, key.hashKey? = some hashKey ∧ IsLast pairs hashKey (last, value)) ∧
        (∀ key, table.get? key = none ↔
          key.hashKey? = none ∨ ∀ pair ∈ pairs, pair.1.hashKey? ≠ key.hashKey?) ∧
        table.size = (pairs.filterMap fun pair => pair.1.hashKey?).dedup.length ∧
        ∀ hashKey entry, (hashKey, entry) ∈ table.entries ↔
          IsLast pairs hashKey (entry.key, entry.value)) := by
  refine ⟨fun type => ofPairs_eq_error_iff, fun h => ?_⟩
  obtain ⟨table, htable, hfiles⟩ := exists_files h
  exact ⟨table, htable, fun key value => hfiles.get?_eq_some_iff,
    fun key => hfiles.get?_eq_none_iff, hfiles.size_eq,
    fun hashKey entry => hfiles.mem_entries_iff⟩

-- Two pairs with one hash key around one with another, and two keys that cannot be filed.
theorem ofPairs_files_last_repeated :
    let pairs : List (Handle × Handle) :=
      [(⟨0, .integer 1⟩, ⟨1, .null⟩), (⟨2, .string "1"⟩, ⟨3, .null⟩),
        (⟨4, .integer 1⟩, ⟨5, .boolean true⟩)]
    (∃ table, ofPairs pairs = .ok table ∧ table.get? ⟨6, .integer 1⟩ = some ⟨5, .boolean true⟩ ∧
        table.get? ⟨7, .boolean true⟩ = none ∧ table.size = 2) ∧
      ofPairs (pairs ++ [(⟨8, .null⟩, ⟨9, .null⟩), (⟨10, .array []⟩, ⟨11, .null⟩)]) =
        .error .null := by
  intro pairs
  have hkeys : ∀ pair ∈ pairs, pair.1.hashKey? ≠ none := by
    simp [pairs, Handle.hashKey?, Value.hashKey?]
  have hlast : IsLast pairs (.integer 1) (⟨4, .integer 1⟩, ⟨5, .boolean true⟩) :=
    ⟨pairs.take 2, [], rfl, rfl, by simp⟩
  have habsent : ∀ pair ∈ pairs, pair.1.hashKey? ≠ some (.boolean true) := by
    simp [pairs, Handle.hashKey?, Value.hashKey?]
  obtain ⟨table, htable, hfound, hmissing, hsize, -⟩ := (ofPairs_files_last pairs).2 hkeys
  refine ⟨⟨table, htable, (hfound _ _).mpr ⟨_, _, rfl, hlast⟩, (hmissing _).mpr (.inr habsent),
    hsize.trans (by decide)⟩, ?_⟩
  exact ((ofPairs_files_last _).1 _).mpr ⟨pairs, _, _, _, rfl, hkeys, rfl, rfl⟩

end ScriptFront.HashTable
