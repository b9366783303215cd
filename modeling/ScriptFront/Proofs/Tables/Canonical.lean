import ScriptFront.Proofs.Tables.ByteOrder
import ScriptFront.Proofs.Tables.Pairs

namespace ScriptFront

namespace HashKey

-- Integers before booleans before strings. Integers by number, false before true, strings by their
-- bytes.
inductive Before : HashKey → HashKey → Prop where
  | integer {a b : Int64} (h : a.toInt < b.toInt) : Before (.integer a) (.integer b)
  | integer_boolean (a : Int64) (b : Bool) : Before (.integer a) (.boolean b)
  | integer_string (a : Int64) (b : String) : Before (.integer a) (.string b)
  | boolean : Before (.boolean false) (.boolean true)
  | boolean_string (a : Bool) (b : String) : Before (.boolean a) (.string b)
  | string {a b : String} (h : Text.bytes a < Text.bytes b) : Before (.string a) (.string b)

theorem compare_eq_lt_iff {a b : HashKey} : compare a b = .lt ↔ a.Before b := by
  change order a b = .lt ↔ a.Before b
  constructor
  · intro h
    cases a <;> cases b <;> simp only [order, reduceCtorEq] at h
    · exact .integer (Int64.lt_iff_toInt_lt.mp (Std.compare_eq_lt.mp h))
    · exact .integer_boolean _ _
    · exact .integer_string _ _
    · obtain ⟨rfl, rfl⟩ := Bool.lt_iff.mp (compare_lt_iff_lt.mp h)
      exact .boolean
    · exact .boolean_string _ _
    · exact .string (Text.bytes_lt_bytes_iff.mpr (compare_lt_iff_lt.mp h))
  · intro h
    cases h with
    | integer h => exact Std.compare_eq_lt.mpr (Int64.lt_iff_toInt_lt.mpr h)
    | string h => exact compare_lt_iff_lt.mpr (Text.bytes_lt_bytes_iff.mp h)
    | _ => rfl

end HashKey

namespace OrderedMap

variable {κ α : Type} [Ord κ] [Std.LawfulEqOrd κ] {map map' : OrderedMap κ α}

theorem Sorted.nodup_entries (h : map.Sorted) : map.entries.Nodup :=
  .of_map Prod.fst h.nodup_keys

-- Entries can be put in their order in one way only.
theorem Sorted.eq_of_mem_iff [Std.TransOrd κ] (h : map.Sorted) (h' : map'.Sorted)
    (hmem : ∀ entry, entry ∈ map.entries ↔ entry ∈ map'.entries) : map = map' := by
  have hperm : map.entries.Perm map'.entries :=
    (List.perm_ext_iff_of_nodup h.nodup_entries h'.nodup_entries).mpr hmem
  have hasymm (entry later : κ × α) (_ : entry ∈ map.entries) (_ : later ∈ map'.entries)
      (hlt : compare entry.1 later.1 = .lt) (hgt : compare later.1 entry.1 = .lt) :
      entry = later := by
    rw [← Std.OrientedCmp.gt_iff_lt, hlt] at hgt
    cases hgt
  obtain ⟨entries⟩ := map
  obtain ⟨entries'⟩ := map'
  exact congrArg mk (hperm.eq_of_pairwise hasymm h h')

end OrderedMap

namespace HashTable

variable {pairs pairs' : List (Handle × Handle)} {pair : Handle × Handle} {hashKey : HashKey}
  {table table' : HashTable}

-- For each hash key, both have the same last pair with it, if any.
def Agree (pairs pairs' : List (Handle × Handle)) : Prop :=
  ∀ hashKey pair, IsLast pairs hashKey pair ↔ IsLast pairs' hashKey pair

-- The tables of both have the same entries in the same order, and are shown by the same text.
def Indistinct (pairs pairs' : List (Handle × Handle)) : Prop :=
  ∃ table table', ofPairs pairs = .ok table ∧ ofPairs pairs' = .ok table' ∧
    table'.values = table.values ∧ (Value.hash table').inspect = (Value.hash table).inspect

theorem isLast_iff_mem (hkeys : (pairs.map fun pair => pair.1.hashKey?).Nodup) :
    IsLast pairs hashKey pair ↔ pair ∈ pairs ∧ pair.1.hashKey? = some hashKey := by
  constructor
  · rintro ⟨before, after, rfl, hpair, -⟩
    exact ⟨by simp, hpair⟩
  · rintro ⟨hmem, hpair⟩
    obtain ⟨before, after, rfl⟩ := List.append_of_mem hmem
    refine ⟨before, after, rfl, hpair, fun later hlater heq => ?_⟩
    simp only [List.map_append, List.map_cons] at hkeys
    have hfirst := (List.nodup_cons.mp (List.nodup_append.mp hkeys).2.1).1
    exact hfirst (List.mem_map.mpr ⟨later, hlater, heq.trans hpair.symm⟩)

-- Where no two pairs have one key, each pair is the last with its key, in whatever order they are.
theorem agree_of_perm (hperm : pairs.Perm pairs')
    (hkeys : (pairs.map fun pair => pair.1.hashKey?).Nodup) : Agree pairs pairs' := by
  intro hashKey pair
  rw [isLast_iff_mem hkeys, isLast_iff_mem ((hperm.map _).nodup_iff.mp hkeys), hperm.mem_iff]

namespace Files

theorem eq_of_agree (h : table.Files pairs) (h' : table'.Files pairs')
    (hagree : Agree pairs pairs') : table = table' :=
  h.sorted.eq_of_mem_iff h'.sorted fun (hashKey, entry) => by
    rw [h.mem_entries_iff, h'.mem_entries_iff, hagree]

-- An entry is filed under the hash key of its own key.
theorem map_values (h : table.Files pairs) :
    table.values.map (fun entry => entry.key.hashKey?) = table.keys.map some := by
  simp only [OrderedMap.values, OrderedMap.keys, List.map_map]
  refine List.map_congr_left ?_
  rintro ⟨hashKey, entry⟩ hmem
  obtain ⟨before, after, -, hkey, -⟩ := h.mem_entries_iff.mp hmem
  exact hkey

theorem pairwise_keys (h : table.Files pairs) : table.keys.Pairwise HashKey.Before :=
  List.pairwise_map.mpr (h.sorted.imp HashKey.compare_eq_lt_iff.mp)

end Files

theorem indistinct_of_agree (h : ∀ pair ∈ pairs, pair.1.hashKey? ≠ none)
    (h' : ∀ pair ∈ pairs', pair.1.hashKey? ≠ none) (hagree : Agree pairs pairs') :
    Indistinct pairs pairs' := by
  obtain ⟨table, htable, hfiles⟩ := exists_files h
  obtain ⟨table', htable', hfiles'⟩ := exists_files h'
  obtain rfl : table = table' := hfiles.eq_of_agree hfiles' hagree
  exact ⟨table, table, htable, htable', rfl, rfl⟩

-- Going through a table gives one entry for each hash key of its pairs, in the order of the hash
-- keys. Nothing but the last pair with each hash key makes a difference to that and to the text of
-- the table, so pairs with different keys may come in any order.
theorem ofPairs_canonical (pairs : List (Handle × Handle))
    (h : ∀ pair ∈ pairs, pair.1.hashKey? ≠ none) :
    (∃ table, ofPairs pairs = .ok table ∧
      table.values.map (fun entry => entry.key.hashKey?) = table.keys.map some ∧
      table.keys.Pairwise HashKey.Before ∧ table.keys.Nodup ∧
      ∀ hashKey, hashKey ∈ table.keys ↔ ∃ pair ∈ pairs, pair.1.hashKey? = some hashKey) ∧
    (∀ pairs', (∀ pair ∈ pairs', pair.1.hashKey? ≠ none) → Agree pairs pairs' →
      Indistinct pairs pairs') ∧
    ∀ pairs', pairs.Perm pairs' → (pairs.map fun pair => pair.1.hashKey?).Nodup →
      Indistinct pairs pairs' := by
  obtain ⟨table, htable, hfiles⟩ := exists_files h
  refine ⟨⟨table, htable, hfiles.map_values, hfiles.pairwise_keys, hfiles.sorted.nodup_keys,
    fun hashKey => hfiles.mem_keys_iff⟩, fun pairs' => indistinct_of_agree h, ?_⟩
  intro pairs' hperm hkeys
  have h' : ∀ pair ∈ pairs', pair.1.hashKey? ≠ none := fun pair hmem =>
    h pair (hperm.mem_iff.mpr hmem)
  exact indistinct_of_agree h h' (agree_of_perm hperm hkeys)

-- Two pairs with one hash key, of which the first makes no difference, around keys of all types;
-- and the same without that one, in the opposite order.
theorem ofPairs_canonical_mixed :
    let pairs : List (Handle × Handle) :=
      [(⟨0, .integer (-5)⟩, ⟨1, .null⟩), (⟨2, .string "é"⟩, ⟨3, .integer 1⟩),
        (⟨4, .string "z"⟩, ⟨5, .integer 2⟩), (⟨6, .boolean true⟩, ⟨7, .integer 3⟩),
        (⟨8, .integer (-5)⟩, ⟨9, .integer 4⟩)]
    let pairs' : List (Handle × Handle) :=
      [(⟨6, .boolean true⟩, ⟨7, .integer 3⟩), (⟨10, .string "z"⟩, ⟨11, .null⟩),
        (⟨8, .integer (-5)⟩, ⟨9, .integer 4⟩), (⟨4, .string "z"⟩, ⟨5, .integer 2⟩),
        (⟨2, .string "é"⟩, ⟨3, .integer 1⟩)]
    ((∀ pair ∈ pairs, pair.1.hashKey? ≠ none) ∧ (∀ pair ∈ pairs', pair.1.hashKey? ≠ none) ∧
      Agree pairs pairs' ∧ (pairs.tail.map fun pair => pair.1.hashKey?).Nodup) ∧
    Indistinct pairs pairs' ∧ Indistinct pairs.tail pairs.tail.reverse ∧
      (ofPairs pairs).map (fun table => (Value.hash table).inspect) =
        .ok "\x7b-5: 4, true: 3, z: 2, é: 1\x7d" := by
  intro pairs pairs'
  have h : ∀ pair ∈ pairs, pair.1.hashKey? ≠ none := by
    simp [pairs, Handle.hashKey?, Value.hashKey?]
  have h' : ∀ pair ∈ pairs', pair.1.hashKey? ≠ none := by
    simp [pairs', Handle.hashKey?, Value.hashKey?]
  have hkeys : (pairs.tail.map fun pair => pair.1.hashKey?).Nodup := by
    simp [pairs, Handle.hashKey?, Value.hashKey?]
  have hagree : Agree pairs pairs' := by
    intro hashKey pair
    rw [← last?_eq_some_iff, ← last?_eq_some_iff]
    cases hashKey <;>
      simp [last?, pairs, pairs', List.find?, Handle.hashKey?, Value.hashKey?] <;> grind
  have htail : ∀ pair ∈ pairs.tail, pair.1.hashKey? ≠ none := fun pair hmem =>
    h pair (List.mem_of_mem_tail hmem)
  refine ⟨⟨h, h', hagree, hkeys⟩, (ofPairs_canonical pairs h).2.1 pairs' h' hagree,
    (ofPairs_canonical _ htail).2.2 _ (List.reverse_perm _).symm hkeys, ?_⟩
  cbv

end HashTable

end ScriptFront
