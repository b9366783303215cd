import ScriptFront.OrderedMap

namespace ScriptFront.OrderedMap

variable {κ α : Type} [Ord κ] [Std.LawfulEqOrd κ] [DecidableEq κ] {key key' : κ} {value : α}

-- A new entry only ever takes the place of one with the same key, so what is found under another
-- key is what was there, even if the entries were not in order.
theorem find?_insertEntry (entries : List (κ × α)) :
    (insertEntry key value entries).find? (fun entry => compare key' entry.1 == .eq) =
      if key' = key then some (key, value)
      else entries.find? fun entry => compare key' entry.1 == .eq := by
  induction entries with
  | nil => by_cases h : key' = key <;> simp [insertEntry, h]
  | cons entry entries ih =>
      obtain ⟨first, old⟩ := entry
      cases horder : compare key first with
      | lt => by_cases h : key' = key <;> simp [insertEntry, horder, h]
      | eq =>
          obtain rfl : key = first := Std.LawfulEqOrd.eq_of_compare horder
          by_cases h : key' = key <;> simp [insertEntry, h]
      | gt =>
          have hne : key ≠ first := by
            rintro rfl
            simp at horder
          by_cases h : key' = first
          · have hne' : key' ≠ key := fun heq => hne (heq.symm.trans h)
            simp [insertEntry, horder, h, hne.symm]
          · simp [insertEntry, horder, h, ih]

theorem find?_insert (map : OrderedMap κ α) :
    (map.insert key value).find? key' = if key' = key then some value else map.find? key' := by
  simp only [find?, insert, find?_insertEntry]
  split <;> rfl

end ScriptFront.OrderedMap
