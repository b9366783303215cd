import Mathlib.Data.String.Basic
import ScriptFront.Lexeme.Cursor

namespace ScriptFront

namespace SourceCursor

variable {cursor : SourceCursor} {bytes : Nat} {text after : List Char}

theorem dropBytes?_append (before after : List Char) :
    dropBytes? (String.utf8Len before) (before ++ after) = some after := by
  induction before with
  | nil => cases after <;> rfl
  | cons c before ih =>
      have hpos := c.utf8Size_pos
      obtain ⟨bytes, hbytes⟩ : ∃ bytes, String.utf8Len (c :: before) = bytes + 1 := by
        rw [String.utf8Len_cons]
        exact ⟨String.utf8Len before + c.utf8Size - 1, by omega⟩
      rw [String.utf8Len_cons] at hbytes
      have hle : c.utf8Size ≤ bytes + 1 := by omega
      have hrest : bytes + 1 - c.utf8Size = String.utf8Len before := by omega
      rw [String.utf8Len_cons, hbytes, List.cons_append, dropBytes?, if_pos hle, hrest, ih]

theorem exists_of_dropBytes? (h : dropBytes? bytes text = some after) :
    ∃ before, before ++ after = text ∧ bytes = String.utf8Len before := by
  fun_induction dropBytes? bytes text with
  | case1 =>
    cases h
    exact ⟨[], rfl, rfl⟩
  | case2 => cases h
  | case3 bytes c text hle ih =>
    obtain ⟨before, happend, hbytes⟩ := ih h
    refine ⟨c :: before, congrArg (c :: ·) happend, ?_⟩
    rw [String.utf8Len_cons]
    omega
  | case4 => cases h

-- A place can be cut at exactly if some part of the source ends there.
theorem remainder?_eq_some_iff {rest : String} :
    cursor.remainder? = some rest ↔
      ∃ before : String, before ++ rest = cursor.source ∧ cursor.offset = before.utf8ByteSize := by
  constructor
  · intro h
    obtain ⟨after, hdrop, rfl⟩ := Option.map_eq_some_iff.mp h
    obtain ⟨before, happend, hoffset⟩ := exists_of_dropBytes? hdrop
    refine ⟨String.ofList before, ?_, by rw [hoffset, String.utf8ByteSize_ofList]⟩
    rw [← String.ofList_append, happend, String.ofList_toList]
  · rintro ⟨before, hsource, hoffset⟩
    have hdrop := dropBytes?_append before.toList rest.toList
    rw [← String.utf8ByteSize_ofList, String.ofList_toList, ← String.toList_append, hsource,
      ← hoffset] at hdrop
    exact Option.map_eq_some_iff.mpr ⟨_, hdrop, String.ofList_toList⟩

theorem isSome_remainder?_iff :
    cursor.remainder?.isSome ↔ (String.Pos.Raw.mk cursor.offset).IsValid cursor.source := by
  rw [String.Pos.Raw.isValid_iff_exists_append, Option.isSome_iff_exists]
  constructor
  · rintro ⟨rest, hrest⟩
    obtain ⟨before, hsource, hoffset⟩ := remainder?_eq_some_iff.mp hrest
    exact ⟨before, rest, hsource.symm, congrArg String.Pos.Raw.mk hoffset⟩
  · rintro ⟨before, rest, hsource, hoffset⟩
    exact ⟨rest, remainder?_eq_some_iff.mpr ⟨before, hsource.symm, congrArg (·.byteIdx) hoffset⟩⟩

theorem atEnd_iff {rest : String} (h : cursor.remainder? = some rest) :
    cursor.atEnd = true ↔ rest = "" := by
  obtain ⟨before, hsource, hoffset⟩ := remainder?_eq_some_iff.mp h
  have hsize : cursor.source.utf8ByteSize = before.utf8ByteSize + rest.utf8ByteSize := by
    rw [← hsource, String.utf8ByteSize_append]
  rw [atEnd, decide_eq_true_iff, ← String.utf8ByteSize_eq_zero_iff]
  omega

theorem remainder?_advance {matched rest : String}
    (h : cursor.remainder? = some (matched ++ rest)) :
    (cursor.advance matched.utf8ByteSize).remainder? = some rest := by
  obtain ⟨before, hsource, hoffset⟩ := remainder?_eq_some_iff.mp h
  refine remainder?_eq_some_iff.mpr ⟨before ++ matched, ?_, ?_⟩
  · rw [String.append_assoc]
    exact hsource
  · rw [String.utf8ByteSize_append, ← hoffset]
    rfl

-- The part of a text between two places, if it can be cut at both of them.
def slice? (text : String) (first last : Nat) : Option String := do
  let front ← remainder? ⟨text, first⟩
  let back ← remainder? ⟨text, last⟩
  if first ≤ last then
    some (String.ofList (front.toList.take (front.toList.length - back.toList.length)))
  else none

theorem slice?_append (before middle after : String) :
    slice? (before ++ middle ++ after) before.utf8ByteSize
      (before.utf8ByteSize + middle.utf8ByteSize) = some middle := by
  have hfront : remainder? ⟨before ++ middle ++ after, before.utf8ByteSize⟩ =
      some (middle ++ after) :=
    remainder?_eq_some_iff.mpr ⟨before, String.append_assoc.symm, rfl⟩
  have hback : remainder? ⟨before ++ middle ++ after, before.utf8ByteSize + middle.utf8ByteSize⟩ =
      some after :=
    remainder?_eq_some_iff.mpr ⟨before ++ middle, rfl, String.utf8ByteSize_append.symm⟩
  have hle : before.utf8ByteSize ≤ before.utf8ByteSize + middle.utf8ByteSize := Nat.le_add_right _ _
  have htake : (middle ++ after).toList.take
      ((middle ++ after).toList.length - after.toList.length) = middle.toList := by
    simp [String.toList_append]
  simp only [slice?, hfront, hback, Option.bind_eq_bind, Option.bind_some, if_pos hle, htake,
    String.ofList_toList]

end SourceCursor

end ScriptFront
