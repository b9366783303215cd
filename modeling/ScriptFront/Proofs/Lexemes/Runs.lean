import ScriptFront.Proofs.Lexemes.First

namespace ScriptFront.Lexeme

-- The lexemes are read off the front of the input, one after another, and leave the rest.
inductive Run : List Char → List Lexeme → List Char → Prop where
  | nil (rest : List Char) : Run rest [] rest
  | cons {input after rest : List Char} {lexeme : Lexeme} {lexemes : List Lexeme}
    (first : first? input = some (lexeme, after)) (run : Run after lexemes rest) :
    Run input (lexeme :: lexemes) rest

variable {input rest rest' : List Char} {lexeme : Lexeme} {lexemes : List Lexeme}
  {diagnostic : Diagnostic}

-- A lexeme is read the same way in front of anything else, if that starts like what was there or is
-- nothing.
theorem first?_of_head (h : first? input = some (lexeme, rest))
    (hhead : ∀ c ∈ rest'.head?, c ∈ rest.head?) :
    first? (lexeme.text ++ rest') = some (lexeme, rest') := by
  obtain ⟨hpattern, htext, -, hjoins⟩ := first?_eq_some_iff.mp h
  exact first?_eq_some_iff.mpr ⟨hpattern, htext, rfl, fun c hc => hjoins c (hhead c hc)⟩

namespace Run

theorem append (h : Run input lexemes rest) : lexemes.flatMap Lexeme.text ++ rest = input := by
  induction h with
  | nil rest => rfl
  | cons hfirst _ ih =>
      obtain ⟨-, -, happend, -⟩ := first?_eq_some_iff.mp hfirst
      rw [List.flatMap_cons, List.append_assoc, ih, happend]

theorem forall_mem (h : Run input lexemes rest) :
    ∀ lexeme ∈ lexemes, lexeme.pattern ∈ Pattern.all ∧
      lexeme.text ∈ lexeme.pattern.language := by
  induction h with
  | nil rest => simp
  | cons hfirst _ ih =>
      obtain ⟨hpattern, htext, -, -⟩ := first?_eq_some_iff.mp hfirst
      exact List.forall_mem_cons.mpr ⟨⟨hpattern, htext⟩, ih⟩

theorem ofChars_eq (h : Run input lexemes rest) :
    ofChars input = (ofChars rest).map (lexemes ++ ·) := by
  induction h with
  | nil rest => cases ofChars rest <;> rfl
  | @cons _ _ rest _ _ hfirst _ ih =>
      rw [ofChars_of_first?_eq_some hfirst, ih]
      cases ofChars rest <;> rfl

-- The lexemes in front are the same ones if what they leave goes on in another way or is not there.
theorem of_head (h : Run input lexemes rest) (hhead : ∀ c ∈ rest'.head?, c ∈ rest.head?) :
    Run (lexemes.flatMap Lexeme.text ++ rest') lexemes rest' := by
  induction h with
  | nil rest => exact .nil rest'
  | @cons _ after rest lexeme lexemes hfirst hrun ih =>
      have hafter : ∀ c ∈ (lexemes.flatMap Lexeme.text ++ rest').head?, c ∈ after.head? := by
        rw [← hrun.append]
        cases lexemes.flatMap Lexeme.text with
        | nil => exact hhead
        | cons d text => exact fun c hc => hc
      rw [List.flatMap_cons, List.append_assoc]
      exact .cons (first?_of_head hfirst hafter) (ih hhead)

end Run

-- There is less left with every lexeme, so there is a last one.
theorem exists_run (input : List Char) :
    ∃ lexemes rest, Run input lexemes rest ∧ first? rest = none := by
  induction hn : input.length using Nat.strongRecOn generalizing input with
  | _ n ih =>
      subst hn
      cases hfirst : first? input with
      | none => exact ⟨[], input, .nil input, hfirst⟩
      | some found =>
          obtain ⟨lexeme, after⟩ := found
          obtain ⟨lexemes, rest, hrun, hlast⟩ := ih _ (first?_length_lt hfirst) after rfl
          exact ⟨lexeme :: lexemes, rest, .cons hfirst hrun, hlast⟩

theorem run_of_ok (h : ofChars input = .ok lexemes) : Run input lexemes [] := by
  obtain ⟨found, rest, hrun, hlast⟩ := exists_run input
  rw [hrun.ofChars_eq] at h
  cases rest with
  | nil =>
      rw [ofChars_nil] at h
      obtain rfl : found ++ [] = lexemes := Except.ok.inj h
      rwa [List.append_nil]
  | cons c tail =>
      rw [ofChars_of_first?_eq_none hlast] at h
      cases h

theorem exists_run_of_error (h : ofChars input = .error diagnostic) :
    ∃ lexemes c tail, Run input lexemes (c :: tail) ∧ first? (c :: tail) = none ∧
      diagnostic = unrecognised c := by
  obtain ⟨lexemes, rest, hrun, hlast⟩ := exists_run input
  rw [hrun.ofChars_eq] at h
  cases rest with
  | nil =>
      rw [ofChars_nil] at h
      cases h
  | cons c tail =>
      rw [ofChars_of_first?_eq_none hlast] at h
      cases h
      exact ⟨lexemes, c, tail, hrun, hlast, rfl⟩

end ScriptFront.Lexeme
