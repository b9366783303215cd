import ScriptFront.Proofs.Lexemes.First

namespace ScriptFront

-- No lexeme but blanks goes on over the end of a line.
theorem Pattern.joins_lineFeed {pattern : Pattern} (h : pattern ≠ .blanks) :
    pattern.joins '\n' = false := by
  cases pattern with
  | blanks => exact absurd rfl h
  | mark kind => cases kind <;> decide
  | _ => decide

namespace Lexeme

open Pattern

variable {input rest blanks : List Char} {lexeme : Lexeme} {lexemes : List Lexeme}

-- What holds of no lexemes, and is handed back from the lexemes behind one to all of them, holds of
-- the lexemes of every input that can be read.
theorem ofChars_induction {motive : List Char → List Lexeme → Prop} (done : motive [] [])
    (more : ∀ {input rest lexeme lexemes}, first? input = some (lexeme, rest) →
      motive rest lexemes → motive input (lexeme :: lexemes))
    (h : ofChars input = .ok lexemes) : motive input lexemes := by
  induction hn : input.length using Nat.strongRecOn generalizing input lexemes with
  | _ n ih =>
      subst hn
      cases hfirst : first? input with
      | none =>
          cases input with
          | nil =>
              rw [ofChars_nil] at h
              cases h
              exact done
          | cons c tail =>
              rw [ofChars_of_first?_eq_none hfirst] at h
              cases h
      | some found =>
          obtain ⟨lexeme, rest⟩ := found
          rw [ofChars_of_first?_eq_some hfirst] at h
          cases hrest : ofChars rest with
          | error diagnostic =>
              rw [hrest] at h
              cases h
          | ok further =>
              rw [hrest] at h
              cases h
              exact more hfirst (ih _ (first?_length_lt hfirst) hrest rfl)

theorem ofChars_cons (h : first? input = some (lexeme, rest)) (hrest : ofChars rest = .ok lexemes) :
    ofChars input = .ok (lexeme :: lexemes) := by
  rw [ofChars_of_first?_eq_some h, hrest]
  rfl

theorem tokens_of_run (hblanks : ∀ c ∈ blanks, Text.isBlank c = true)
    (hrest : ∀ c ∈ rest.head?, Text.isBlank c = false) :
    tokens (blanks ++ rest) = tokens rest := by
  cases blanks with
  | nil => rfl
  | cons c blanks =>
      obtain ⟨hc, hblanks⟩ := List.forall_mem_cons.mp hblanks
      have hmem : Pattern.blanks ∈ Pattern.all := by decide
      have hfirst : first? (c :: blanks ++ rest) = some (⟨.blanks, c :: blanks⟩, rest) :=
        first?_eq_some_iff.mpr ⟨hmem, mem_run.mpr ⟨c, blanks, rfl, hc, hblanks⟩, rfl, hrest⟩
      rw [tokens_of_first? hfirst]
      cases tokens rest <;> rfl

-- Blanks in front of an input make no difference, also when it starts with blanks of its own.
theorem tokens_append_blanks (h : ∀ c ∈ blanks, Text.isBlank c = true) (rest : List Char) :
    tokens (blanks ++ rest) = tokens rest := by
  let more := rest.takeWhile Text.isBlank
  let after := rest.dropWhile Text.isBlank
  obtain ⟨hmore, happend, hafter⟩ : (∀ c ∈ more, Text.isBlank c = true) ∧ more ++ after = rest ∧
      ∀ c ∈ after.head?, Text.isBlank c = false := takeWhile_dropWhile_iff.mp ⟨rfl, rfl⟩
  have hall : ∀ c ∈ blanks ++ more, Text.isBlank c = true := List.forall_mem_append.mpr ⟨h, hmore⟩
  calc
    tokens (blanks ++ rest) = tokens (blanks ++ more ++ after) := by rw [List.append_assoc, happend]
    _ = tokens after := tokens_of_run hall hafter
    _ = tokens (more ++ after) := (tokens_of_run hmore hafter).symm
    _ = tokens rest := by rw [happend]

theorem first?_append_lineFeed (h : first? input = some (lexeme, rest))
    (hblanks : lexeme.pattern ≠ .blanks) (tail : List Char) :
    first? (input ++ '\n' :: tail) = some (lexeme, rest ++ '\n' :: tail) := by
  obtain ⟨hpattern, htext, happend, hjoins⟩ := first?_eq_some_iff.mp h
  refine first?_eq_some_iff.mpr ⟨hpattern, htext, ?_, ?_⟩
  · rw [← happend, List.append_assoc]
  · cases rest with
    | nil =>
        rintro c ⟨⟩
        exact joins_lineFeed hblanks
    | cons c rest => exact hjoins

-- What is read up to the end of a line does not depend on what stands in the next one.
theorem tokens_append_lineFeed (h : ofChars input = .ok lexemes) (tail : List Char) :
    tokens (input ++ '\n' :: tail) = (tokens tail).map (lexemes.filterMap token? ++ ·) := by
  refine ofChars_induction (motive := fun input lexemes => tokens (input ++ '\n' :: tail) =
    (tokens tail).map (lexemes.filterMap token? ++ ·)) ?_ ?_ h
  · rw [List.nil_append, ← List.singleton_append, tokens_append_blanks (List.all_eq_true.mp rfl)]
    cases tokens tail <;> rfl
  · intro input rest lexeme lexemes hfirst ih
    by_cases hblanks : lexeme.pattern = .blanks
    · -- the blanks may go on in the next line
      obtain ⟨pattern, text⟩ := lexeme
      obtain ⟨-, htext, happend, -⟩ := first?_eq_some_iff.mp hfirst
      subst hblanks
      obtain ⟨c, more, rfl, hc, hmore⟩ := mem_run.mp htext
      have hall : ∀ d ∈ c :: more, Text.isBlank d = true := List.forall_mem_cons.mpr ⟨hc, hmore⟩
      rw [← happend, List.append_assoc, tokens_append_blanks hall, ih]
      rfl
    · rw [tokens_of_first? (first?_append_lineFeed hfirst hblanks tail), ih]
      cases htoken : lexeme.token? <;> cases tokens tail <;> simp [Except.map, htoken]

end Lexeme

-- A source that can be read, with another one in the lines behind it, is read as the tokens of the
-- first and then whatever comes of the second.
theorem tokenize_append_lineFeed {first : String} {tokens : List Token} (second : String)
    (h : tokenize first = .ok (tokens ++ [.eof])) :
    tokenize (first ++ "\n" ++ second) = (tokenize second).map (tokens ++ ·) := by
  obtain ⟨lexemes, hlexemes, htokens⟩ : ∃ lexemes, Lexeme.ofChars first.toList = .ok lexemes ∧
      lexemes.filterMap Lexeme.token? = tokens := by
    unfold tokenize at h
    cases hlexemes : Lexeme.ofChars first.toList with
    | error diagnostic =>
        rw [hlexemes] at h
        cases h
    | ok lexemes =>
        rw [hlexemes] at h
        exact ⟨lexemes, rfl, List.append_cancel_right (Except.ok.inj h)⟩
  have hrest := Lexeme.tokens_append_lineFeed hlexemes second.toList
  rw [tokenize_eq_map_tokens, tokenize_eq_map_tokens, String.toList_append, String.toList_append,
    List.append_assoc]
  change (Lexeme.tokens (first.toList ++ '\n' :: second.toList)).map _ = _
  rw [hrest, htokens]
  cases Lexeme.tokens second.toList <;> simp [Except.map]

-- A comment, an operator and a quotation in front of lines that would have made more of them.
theorem tokenize_append_lineFeed_unfinished :
    let first := "\"a\\\"\" ! / // b"
    let tokens : List Token := [⟨.string, "a\""⟩, ⟨.not, "!"⟩, ⟨.slash, "/"⟩]
    tokenize first = .ok (tokens ++ [.eof]) ∧
      tokenize (first ++ "\n" ++ "= c") = (tokenize "= c").map (tokens ++ ·) ∧
      tokenize (first ++ "\n" ++ "\"c") = .error (Lexeme.unrecognised '"') := by
  intro first tokens
  have hlexemes : Lexeme.ofChars "\"a\\\"\" ! / // b".toList =
      .ok [⟨.quotation, "\"a\\\"\"".toList⟩, ⟨.blanks, [' ']⟩, ⟨.mark .not, ['!']⟩,
        ⟨.blanks, [' ']⟩, ⟨.mark .slash, ['/']⟩, ⟨.blanks, [' ']⟩, ⟨.comment, "// b".toList⟩] := by
    iterate 7 refine Lexeme.ofChars_cons rfl ?_
    exact Lexeme.ofChars_nil
  have hopen : Lexeme.ofChars "\"c".toList = .error (Lexeme.unrecognised '"') :=
    Lexeme.ofChars_of_first?_eq_none (c := '"') rfl
  have h : tokenize "\"a\\\"\" ! / // b" = .ok (tokens ++ [.eof]) := by
    rw [tokenize, hlexemes]
    rfl
  refine ⟨h, tokenize_append_lineFeed _ h, ?_⟩
  rw [tokenize_append_lineFeed _ h, tokenize, hopen]
  rfl

end ScriptFront
