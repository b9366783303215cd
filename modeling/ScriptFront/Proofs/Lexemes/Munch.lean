import ScriptFront.Proofs.Lexemes.First

namespace ScriptFront

namespace Pattern

variable {pattern : Pattern} {c : Char} {text more : List Char}

theorem append_mem_language (h : text ∈ pattern.language)
    (hmore : ∀ c ∈ more, pattern.takes c = true) : text ++ more ∈ pattern.language := by
  cases pattern with
  | word | digits | blanks =>
      obtain ⟨c, tail, rfl, hc, htail⟩ := mem_run.mp h
      exact mem_run.mpr ⟨c, tail ++ more, rfl, hc, List.forall_mem_append.mpr ⟨htail, hmore⟩⟩
  | comment =>
      obtain ⟨tail, rfl, htail⟩ := mem_language_comment.mp h
      refine mem_language_comment.mpr ⟨tail ++ more, rfl, List.forall_mem_append.mpr ⟨htail, ?_⟩⟩
      exact fun c hc => of_decide_eq_true (hmore c hc)
  | quotation | mark =>
      cases more with
      | nil => rwa [List.append_nil]
      | cons c more => cases hmore c List.mem_cons_self

-- Only a mark is part of longer texts of other patterns.
theorem joins_eq_takes (h : pattern.takes c = true) : pattern.joins = pattern.takes := by
  cases pattern with
  | mark kind => cases h
  | _ => rfl

end Pattern

namespace Lexeme

open Pattern

-- The input starts with the lexeme, which may be of any pattern. The patterns have no order here,
-- and a lexeme does not have to end where the next character could not be part of it.
structure Fits (lexeme : Lexeme) (input rest : List Char) : Prop where
  pattern_mem : lexeme.pattern ∈ Pattern.all
  text_mem : lexeme.text ∈ lexeme.pattern.language
  append : lexeme.text ++ rest = input

-- Nothing else that the input could start with is longer.
structure Longest (lexeme : Lexeme) (input rest : List Char) : Prop extends
    lexeme.Fits input rest where
  length_le : ∀ ⦃other rest'⦄, Fits other input rest' → other.text.length ≤ lexeme.text.length

-- Reading a text by its longest lexemes, down to its end or to a character that no lexeme starts
-- with.
inductive Munches : List Char → Except Diagnostic (List Token) → Prop where
  | done : Munches [] (.ok [.eof])
  | stuck {c : Char} {tail : List Char} (h : ∀ lexeme rest, ¬Fits lexeme (c :: tail) rest) :
    Munches (c :: tail) (.error (unrecognised c))
  | longest {lexeme : Lexeme} {input rest : List Char} {result : Except Diagnostic (List Token)}
    (h : lexeme.Longest input rest) (hrest : Munches rest result) :
    Munches input (result.map (lexeme.token?.toList ++ ·))

variable {input rest : List Char} {lexeme : Lexeme}

theorem fits_of_first? (h : first? input = some (lexeme, rest)) : lexeme.Fits input rest := by
  obtain ⟨hpattern, htext, happend, -⟩ := first?_eq_some_iff.mp h
  exact ⟨hpattern, htext, happend⟩

-- With a character behind it that the pattern takes, a text is not all of the lexeme.
theorem first?_of_takes {pattern : Pattern} {text tail : List Char} {c : Char}
    (hpattern : pattern ∈ Pattern.all) (htext : text ∈ pattern.language)
    (htakes : pattern.takes c = true) :
    first? (text ++ c :: tail) =
      some (⟨pattern, text ++ (c :: tail).takeWhile pattern.takes⟩,
        (c :: tail).dropWhile pattern.takes) := by
  let more := (c :: tail).takeWhile pattern.takes
  let rest := (c :: tail).dropWhile pattern.takes
  obtain ⟨hmore, happend, hhead⟩ : (∀ d ∈ more, pattern.takes d = true) ∧
      more ++ rest = c :: tail ∧ ∀ d ∈ rest.head?, pattern.takes d = false :=
    takeWhile_dropWhile_iff.mp ⟨rfl, rfl⟩
  rw [first?_eq_some_iff, joins_eq_takes htakes, List.append_assoc, happend]
  exact ⟨hpattern, append_mem_language htext hmore, rfl, hhead⟩

-- A lexeme that fits and is not the one that is tried first is a part of that one: either it goes
-- on with more characters of its own kind, or it is a mark that a longer lexeme starts with.
theorem Fits.exists_first? (h : lexeme.Fits input rest) :
    ∃ found rest', first? input = some (found, rest') ∧
      (lexeme = found ∨ lexeme.text.length < found.text.length) := by
  obtain ⟨pattern, text⟩ := lexeme
  obtain ⟨hpattern, htext, rfl⟩ := h
  simp only at hpattern htext ⊢
  by_cases hjoins : ∀ c ∈ rest.head?, pattern.joins c = false
  · exact ⟨_, rest, first?_eq_some_iff.mpr ⟨hpattern, htext, rfl, hjoins⟩, .inl rfl⟩
  obtain ⟨c, tail, rfl, hc⟩ : ∃ c tail, rest = c :: tail ∧ pattern.joins c = true := by
    cases rest with
    | nil => exact absurd (fun c hc => by cases hc) hjoins
    | cons c tail => exact ⟨c, tail, rfl, by simpa using hjoins⟩
  cases htakes : pattern.takes c with
  | true =>
      exact ⟨_, _, first?_of_takes hpattern htext htakes, .inr (by simp [htakes])⟩
  | false =>
      cases pattern with
      | mark kind =>
          obtain rfl := mem_singleton.mp htext
          obtain ⟨longer, rest, hfirst, hlength⟩ := first?_of_joins hc tail
          exact ⟨longer, rest, hfirst, .inr hlength⟩
      | _ => exact absurd (htakes.symm.trans hc) (by decide)

theorem first?_eq_some_iff_longest :
    first? input = some (lexeme, rest) ↔ lexeme.Longest input rest := by
  constructor
  · intro h
    refine ⟨fits_of_first? h, fun other rest' hother => ?_⟩
    obtain ⟨found, rest'', hfound, hle⟩ := hother.exists_first?
    rw [h] at hfound
    obtain ⟨rfl, rfl⟩ := Prod.mk.inj (Option.some.inj hfound)
    cases hle with
    | inl heq => rw [heq]
    | inr hlt => exact Nat.le_of_lt hlt
  · intro h
    obtain ⟨found, rest', hfound, hle⟩ := h.toFits.exists_first?
    have hfits := fits_of_first? hfound
    cases hle with
    | inl heq =>
        subst heq
        obtain rfl := List.append_cancel_left (h.append.trans hfits.append.symm)
        exact hfound
    | inr hlt => exact absurd (h.length_le hfits) (Nat.not_le.mpr hlt)

-- So there are no two longest lexemes.
theorem Longest.length_lt (h : lexeme.Longest input rest) {other : Lexeme} {rest' : List Char}
    (hother : other.Fits input rest') (hne : other ≠ lexeme) :
    other.text.length < lexeme.text.length := by
  obtain ⟨found, rest'', hfound, hle⟩ := hother.exists_first?
  rw [first?_eq_some_iff_longest.mpr h] at hfound
  obtain ⟨rfl, rfl⟩ := Prod.mk.inj (Option.some.inj hfound)
  exact hle.resolve_left hne

theorem first?_eq_none_iff : first? input = none ↔ ∀ lexeme rest, ¬Fits lexeme input rest := by
  constructor
  · intro h lexeme rest hfits
    obtain ⟨found, rest', hfound, -⟩ := hfits.exists_first?
    rw [h] at hfound
    cases hfound
  · intro h
    cases hfirst : first? input with
    | none => rfl
    | some found => exact absurd (fits_of_first? hfirst) (h _ _)

theorem munches_tokens (input : List Char) :
    Munches input ((tokens input).map (· ++ [.eof])) := by
  induction hn : input.length using Nat.strongRecOn generalizing input with
  | _ n ih =>
      subst hn
      cases hfirst : first? input with
      | none =>
          cases input with
          | nil =>
              rw [tokens, ofChars_nil]
              exact .done
          | cons c tail =>
              rw [tokens, ofChars_of_first?_eq_none hfirst]
              exact .stuck (first?_eq_none_iff.mp hfirst)
      | some found =>
          obtain ⟨lexeme, rest⟩ := found
          have hrest := ih _ (first?_length_lt hfirst) rest rfl
          have hmunches := Munches.longest (first?_eq_some_iff_longest.mp hfirst) hrest
          rw [tokens_of_first? hfirst]
          cases htokens : tokens rest <;> simpa [Except.map, htokens] using hmunches

theorem Munches.eq_tokens {result : Except Diagnostic (List Token)} (h : Munches input result) :
    result = (tokens input).map (· ++ [.eof]) := by
  induction h with
  | done =>
      rw [tokens, ofChars_nil]
      rfl
  | stuck h =>
      rw [tokens, ofChars_of_first?_eq_none (first?_eq_none_iff.mpr h)]
      rfl
  | @longest _ _ rest _ h _ ih =>
      rw [tokens_of_first? (first?_eq_some_iff_longest.mpr h), ih]
      cases tokens rest <;> simp [Except.map]

end Lexeme

-- Trying the patterns in their order comes to the same as taking the longest lexeme of any
-- pattern. At each place the lexeme that is tried first is longer than everything else that fits.
theorem tokenize_eq_iff_munches (source : String) (result : Except Diagnostic (List Token)) :
    (tokenize source = result ↔ Lexeme.Munches source.toList result) ∧
      ∀ input rest lexeme, Lexeme.first? input = some (lexeme, rest) ↔
        lexeme.Fits input rest ∧ ∀ other rest', Lexeme.Fits other input rest' →
          other ≠ lexeme → other.text.length < lexeme.text.length := by
  refine ⟨?_, fun input rest lexeme => ?_⟩
  · rw [tokenize_eq_map_tokens]
    constructor
    · rintro rfl
      exact Lexeme.munches_tokens source.toList
    · intro h
      exact h.eq_tokens.symm
  · rw [Lexeme.first?_eq_some_iff_longest]
    constructor
    · exact fun h => ⟨h.toFits, fun other rest' hother hne => h.length_lt hother hne⟩
    · rintro ⟨hfits, hlt⟩
      refine ⟨hfits, fun other rest' hother => ?_⟩
      by_cases hne : other = lexeme
      · rw [hne]
      · exact Nat.le_of_lt (hlt other rest' hother hne)

end ScriptFront
