import ScriptFront.Proofs.Lexemes.Language

namespace ScriptFront

namespace Pattern

-- Whether a character behind a text of the pattern would be read together with it, as part of a
-- longer text of this pattern or of another one.
def joins : Pattern → Char → Bool
  | .mark kind, c => kind.joins c
  | pattern, c => pattern.takes c

-- The characters that the texts of a pattern start with.
def opens : Pattern → Char → Bool
  | .word, c => isWordStart c
  | .digits, c => c.isDigit
  | .blanks, c => Text.isBlank c
  | .quotation, c => c = '"'
  | .comment, c => c = '/'
  | .mark kind, c => kind.spelling.toList.head? = some c

variable {pattern : Pattern} {c : Char} {text tail : List Char}

theorem takes_eq_false_of_joins (h : pattern.joins c = false) : pattern.takes c = false := by
  cases pattern with
  | mark kind => rfl
  | _ => exact h

theorem opens_of_mem_language (h : c :: text ∈ pattern.language) : pattern.opens c = true := by
  cases pattern with
  | word | digits | blanks =>
      obtain ⟨d, tail, heq, hd, -⟩ := mem_run.mp h
      obtain ⟨rfl, -⟩ := List.cons.inj heq
      exact hd
  | quotation =>
      obtain ⟨_, rfl, body, -, heq⟩ := h
      obtain ⟨rfl, -⟩ := List.cons.inj heq
      rfl
  | comment =>
      obtain ⟨tail, heq, -⟩ := mem_language_comment.mp h
      obtain ⟨rfl, -⟩ := List.cons.inj heq
      rfl
  | mark kind => simp [opens, ← mem_singleton.mp h]

theorem split?_eq_none (h : pattern.opens c = false) : pattern.split? (c :: tail) = none := by
  cases hsplit : pattern.split? (c :: tail) with
  | none => rfl
  | some found =>
      obtain ⟨text, rest⟩ := found
      obtain ⟨htext, happend, -⟩ := split?_eq_some_iff.mp hsplit
      cases text with
      | nil => exact absurd rfl (language_ne_nil htext)
      | cons d text =>
          obtain ⟨rfl, -⟩ := List.cons.inj happend
          rw [opens_of_mem_language htext] at h
          cases h

theorem isWordPart_of_isBlank (hc : Text.isBlank c = true) : isWordPart c = false := by
  refine Bool.eq_false_iff.mpr fun hpart => ?_
  obtain ⟨hblank, -⟩ := opens_of_isWordPart hpart
  rw [hc] at hblank
  cases hblank

end Pattern

namespace Lexeme

open Pattern

variable {input rest : List Char} {lexeme : Lexeme}

-- A mark that goes on with the next character is not what is tried first.
theorem first?_of_joins {kind : TokenKind} {c : Char} (h : kind.joins c = true)
    (tail : List Char) :
    ∃ longer rest, first? (kind.spelling.toList ++ c :: tail) = some (longer, rest) ∧
      kind.spelling.toList.length < longer.text.length := by
  cases kind with
  | not | assignment =>
      obtain rfl : c = '=' := of_decide_eq_true h
      exact ⟨_, tail, rfl, by decide⟩
  | slash =>
      obtain rfl : c = '/' := of_decide_eq_true h
      exact ⟨_, _, rfl, by simp [TokenKind.spelling]⟩
  | _ => cases h

-- The patterns that are tried before one that fits do not fit, unless it is a mark that a longer
-- text starts with.
theorem first?_of_split? (hpattern : lexeme.pattern ∈ Pattern.all)
    (h : lexeme.pattern.split? input = some (lexeme.text, rest))
    (hrest : ∀ c ∈ rest.head?, lexeme.pattern.joins c = false) :
    first? input = some (lexeme, rest) := by
  obtain ⟨pattern, text⟩ := lexeme
  obtain ⟨htext, rfl, -⟩ := split?_eq_some_iff.mp h
  simp only at h hpattern hrest htext ⊢
  cases pattern with
  | word => simp [first?, Pattern.all, h]
  | digits =>
      obtain ⟨c, tail, rfl, hc, -⟩ := mem_run.mp htext
      have hword : Pattern.word.opens c = false := isWordStart_of_isDigit hc
      rw [List.cons_append] at h ⊢
      simp [first?, Pattern.all, h, split?_eq_none hword]
  | blanks =>
      obtain ⟨c, tail, rfl, hc, -⟩ := mem_run.mp htext
      have hpart := isWordPart_of_isBlank hc
      have hword : Pattern.word.opens c = false :=
        Bool.eq_false_iff.mpr fun hstart => by simp [isWordPart_of_isWordStart hstart] at hpart
      have hdigit : Pattern.digits.opens c = false :=
        Bool.eq_false_iff.mpr fun hdigit => by simp [isWordPart_of_isDigit hdigit] at hpart
      rw [List.cons_append] at h ⊢
      simp [first?, Pattern.all, h, split?_eq_none hword, split?_eq_none hdigit]
  | quotation =>
      obtain ⟨_, rfl, body, -, rfl⟩ := htext
      have hearlier : ∀ p ∈ [Pattern.word, .digits, .blanks], p.opens '"' = false := by decide
      simp only [List.cons_append, List.nil_append, List.forall_mem_cons] at h hearlier ⊢
      simp [first?, Pattern.all, h, split?_eq_none, hearlier]
  | comment =>
      obtain ⟨tail, rfl, -⟩ := mem_language_comment.mp htext
      have hearlier : ∀ p ∈ [Pattern.word, .digits, .blanks, .quotation], p.opens '/' = false := by
        decide
      simp only [List.cons_append, List.forall_mem_cons] at h hearlier ⊢
      simp [first?, Pattern.all, h, split?_eq_none, hearlier]
  | mark kind =>
      obtain rfl := mem_singleton.mp htext
      exact first?_mark hpattern hrest

-- The lexeme that is tried first is told from all others by what it is and by the character behind
-- it. No order of the patterns is left in this.
theorem first?_eq_some_iff :
    first? input = some (lexeme, rest) ↔
      lexeme.pattern ∈ Pattern.all ∧ lexeme.text ∈ lexeme.pattern.language ∧
        lexeme.text ++ rest = input ∧ ∀ c ∈ rest.head?, lexeme.pattern.joins c = false := by
  constructor
  · intro h
    obtain ⟨pattern, hpattern, hmap⟩ := List.exists_of_findSome?_eq_some h
    obtain ⟨⟨text, after⟩, -, heq⟩ := Option.map_eq_some_iff.mp hmap
    obtain ⟨rfl, rfl⟩ := Prod.mk.inj heq
    obtain ⟨htext, happend, htakes⟩ := split?_eq_some_iff.mp (split?_of_first? h)
    refine ⟨hpattern, htext, happend, fun c hc => ?_⟩
    cases pattern with
    | mark kind =>
        refine Bool.eq_false_iff.mpr fun hjoins => ?_
        obtain ⟨tail, rfl⟩ : ∃ tail, after = c :: tail := List.head?_eq_some_iff.mp hc
        obtain ⟨longer, rest, hlonger, hlength⟩ := first?_of_joins hjoins tail
        obtain rfl := mem_singleton.mp htext
        rw [← happend, hlonger] at h
        obtain ⟨rfl, rfl⟩ := Prod.mk.inj (Option.some.inj h)
        exact absurd hlength (Nat.lt_irrefl _)
    | _ => exact htakes c hc
  · rintro ⟨hpattern, htext, happend, hjoins⟩
    refine first?_of_split? hpattern (split?_eq_some_iff.mpr ⟨htext, happend, ?_⟩) hjoins
    exact fun c hc => takes_eq_false_of_joins (hjoins c hc)

end Lexeme

theorem tokenize_eq_map_tokens (source : String) :
    tokenize source = (Lexeme.tokens source.toList).map (· ++ [.eof]) := by
  unfold tokenize Lexeme.tokens
  cases Lexeme.ofChars source.toList <;> rfl

theorem tokenize_eq_ok_iff {source : String} {tokens : List Token} :
    tokenize source = .ok tokens ↔ ∃ lexemes, Lexeme.ofChars source.toList = .ok lexemes ∧
      tokens = lexemes.filterMap Lexeme.token? ++ [.eof] := by
  unfold tokenize
  cases Lexeme.ofChars source.toList with
  | error diagnostic =>
      constructor
      · intro h
        cases h
      · rintro ⟨_, hlexemes, -⟩
        cases hlexemes
  | ok lexemes =>
      constructor
      · intro h
        cases h
        exact ⟨lexemes, rfl, rfl⟩
      · rintro ⟨_, hlexemes, rfl⟩
        cases hlexemes
        rfl

theorem tokenize_eq_error_iff {source : String} {diagnostic : Diagnostic} :
    tokenize source = .error diagnostic ↔ Lexeme.ofChars source.toList = .error diagnostic := by
  unfold tokenize
  cases Lexeme.ofChars source.toList with
  | error diagnostic' => constructor <;> intro h <;> cases h <;> rfl
  | ok lexemes => constructor <;> intro h <;> cases h

end ScriptFront
