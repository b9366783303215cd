import ScriptFront.Lexeme
import ScriptFront.Proofs.Spelling.Basic
import ScriptFront.Proofs.Spelling.Taken

namespace ScriptFront

-- Whether a mark would be read as more than itself before a character.
def TokenKind.joins (kind : TokenKind) (c : Char) : Bool :=
  match kind with
  | .not | .assignment => c = '='
  | .slash => c = '/'
  | _ => false

-- The marks that stand by themselves wherever they stand in a canonical text.
def TokenKind.punctuation : List TokenKind :=
  [openBracket, closeBracket, openParen, closeParen, dot, semicolon, comma]

namespace Pattern

variable {c : Char} {text rest : List Char}

theorem toNat_of_isAlpha (hc : c.isAlpha = true) : 65 ≤ c.toNat ∧ c.toNat ≤ 122 := by
  have hval : c.val.toNat = c.toNat := rfl
  change (decide (c.val ≥ 'A'.val ∧ c.val ≤ 'Z'.val) ||
    (decide (c.val ≥ 'a'.val) && decide (c.val ≤ 'z'.val))) = true at hc
  simp [UInt32.le_iff_toNat_le] at hc
  omega

theorem toNat_of_isDigit (hc : c.isDigit = true) : 48 ≤ c.toNat ∧ c.toNat ≤ 57 :=
  Char.isDigit_iff_toNat.mp hc

theorem isWordStart_of_isDigit (hc : c.isDigit = true) : isWordStart c = false := by
  obtain ⟨-, hhigh⟩ := toNat_of_isDigit hc
  have hne : c ≠ '_' := by
    rintro rfl
    exact absurd hc (by decide)
  have halpha : c.isAlpha = false := by
    refine Bool.eq_false_iff.mpr fun halpha => ?_
    obtain ⟨hlow, -⟩ := toNat_of_isAlpha halpha
    omega
  simp [isWordStart, halpha, hne]

theorem isWordPart_of_isDigit (hc : c.isDigit = true) : isWordPart c = true := by
  simp [isWordPart, Char.isAlphanum, hc]

theorem isWordPart_of_isWordStart (hc : isWordStart c = true) : isWordPart c = true := by
  simp only [isWordStart, Bool.or_eq_true] at hc
  simp only [isWordPart, Char.isAlphanum, Bool.or_eq_true]
  exact hc.imp_left .inl

theorem toNat_of_isWordPart (hc : isWordPart c = true) : 48 ≤ c.toNat ∧ c.toNat ≤ 122 := by
  simp only [isWordPart, Char.isAlphanum, Bool.or_eq_true, beq_iff_eq] at hc
  obtain (halpha | hdigit) | rfl := hc
  · obtain ⟨hlow, hhigh⟩ := toNat_of_isAlpha halpha
    omega
  · obtain ⟨hlow, hhigh⟩ := toNat_of_isDigit hdigit
    omega
  · decide

-- A character that is read apart from a space or a negation in front of it.
def Opens (c : Char) : Prop :=
  Text.isBlank c = false ∧ c ≠ '='

instance (c : Char) : Decidable (Opens c) :=
  inferInstanceAs (Decidable (_ ∧ _))

theorem opens_of_isWordPart (hc : isWordPart c = true) : Opens c := by
  obtain ⟨hlow, hhigh⟩ := toNat_of_isWordPart hc
  constructor
  · simp [Text.isBlank, Text.Ranges.covers, Text.blankRanges]
    omega
  · rintro rfl
    exact absurd hc (by decide)

-- Nothing that a word could go on with.
def Apart (rest : List Char) : Prop :=
  ∀ c ∈ rest.head?, isWordPart c = false

theorem apart_punctuation {kind : TokenKind} (hkind : kind ∈ TokenKind.punctuation)
    (rest : List Char) : Apart (kind.spelling.toList ++ rest) := by
  revert hkind
  cases kind <;> simp [TokenKind.spelling, TokenKind.punctuation, Apart] <;> decide

theorem takeWhile_append_of_head {inClass : Char → Bool} (htext : ∀ c ∈ text, inClass c = true)
    (hrest : ∀ c ∈ rest.head?, inClass c = false) :
    (text ++ rest).takeWhile inClass = text ∧ (text ++ rest).dropWhile inClass = rest := by
  rw [List.takeWhile_append_of_pos htext, List.dropWhile_append_of_pos htext]
  cases rest with
  | nil => simp
  | cons c rest => simp [hrest c rfl]

end Pattern

namespace Token

-- The text of the token is a lexeme of the pattern on its own, and the token is what it gives.
def IsLexeme (token : Token) (pattern : Pattern) : Prop :=
  pattern.split? token.literal.toList = some (token.literal.toList, []) ∧
    pattern.token? token.literal.toList = some token

instance (token : Token) (pattern : Pattern) : Decidable (token.IsLexeme pattern) :=
  inferInstanceAs (Decidable (_ ∧ _))

variable {token : Token}

theorem IsLexeme.word (h : token.IsLexeme .word) :
    ∃ c text, token.literal.toList = c :: text ∧ Pattern.isWordStart c = true ∧
      ∀ c ∈ text, Pattern.isWordPart c = true := by
  obtain ⟨hsplit, -⟩ := h
  cases htext : token.literal.toList with
  | nil =>
      rw [htext] at hsplit
      cases hsplit
  | cons c text =>
      simp only [htext, Pattern.split?, Option.ite_none_right_eq_some, Option.some.injEq,
        Prod.mk.injEq, List.cons.injEq, true_and] at hsplit
      obtain ⟨hc, htake, -⟩ := hsplit
      refine ⟨c, text, rfl, hc, fun d hd => ?_⟩
      rw [← htake] at hd
      exact List.all_eq_true.mp List.all_takeWhile d hd

theorem IsLexeme.digits (h : token.IsLexeme .digits) :
    ∃ c text, token.literal.toList = c :: text ∧ c.isDigit = true ∧
      ∀ c ∈ text, c.isDigit = true := by
  obtain ⟨hsplit, -⟩ := h
  cases htext : token.literal.toList with
  | nil =>
      rw [htext] at hsplit
      cases hsplit
  | cons c text =>
      simp only [htext, Pattern.split?, Pattern.run?, Option.ite_none_right_eq_some,
        Option.some.injEq, Prod.mk.injEq] at hsplit
      obtain ⟨hc, htake, -⟩ := hsplit
      refine ⟨c, text, rfl, hc, fun d hd => ?_⟩
      have hmem : d ∈ (c :: text).takeWhile Char.isDigit := by
        rw [htake]
        exact List.mem_cons_of_mem _ hd
      exact List.all_eq_true.mp List.all_takeWhile d hmem

theorem IsLexeme.kind_of_digits (h : token.IsLexeme .digits) : token.kind = .integer := by
  have htoken := h.2
  simp only [Pattern.token?, Option.some.injEq] at htoken
  rw [← htoken]

end Token

namespace Lexeme

open Pattern

variable {rest : List Char} {token : Token}

theorem first?_word (h : token.IsLexeme .word) (hrest : Apart rest) :
    first? (token.literal.toList ++ rest) = some (⟨.word, token.literal.toList⟩, rest) := by
  obtain ⟨c, text, htext, hc, hpart⟩ := h.word
  obtain ⟨htake, hdrop⟩ := takeWhile_append_of_head hpart hrest
  simp [first?, Pattern.all, Pattern.split?, htext, hc, htake, hdrop]

theorem first?_digits (h : token.IsLexeme .digits) (hrest : Apart rest) :
    first? (token.literal.toList ++ rest) = some (⟨.digits, token.literal.toList⟩, rest) := by
  obtain ⟨c, text, htext, hc, hdigit⟩ := h.digits
  have hboundary : ∀ d ∈ rest.head?, d.isDigit = false := by
    intro d hd
    refine Bool.eq_false_iff.mpr fun hdigit => ?_
    exact absurd (isWordPart_of_isDigit hdigit) (by simp [hrest d hd])
  obtain ⟨htake, hdrop⟩ := takeWhile_append_of_head hdigit hboundary
  simp [first?, Pattern.all, Pattern.split?, run?, htext, hc, isWordStart_of_isDigit hc, htake,
    hdrop]

theorem first?_space (hrest : ∀ c ∈ rest.head?, Text.isBlank c = false) :
    first? (' ' :: rest) = some (⟨.blanks, [' ']⟩, rest) := by
  have hspace : ∀ c ∈ [' '], Text.isBlank c = true := by simp; decide
  obtain ⟨htake, hdrop⟩ := takeWhile_append_of_head hspace hrest
  have hword : isWordStart ' ' = false := by decide
  have hdigit : ' '.isDigit = false := by decide
  simp only [List.cons_append, List.nil_append] at htake hdrop
  simp [first?, Pattern.all, Pattern.split?, run?, hword, hdigit, hspace, htake, hdrop]

theorem first?_mark {kind : TokenKind} (hkind : Pattern.mark kind ∈ Pattern.all)
    (hrest : ∀ c ∈ rest.head?, kind.joins c = false) :
    first? (kind.spelling.toList ++ rest) = some (⟨.mark kind, kind.spelling.toList⟩, rest) := by
  cases kind with
  -- longer lexemes that start with the same character are tried first
  | not | assignment | slash =>
      cases rest with
      | nil => rfl
      | cons c rest =>
          have hc := hrest c rfl
          simp only [TokenKind.joins, decide_eq_false_iff_not] at hc
          simp +decide [first?, Pattern.all, Pattern.split?, run?, fixed?, TokenKind.spelling, hc,
            Ne.symm hc]
  | eof | illegal | integer | string | identifier | kwLet | kwReturn | kwFn | kwTrue | kwFalse
  | kwIf | kwElse | kwWhile => exact absurd hkind (by decide)
  | _ => rfl

-- The tokens of an input, without the one that closes it.
def tokens (input : List Char) : Except Diagnostic (List Token) :=
  (ofChars input).map (List.filterMap token?)

theorem tokens_of_first? {input : List Char} {lexeme : Lexeme}
    (h : first? input = some (lexeme, rest)) :
    tokens input = (tokens rest).map (lexeme.token?.toList ++ ·) := by
  unfold tokens
  rw [ofChars_of_first?_eq_some h]
  cases ofChars rest with
  | error diagnostic => rfl
  | ok lexemes => cases htoken : lexeme.token? <;> simp [Except.map, htoken]

-- Before the rest, the text is read as these tokens, and the rest as if it stood alone.
def Yields (text : String) (ts : List Token) (rest : List Char) : Prop :=
  tokens (text.toList ++ rest) = (tokens rest).map (ts ++ ·)

namespace Yields

variable {text text' : String} {ts ts' : List Token}

theorem of_first? {lexeme : Lexeme} (h : first? (text.toList ++ rest) = some (lexeme, rest)) :
    Yields text lexeme.token?.toList rest :=
  tokens_of_first? h

theorem nil (rest : List Char) : Yields "" [] rest := by
  unfold Yields
  cases htokens : tokens rest <;> simp [Except.map, htokens]

theorem append (h : Yields text ts (text'.toList ++ rest)) (h' : Yields text' ts' rest) :
    Yields (text ++ text') (ts ++ ts') rest := by
  unfold Yields at h h' ⊢
  rw [String.toList_append, List.append_assoc, h, h']
  cases tokens rest <;> simp [Except.map]

theorem word (h : token.IsLexeme .word) (hrest : Apart rest) :
    Yields token.literal [token] rest := by
  have hyields := of_first? (first?_word h hrest)
  simpa only [Lexeme.token?, h.2, Option.toList_some] using hyields

theorem digits (h : token.IsLexeme .digits) (hrest : Apart rest) :
    Yields token.literal [token] rest := by
  have hyields := of_first? (first?_digits h hrest)
  simpa only [Lexeme.token?, h.2, Option.toList_some] using hyields

theorem space (hrest : ∀ c ∈ rest.head?, Text.isBlank c = false) : Yields " " [] rest := by
  have hfirst : first? (" ".toList ++ rest) = some (⟨.blanks, [' ']⟩, rest) := first?_space hrest
  exact of_first? hfirst

theorem mark {kind : TokenKind} (hkind : Pattern.mark kind ∈ Pattern.all)
    (hrest : ∀ c ∈ rest.head?, kind.joins c = false) :
    Yields kind.spelling [.fixed kind] rest :=
  of_first? (first?_mark hkind hrest)

theorem punctuation (kind : TokenKind) (hkind : kind ∈ TokenKind.punctuation)
    (rest : List Char) : Yields kind.spelling [.fixed kind] rest := by
  refine .mark ?_ fun c _ => ?_
  · revert hkind
    cases kind <;> decide
  · revert hkind
    cases kind <;> simp [TokenKind.joins, TokenKind.punctuation]

-- What is read as it should be where no word goes on can stand between brackets.
theorem enclosed (opening closing : TokenKind) (hopening : opening ∈ TokenKind.punctuation)
    (hclosing : closing ∈ TokenKind.punctuation)
    (h : Apart (closing.spelling.toList ++ rest) →
      Yields text ts (closing.spelling.toList ++ rest)) :
    Yields (opening.spelling ++ text ++ closing.spelling)
      (.fixed opening :: (ts ++ [.fixed closing])) rest :=
  ((punctuation opening hopening _).append (h (apart_punctuation hclosing rest))).append
    (punctuation closing hclosing rest)

theorem parenthesised
    (h : Apart (")".toList ++ rest) → Yields text ts (")".toList ++ rest)) :
    Yields ("(" ++ text ++ ")") (.fixed .openParen :: (ts ++ [.fixed .closeParen])) rest :=
  enclosed .openParen .closeParen (by decide) (by decide) h

theorem bracketed
    (h : Apart ("]".toList ++ rest) → Yields text ts ("]".toList ++ rest)) :
    Yields ("[" ++ text ++ "]") (.fixed .openBracket :: (ts ++ [.fixed .closeBracket])) rest :=
  enclosed .openBracket .closeBracket (by decide) (by decide) h

theorem unary {kind : TokenKind} (hkind : kind ∈ TokenKind.unaryOperators)
    (hrest : ∀ c ∈ rest.head?, Opens c) : Yields kind.spelling [.fixed kind] rest := by
  refine .mark ?_ fun c hc => ?_
  · revert hkind
    cases kind <;> decide
  · have hne := (hrest c hc).2
    revert hkind
    cases kind <;> simp [TokenKind.joins, TokenKind.unaryOperators, hne]

-- An operator with a space on each side of it.
theorem spaced (kind : TokenKind) (hkind : kind ∈ TokenKind.assignment :: TokenKind.binaryOperators)
    (hrest : ∀ c ∈ rest.head?, Opens c) :
    Yields (" " ++ kind.spelling ++ " ") [.fixed kind] rest := by
  have hclosing : Yields " " [] rest := space fun c hc => (hrest c hc).1
  have hmark : Yields kind.spelling [.fixed kind] (" ".toList ++ rest) := by
    refine mark ?_ ?_
    · revert hkind
      cases kind <;> decide
    · cases kind <;> simp [TokenKind.joins]
  have hopening : Yields " " [] (kind.spelling.toList ++ (" ".toList ++ rest)) := by
    refine space ?_
    revert hkind
    cases kind <;> simp [TokenKind.spelling, TokenKind.binaryOperators] <;> decide
  exact (hopening.append hmark).append hclosing

-- A reserved word with a space behind it.
theorem keyword (kind : TokenKind) (hkind : (Token.fixed kind).IsLexeme .word)
    (hrest : ∀ c ∈ rest.head?, Opens c) : Yields (kind.spelling ++ " ") [.fixed kind] rest := by
  have hword : Yields (Token.fixed kind).literal [.fixed kind] (" ".toList ++ rest) :=
    word hkind (by simp [Apart]; decide)
  exact hword.append (space fun c hc => (hrest c hc).1)

theorem comma (hrest : ∀ c ∈ rest.head?, Opens c) : Yields ", " [.fixed .comma] rest := by
  have hmark : Yields TokenKind.comma.spelling [.fixed .comma] (" ".toList ++ rest) :=
    punctuation .comma (by decide) _
  exact hmark.append (space fun c hc => (hrest c hc).1)

end Yields

end Lexeme

theorem tokenize_of_yields {source : String} {ts : List Token} (h : Lexeme.Yields source ts []) :
    tokenize source = .ok (ts ++ [.eof]) := by
  have htokens : Lexeme.tokens source.toList = .ok ts := by
    have hnil : Lexeme.tokens [] = .ok [] := by rw [Lexeme.tokens, Lexeme.ofChars_nil]; rfl
    simpa [Lexeme.Yields, hnil, Except.map] using h
  unfold Lexeme.tokens at htokens
  unfold tokenize
  cases hlexemes : Lexeme.ofChars source.toList with
  | error diagnostic =>
      rw [hlexemes] at htokens
      cases htokens
  | ok lexemes =>
      rw [hlexemes] at htokens
      cases htokens
      rfl

end ScriptFront
