import ScriptFront.Lexeme.Quotation
import ScriptFront.Text.Blank
import ScriptFront.Token

namespace ScriptFront

-- The shapes a lexeme can have.
inductive Pattern where
  | word
  | digits
  | blanks
  | quotation
  | comment
  -- the kind's own spelling
  | mark (kind : TokenKind)
deriving DecidableEq, Repr

namespace Pattern

def isWordStart (c : Char) : Bool :=
  c.isAlpha || c == '_'

def isWordPart (c : Char) : Bool :=
  c.isAlphanum || c == '_'

-- The longest run of characters in a class, if there is one, and the rest.
def run? (inClass : Char → Bool) (input : List Char) : Option (List Char × List Char) :=
  match input with
  | [] => none
  | c :: _ =>
    if inClass c then some (input.takeWhile inClass, input.dropWhile inClass) else none

-- A fixed text, if the input starts with it, and the rest.
def fixed? (text input : List Char) : Option (List Char × List Char) :=
  if text.isPrefixOf input then some (text, input.drop text.length) else none

-- Splits a lexeme of the pattern off the front of the input.
def split? : Pattern → List Char → Option (List Char × List Char)
  | .word, c :: rest =>
    if isWordStart c then some (c :: rest.takeWhile isWordPart, rest.dropWhile isWordPart)
    else none
  | .digits, input => run? Char.isDigit input
  | .blanks, input => run? Text.isBlank input
  | .quotation, '"' :: rest =>
    (Quotation.close? rest).map fun (body, rest) => ('"' :: body, rest)
  -- a comment ends before the line feed
  | .comment, '/' :: '/' :: rest =>
    some ('/' :: '/' :: rest.takeWhile (· ≠ '\n'), rest.dropWhile (· ≠ '\n'))
  | .mark kind, input => fixed? kind.spelling.toList input
  | _, _ => none

-- The patterns in the order in which they are tried: a mark comes before the marks that it
-- starts with, and the comment before the slash.
def all : List Pattern :=
  [.word, .digits, .blanks, .quotation, .comment,
    .mark .openBracket, .mark .closeBracket, .mark .openCurly, .mark .closeCurly,
    .mark .openParen, .mark .closeParen,
    .mark .equals, .mark .notEquals, .mark .not, .mark .assignment, .mark .less, .mark .greater,
    .mark .dot, .mark .semicolon, .mark .colon, .mark .comma,
    .mark .plus, .mark .dash, .mark .slash, .mark .star]

-- The token a lexeme gives. Blanks and comments give none.
def token? (pattern : Pattern) (text : List Char) : Option Token :=
  match pattern with
  | .word => some ⟨.ofWord (String.ofList text), String.ofList text⟩
  | .digits => some ⟨.integer, String.ofList text⟩
  | .blanks => none
  | .quotation => some ⟨.string, String.ofList (Quotation.unescape (Quotation.inner text))⟩
  | .comment => none
  | .mark kind => some ⟨kind, kind.spelling⟩

theorem run?_eq_some {inClass : Char → Bool} {input text rest : List Char}
    (h : run? inClass input = some (text, rest)) : text ++ rest = input ∧ text ≠ [] := by
  cases input with
  | nil => simp [run?] at h
  | cons c input =>
    simp only [run?, Option.ite_none_right_eq_some, Option.some.injEq, Prod.mk.injEq] at h
    obtain ⟨hc, rfl, rfl⟩ := h
    exact ⟨List.takeWhile_append_dropWhile, by simp [hc]⟩

theorem fixed?_eq_some {fixed input text rest : List Char}
    (h : fixed? fixed input = some (text, rest)) : text = fixed ∧ text ++ rest = input := by
  simp only [fixed?, Option.ite_none_right_eq_some, Option.some.injEq, Prod.mk.injEq] at h
  obtain ⟨hstart, rfl, rfl⟩ := h
  exact ⟨rfl, List.prefix_iff_eq_append.1 (List.isPrefixOf_iff_prefix.1 hstart)⟩

theorem spelling_ne_nil (kind : TokenKind) : kind.spelling.toList ≠ [] := by
  cases kind <;> simp [TokenKind.spelling]

-- Splitting loses nothing, and a lexeme is never empty.
theorem split?_eq_some {pattern : Pattern} {input text rest : List Char}
    (h : pattern.split? input = some (text, rest)) : text ++ rest = input ∧ text ≠ [] := by
  fun_cases split? pattern input with
  | case1 c tail hc =>
    simp only [split?, hc, if_true, Option.some.injEq, Prod.mk.injEq] at h
    obtain ⟨rfl, rfl⟩ := h
    simp
  | case2 c tail hc => simp [split?, hc] at h
  | case3 => exact run?_eq_some h
  | case4 => exact run?_eq_some h
  | case5 tail =>
    obtain ⟨⟨body, after⟩, hclose, heq⟩ := Option.map_eq_some_iff.1 h
    obtain ⟨rfl, rfl⟩ := Prod.mk.inj heq
    simp [Quotation.close?_append hclose]
  | case6 tail =>
    obtain ⟨rfl, rfl⟩ := Prod.mk.inj (Option.some.inj h)
    simp
  | case7 kind =>
    obtain ⟨rfl, happend⟩ := fixed?_eq_some h
    exact ⟨happend, spelling_ne_nil kind⟩
  | case8 => simp_all [split?]

-- So reading a lexeme makes progress.
theorem split?_length_lt {pattern : Pattern} {input text rest : List Char}
    (h : pattern.split? input = some (text, rest)) : rest.length < input.length := by
  obtain ⟨happend, hne⟩ := split?_eq_some h
  have hpos := List.length_pos_iff.2 hne
  rw [← happend, List.length_append]
  omega

end Pattern

end ScriptFront
