import ScriptFront.Proofs.Lexemes.Escapes
import ScriptFront.Proofs.Lexemes.Lines

namespace ScriptFront

open Pattern

namespace Quotation

-- A text with a backslash in front of each character that would end a quotation or escape the next
-- one.
def escape (text : List Char) : List Char :=
  text.flatMap fun c => if c = '"' ∨ c = '\\' then ['\\', c] else [c]

theorem exists_items_escape (text : List Char) :
    ∃ items : List Item, items.flatMap Item.text = escape text ∧
      items.flatMap Item.meaning = text := by
  refine exists_items (List.forall₂_map_right_iff.mpr (List.forall₂_same.mpr fun c _ => ?_))
  split
  · rename_i hc
    obtain rfl | rfl := hc
    · exact .quote
    · exact .backslash
  · rename_i hc
    obtain ⟨hquote, hbackslash⟩ := not_or.mp hc
    exact .raw hquote hbackslash

theorem unescape_escape (text : List Char) : unescape (escape text) = text := by
  obtain ⟨items, htext, hmeaning⟩ := exists_items_escape text
  rw [← htext, unescape_items, hmeaning]

theorem escape_mem (text : List Char) :
    '"' :: (escape text ++ ['"']) ∈ Pattern.quotation.language := by
  obtain ⟨items, htext, -⟩ := exists_items_escape text
  rw [← htext]
  exact items_mem_language items

end Quotation

namespace Token

-- Kind and text belong together as they do in a source.
def WellFormed (token : Token) : Prop :=
  match token.kind with
  | .eof | .illegal => False
  | .identifier => token.literal.toList ∈ Pattern.word.language ∧
      ∀ kind ∈ TokenKind.reserved, token.literal ≠ kind.spelling
  | .integer => token.literal.toList ∈ Pattern.digits.language
  | .string => True
  | kind => token.literal = kind.spelling

-- How the token is written in a source.
def written (token : Token) : String :=
  match token.kind with
  | .string => "\"" ++ String.ofList (Quotation.escape token.literal.toList) ++ "\""
  | _ => token.literal

variable {token : Token} {pattern : Pattern} {text : List Char}

theorem wellFormed_fixed_of_reserved {kind : TokenKind} (h : kind ∈ TokenKind.reserved) :
    (Token.fixed kind).WellFormed := by
  revert h
  cases kind <;> simp [TokenKind.reserved, WellFormed, Token.fixed]

theorem wellFormed_fixed_of_mark {kind : TokenKind} (h : Pattern.mark kind ∈ Pattern.all) :
    (Token.fixed kind).WellFormed := by
  revert h
  cases kind <;> simp [Pattern.all, WellFormed, Token.fixed]

theorem wellFormed_ofWord (h : text ∈ Pattern.word.language) :
    (Token.mk (.ofWord (String.ofList text)) (String.ofList text)).WellFormed := by
  unfold TokenKind.ofWord
  cases hword : TokenKind.reserved? (String.ofList text) with
  | none =>
      refine ⟨by rwa [String.toList_ofList], fun kind hkind heq => ?_⟩
      exact absurd (beq_iff_eq.mpr heq.symm) (List.find?_eq_none.mp hword kind hkind)
  | some kind =>
      unfold TokenKind.reserved? at hword
      have hspelling := List.find?_some hword
      rw [← beq_iff_eq.mp hspelling]
      exact wellFormed_fixed_of_reserved (List.mem_of_find?_eq_some hword)

-- Whatever a lexeme gives is well formed.
theorem wellFormed_of_token? (hpattern : pattern ∈ Pattern.all) (htext : text ∈ pattern.language)
    (h : pattern.token? text = some token) : token.WellFormed := by
  cases pattern with
  | word =>
      cases h
      exact wellFormed_ofWord htext
  | digits =>
      cases h
      change (String.ofList text).toList ∈ _
      rwa [String.toList_ofList]
  | blanks | comment => cases h
  | quotation =>
      cases h
      trivial
  | mark kind =>
      cases h
      exact wellFormed_fixed_of_mark hpattern

-- A well-formed token is what a lexeme gives that it can be written as, and no space goes on with
-- that lexeme.
theorem WellFormed.exists_pattern (h : token.WellFormed) :
    ∃ pattern ∈ Pattern.all, pattern.token? token.written.toList = some token ∧
      token.written.toList ∈ pattern.language ∧ pattern.joins ' ' = false := by
  obtain ⟨kind, literal⟩ := token
  cases kind with
  | eof | illegal => cases h
  | identifier =>
      obtain ⟨hword, hreserved⟩ := h
      have hkind : TokenKind.reserved? literal = none := by
        refine List.find?_eq_none.mpr fun kind hkind heq => ?_
        exact hreserved kind hkind (beq_iff_eq.mp heq).symm
      have htoken : Pattern.word.token? literal.toList = some ⟨.identifier, literal⟩ := by
        simp [Pattern.token?, TokenKind.ofWord, hkind]
      exact ⟨.word, by decide, htoken, hword, rfl⟩
  | integer =>
      have htoken : Pattern.digits.token? literal.toList = some ⟨.integer, literal⟩ := by
        simp [Pattern.token?]
      exact ⟨.digits, by decide, htoken, h, rfl⟩
  | string =>
      have hwritten : (Token.mk .string literal).written.toList =
          '"' :: (Quotation.escape literal.toList ++ ['"']) := by simp [written]
      have htoken : Pattern.quotation.token? ('"' :: (Quotation.escape literal.toList ++ ['"'])) =
          some ⟨.string, literal⟩ := by
        simp [Pattern.token?, Quotation.inner, Quotation.unescape_escape]
      rw [hwritten]
      exact ⟨.quotation, by decide, htoken, Quotation.escape_mem _, rfl⟩
  | kwLet | kwReturn | kwFn | kwTrue | kwFalse | kwIf | kwElse | kwWhile =>
      simp only [WellFormed] at h
      subst h
      exact ⟨.word, by decide, rfl, mem_run.mpr ⟨_, _, rfl, rfl, List.all_eq_true.mp rfl⟩, rfl⟩
  | _ =>
      simp only [WellFormed] at h
      subst h
      exact ⟨.mark _, by decide, rfl, rfl, rfl⟩

end Token

namespace Lexeme

variable {token : Token} {input rest : List Char} {lexemes : List Lexeme} {ws : List Token}

theorem wellFormed_of_ofChars (h : ofChars input = .ok lexemes) :
    ∀ token ∈ lexemes.filterMap Lexeme.token?, token.WellFormed := by
  refine ofChars_induction
    (motive := fun _ lexemes => ∀ token ∈ lexemes.filterMap Lexeme.token?, token.WellFormed) ?_ ?_ h
  · simp
  · intro input rest lexeme lexemes hfirst ih token hmem
    obtain ⟨hpattern, htext, -⟩ := first?_eq_some_iff.mp hfirst
    obtain ⟨read, hread, htoken⟩ := List.mem_filterMap.mp hmem
    cases hread with
    | head => exact Token.wellFormed_of_token? hpattern htext htoken
    | tail _ hread => exact ih token (List.mem_filterMap.mpr ⟨read, hread, htoken⟩)

namespace Yields

-- A well-formed token can be read back wherever nothing or a space stands behind it.
theorem written (h : token.WellFormed) (hrest : ∀ c ∈ rest.head?, c = ' ') :
    Yields token.written [token] rest := by
  obtain ⟨pattern, hpattern, htoken, htext, hjoins⟩ := h.exists_pattern
  have hfirst : first? (token.written.toList ++ rest) =
      some (⟨pattern, token.written.toList⟩, rest) := by
    refine first?_eq_some_iff.mpr ⟨hpattern, htext, rfl, fun c hc => ?_⟩
    rwa [hrest c hc]
  simpa only [Lexeme.token?, htoken, Option.toList_some] using of_first? hfirst

theorem blank (rest : List Char) : Yields " " [] rest := by
  have hrest : tokens (" ".toList ++ rest) = tokens rest :=
    tokens_append_blanks (List.all_eq_true.mp rfl) rest
  unfold Yields
  rw [hrest]
  cases tokens rest <;> rfl

theorem intercalate (h : ∀ token ∈ ws, token.WellFormed) :
    Yields (" ".intercalate (ws.map Token.written)) ws [] := by
  induction ws with
  | nil => exact .nil []
  | cons token ws ih =>
      obtain ⟨htoken, hws⟩ := List.forall_mem_cons.mp h
      cases ws with
      | nil =>
          rw [List.map_singleton, String.intercalate_singleton]
          exact .written htoken (by simp)
      | cons token' ws =>
          have hrest := ih hws
          rw [List.map_cons, List.map_cons, String.intercalate_cons_cons]
          refine .append (.append (.written htoken ?_) (.blank _)) hrest
          simp

end Yields

end Lexeme

-- The tokens of a source are the well-formed ones with an end behind them, and every list of those
-- is read back as it is written.
theorem tokenize_wellFormed :
    (∀ source tokens, tokenize source = .ok tokens →
      ∃ ws, tokens = ws ++ [.eof] ∧ ∀ token ∈ ws, token.WellFormed) ∧
    ∀ ws : List Token, (∀ token ∈ ws, token.WellFormed) →
      tokenize (" ".intercalate (ws.map Token.written)) = .ok (ws ++ [.eof]) := by
  constructor
  · intro source tokens h
    unfold tokenize at h
    cases hlexemes : Lexeme.ofChars source.toList with
    | error diagnostic =>
        rw [hlexemes] at h
        cases h
    | ok lexemes =>
        rw [hlexemes] at h
        cases h
        exact ⟨_, rfl, Lexeme.wellFormed_of_ofChars hlexemes⟩
  · intro ws h
    exact tokenize_of_yields (.intercalate h)

-- Neighbours that would be read as something else without the spaces.
theorem tokenize_wellFormed_neighbours :
    let ws : List Token := [⟨.string, "a\"\\\n"⟩, .fixed .not, .fixed .assignment, .fixed .slash,
      .fixed .slash, ⟨.identifier, "if_"⟩, .fixed .kwIf, ⟨.integer, "007"⟩]
    (∀ token ∈ ws, token.WellFormed) ∧
      tokenize "\"a\\\"\\\\\n\" ! = / / if_ if 007" = .ok (ws ++ [.eof]) := by
  intro ws
  have hword : (Token.mk .identifier "if_").WellFormed :=
    ⟨mem_run.mpr ⟨_, _, rfl, rfl, List.all_eq_true.mp rfl⟩, by decide⟩
  have hnumber : (Token.mk .integer "007").WellFormed :=
    mem_run.mpr ⟨_, _, rfl, rfl, List.all_eq_true.mp rfl⟩
  have h : ∀ token ∈ ws, token.WellFormed := by
    simp only [ws, List.forall_mem_cons]
    exact ⟨trivial, rfl, rfl, rfl, rfl, hword, rfl, hnumber, by simp⟩
  exact ⟨h, tokenize_wellFormed.2 ws h⟩

end ScriptFront
