import Mathlib.Data.List.Forall2
import ScriptFront.Proofs.Lexemes.First

namespace ScriptFront

open Computability Pattern

namespace Quotation

-- What a backslash and the character behind it stand for together. With any other character both
-- are kept.
def escaped? : Char → Option Char
  | 'n' => some '\n'
  | 't' => some '\t'
  | 'r' => some '\r'
  | '\\' => some '\\'
  | '"' => some '"'
  | _ => none

-- What stands between the quotes of a quotation is made up of these.
inductive Item where
  | plain (c : Char) (quote_ne : c ≠ '"') (backslash_ne : c ≠ '\\')
  | pair (c : Char) (lineFeed_ne : c ≠ '\n')

namespace Item

def text : Item → List Char
  | .plain c _ _ => [c]
  | .pair c _ => ['\\', c]

def meaning : Item → List Char
  | .plain c _ _ => [c]
  | .pair c _ =>
    match escaped? c with
    | some d => [d]
    | none => ['\\', c]

end Item

-- The ways to write a character between quotes.
inductive Writes : Char → List Char → Prop where
  | raw {c : Char} (quote_ne : c ≠ '"') (backslash_ne : c ≠ '\\') : Writes c [c]
  | quote : Writes '"' ['\\', '"']
  | backslash : Writes '\\' ['\\', '\\']
  | lineFeed : Writes '\n' ['\\', 'n']
  | tab : Writes '\t' ['\\', 't']
  | carriageReturn : Writes '\r' ['\\', 'r']

variable {items items' : List Item} {input body rest rest' : List Char}

theorem mem_quotedItem : body ∈ quotedItem ↔ ∃ item : Item, item.text = body := by
  constructor
  · rintro (⟨c, hc, rfl⟩ | ⟨_, rfl, _, ⟨c, hc, rfl⟩, rfl⟩)
    · have hne : c ≠ '"' ∧ c ≠ '\\' := by simpa using hc
      exact ⟨.plain c hne.1 hne.2, rfl⟩
    · exact ⟨.pair c (of_decide_eq_true hc), rfl⟩
  · rintro ⟨item, rfl⟩
    cases item with
    | plain c hquote hbackslash => exact .inl ⟨c, by simp [hquote, hbackslash], rfl⟩
    | pair c hc => exact .inr ⟨['\\'], rfl, [c], ⟨c, by simp [hc], rfl⟩, rfl⟩

theorem mem_kstar_quotedItem :
    body ∈ quotedItem∗ ↔ ∃ items : List Item, body = items.flatMap Item.text := by
  constructor
  · rintro ⟨texts, rfl, htexts⟩
    induction texts with
    | nil => exact ⟨[], rfl⟩
    | cons text texts ih =>
        obtain ⟨htext, hfurther⟩ := List.forall_mem_cons.mp htexts
        obtain ⟨item, rfl⟩ := mem_quotedItem.mp htext
        obtain ⟨items, hitems⟩ := ih hfurther
        exact ⟨item :: items, by rw [List.flatten_cons, hitems, List.flatMap_cons]⟩
  · rintro ⟨items, rfl⟩
    refine ⟨items.map Item.text, List.flatMap_def, fun text htext => ?_⟩
    obtain ⟨item, -, rfl⟩ := List.mem_map.mp htext
    exact mem_quotedItem.mpr ⟨item, rfl⟩

theorem items_mem_language (items : List Item) :
    '"' :: (items.flatMap Item.text ++ ['"']) ∈ Pattern.quotation.language :=
  ⟨['"'], rfl, _, ⟨_, mem_kstar_quotedItem.mpr ⟨items, rfl⟩, ['"'], rfl, rfl⟩, rfl⟩

theorem unescape_of_ne {c : Char} (h : c ≠ '\\') (rest : List Char) :
    unescape (c :: rest) = c :: unescape rest := by
  simp [unescape, h]

theorem unescape_of_escaped {c d : Char} (h : escaped? c = some d) (rest : List Char) :
    unescape ('\\' :: c :: rest) = d :: unescape rest := by
  revert h
  fun_cases escaped? c <;> rintro ⟨⟩ <;> rfl

-- The character that is kept is no backslash, so it takes nothing with it in turn.
theorem unescape_of_kept {c : Char} (h : escaped? c = none) (rest : List Char) :
    unescape ('\\' :: c :: rest) = '\\' :: c :: unescape rest := by
  have hne : ∀ d ∈ ['n', 't', 'r', '\\', '"'], c ≠ d := by
    rintro d hd rfl
    revert hd h
    fun_cases escaped? c <;> simp_all
  simp only [List.forall_mem_cons] at hne
  obtain ⟨hn, ht, hr, hbackslash, hquote, -⟩ := hne
  rw [unescape, unescape_of_ne hbackslash] <;> simp [*]

theorem unescape_item (item : Item) (rest : List Char) :
    unescape (item.text ++ rest) = item.meaning ++ unescape rest := by
  cases item with
  | plain c _ hbackslash => exact unescape_of_ne hbackslash rest
  | pair c _ =>
      cases hescaped : escaped? c with
      | some d =>
          simp only [Item.text, Item.meaning, hescaped]
          exact unescape_of_escaped hescaped rest
      | none =>
          simp only [Item.text, Item.meaning, hescaped]
          exact unescape_of_kept hescaped rest

theorem unescape_items (items : List Item) :
    unescape (items.flatMap Item.text) = items.flatMap Item.meaning := by
  induction items with
  | nil => rfl
  | cons item items ih =>
      rw [List.flatMap_cons, unescape_item, ih, List.flatMap_cons]

namespace Item

theorem text_append_ne (item : Item) : item.text ++ rest ≠ '"' :: rest' := by
  cases item with
  | plain c hquote => exact fun h => hquote (List.cons.inj h).1
  | pair c => exact fun h => absurd (List.cons.inj h).1 (by decide)

-- The first character of an item tells how long it is.
theorem text_append_inj {item item' : Item} (h : item.text ++ rest = item'.text ++ rest') :
    item = item' ∧ rest = rest' := by
  cases item with
  | plain c _ hbackslash =>
      cases item' with
      | plain c' =>
          obtain ⟨rfl, hrest⟩ := List.cons.inj h
          exact ⟨rfl, hrest⟩
      | pair c' => exact absurd (List.cons.inj h).1 hbackslash
  | pair c =>
      cases item' with
      | plain c' _ hbackslash => exact absurd (List.cons.inj h).1.symm hbackslash
      | pair c' =>
          obtain ⟨rfl, hrest⟩ := List.cons.inj (List.cons.inj h).2
          exact ⟨rfl, hrest⟩

end Item

-- So there is one way to take a quotation apart, and one place where it ends.
theorem items_inj (h : items.flatMap Item.text ++ '"' :: rest =
    items'.flatMap Item.text ++ '"' :: rest') : items = items' ∧ rest = rest' := by
  induction items generalizing items' with
  | nil =>
      cases items' with
      | nil => exact ⟨rfl, (List.cons.inj h).2⟩
      | cons item' items' =>
          rw [List.flatMap_cons, List.append_assoc] at h
          exact absurd h.symm item'.text_append_ne
  | cons item items ih =>
      rw [List.flatMap_cons, List.append_assoc] at h
      cases items' with
      | nil => exact absurd h item.text_append_ne
      | cons item' items' =>
          rw [List.flatMap_cons, List.append_assoc] at h
          obtain ⟨rfl, htail⟩ := Item.text_append_inj h
          obtain ⟨rfl, hrest⟩ := ih htail
          exact ⟨rfl, hrest⟩

theorem Writes.exists_item {c : Char} (h : Writes c body) :
    ∃ item : Item, item.text = body ∧ item.meaning = [c] := by
  cases h with
  | raw hquote hbackslash => exact ⟨.plain c hquote hbackslash, rfl, rfl⟩
  | quote => exact ⟨.pair '"' (by decide), rfl, rfl⟩
  | backslash => exact ⟨.pair '\\' (by decide), rfl, rfl⟩
  | lineFeed => exact ⟨.pair 'n' (by decide), rfl, rfl⟩
  | tab => exact ⟨.pair 't' (by decide), rfl, rfl⟩
  | carriageReturn => exact ⟨.pair 'r' (by decide), rfl, rfl⟩

theorem exists_items {text : List Char} {pieces : List (List Char)}
    (h : List.Forall₂ Writes text pieces) :
    ∃ items : List Item, items.flatMap Item.text = pieces.flatten ∧
      items.flatMap Item.meaning = text := by
  induction h with
  | nil => exact ⟨[], rfl, rfl⟩
  | cons hwrites _ ih =>
      obtain ⟨item, htext, hmeaning⟩ := hwrites.exists_item
      obtain ⟨items, htexts, hmeanings⟩ := ih
      exact ⟨item :: items, by rw [List.flatMap_cons, List.flatten_cons, htext, htexts],
        by rw [List.flatMap_cons, hmeaning, hmeanings, List.singleton_append]⟩

end Quotation

namespace Lexeme

open Quotation

-- The token is read at the front of the input, and reading goes on with the rest.
def Starts (input : List Char) (token : Token) (rest : List Char) : Prop :=
  ∃ lexeme, first? input = some (lexeme, rest) ∧ lexeme.token? = some token

variable {input tail rest : List Char} {items : List Item} {token : Token}

theorem tokens_of_starts (h : Starts input token rest) :
    tokens input = (tokens rest).map (token :: ·) := by
  obtain ⟨lexeme, hfirst, htoken⟩ := h
  rw [tokens_of_first? hfirst, htoken]
  rfl

theorem first?_quotation_iff {lexeme : Lexeme} :
    first? ('"' :: tail) = some (lexeme, rest) ↔
      ∃ items : List Item, tail = items.flatMap Item.text ++ '"' :: rest ∧
        lexeme = ⟨.quotation, '"' :: (items.flatMap Item.text ++ ['"'])⟩ := by
  constructor
  · intro h
    obtain ⟨hpattern, htext, happend, -⟩ := first?_eq_some_iff.mp h
    obtain ⟨pattern, text⟩ := lexeme
    simp only at hpattern htext happend
    have hopens : pattern.opens '"' = true := by
      cases text with
      | nil => exact absurd rfl (language_ne_nil htext)
      | cons c text =>
          obtain ⟨rfl, -⟩ := List.cons.inj happend
          exact opens_of_mem_language htext
    have honly : ∀ pattern ∈ Pattern.all, pattern.opens '"' = true → pattern = .quotation := by
      decide
    obtain rfl := honly pattern hpattern hopens
    obtain ⟨_, rfl, _, ⟨_, hitems, _, rfl, rfl⟩, rfl⟩ := htext
    obtain ⟨items, rfl⟩ := mem_kstar_quotedItem.mp hitems
    refine ⟨items, ?_, rfl⟩
    simpa using happend.symm
  · rintro ⟨items, rfl, rfl⟩
    have hpattern : Pattern.quotation ∈ Pattern.all := by decide
    exact first?_eq_some_iff.mpr ⟨hpattern, items_mem_language items, by simp, fun _ _ => rfl⟩

theorem token?_quotation (items : List Item) :
    token? ⟨.quotation, '"' :: (items.flatMap Item.text ++ ['"'])⟩ =
      some ⟨.string, String.ofList (items.flatMap Item.meaning)⟩ := by
  simp [token?, Pattern.token?, Quotation.inner, unescape_items]

theorem starts_string_iff {literal : String} :
    Starts ('"' :: tail) ⟨.string, literal⟩ rest ↔
      ∃ items : List Item, tail = items.flatMap Item.text ++ '"' :: rest ∧
        literal = String.ofList (items.flatMap Item.meaning) := by
  constructor
  · rintro ⟨lexeme, hfirst, htoken⟩
    obtain ⟨items, htail, rfl⟩ := first?_quotation_iff.mp hfirst
    rw [token?_quotation] at htoken
    cases htoken
    exact ⟨items, htail, rfl⟩
  · rintro ⟨items, htail, rfl⟩
    exact ⟨_, first?_quotation_iff.mpr ⟨items, htail, rfl⟩, token?_quotation items⟩

end Lexeme

-- A quotation is read as a string exactly if it can be taken apart into items in front of a
-- closing quote, and there is one way to do so. Whatever way a text is written in between quotes,
-- it is read back.
theorem tokenize_quoted :
    (∀ tail rest literal, Lexeme.Starts ('"' :: tail) ⟨.string, literal⟩ rest ↔
      ∃ items : List Quotation.Item, tail = items.flatMap Quotation.Item.text ++ '"' :: rest ∧
        literal = String.ofList (items.flatMap Quotation.Item.meaning)) ∧
    (∀ (items items' : List Quotation.Item) (rest rest' : List Char),
      items.flatMap Quotation.Item.text ++ '"' :: rest =
        items'.flatMap Quotation.Item.text ++ '"' :: rest' → items = items' ∧ rest = rest') ∧
    (∀ input token rest, Lexeme.Starts input token rest →
      Lexeme.tokens input = (Lexeme.tokens rest).map (token :: ·)) ∧
    ∀ (text : String) (pieces : List (List Char)),
      List.Forall₂ Quotation.Writes text.toList pieces →
        tokenize ("\"" ++ String.ofList pieces.flatten ++ "\"") = .ok [⟨.string, text⟩, .eof] := by
  refine ⟨fun tail rest literal => Lexeme.starts_string_iff,
    fun items items' rest rest' => Quotation.items_inj,
    fun input token rest => Lexeme.tokens_of_starts, fun text pieces h => ?_⟩
  obtain ⟨items, htext, hmeaning⟩ := Quotation.exists_items h
  have hsource : ("\"" ++ String.ofList pieces.flatten ++ "\"").toList =
      '"' :: (items.flatMap Quotation.Item.text ++ '"' :: []) := by simp [htext]
  have hstarts : Lexeme.Starts ('"' :: (items.flatMap Quotation.Item.text ++ '"' :: []))
      ⟨.string, text⟩ [] := by
    refine Lexeme.starts_string_iff.mpr ⟨items, rfl, ?_⟩
    rw [hmeaning, String.ofList_toList]
  have hnil : Lexeme.tokens [] = .ok [] := by
    rw [Lexeme.tokens, Lexeme.ofChars_nil]
    rfl
  rw [tokenize_eq_map_tokens, hsource, Lexeme.tokens_of_starts hstarts, hnil]
  rfl

-- A backslash in front of the closing quote that has been used up by the one before it, a pair that
-- is kept, and a text with one character written raw and another one not.
theorem tokenize_quoted_mixed :
    Lexeme.Starts "\"\\q\\\\\" \"".toList ⟨.string, "\\q\\"⟩ " \"".toList ∧
      Lexeme.tokens "\"\\q\\\\\" \"".toList =
        (Lexeme.tokens " \"".toList).map (⟨.string, "\\q\\"⟩ :: ·) ∧
      tokenize "\"\\\"\\\\\n\\t\"" = .ok [⟨.string, "\"\\\n\t"⟩, .eof] := by
  obtain ⟨hstarts, -, htokens, hwritten⟩ := tokenize_quoted
  have hitems : Lexeme.Starts "\"\\q\\\\\" \"".toList ⟨.string, "\\q\\"⟩ " \"".toList :=
    (hstarts _ _ _).mpr ⟨[.pair 'q' (by decide), .pair '\\' (by decide)], rfl, rfl⟩
  have hpieces : List.Forall₂ Quotation.Writes "\"\\\n\t".toList
      [['\\', '"'], ['\\', '\\'], ['\n'], ['\\', 't']] :=
    .cons .quote (.cons .backslash (.cons (.raw (by decide) (by decide)) (.cons .tab .nil)))
  have hsource : "\"\\\"\\\\\n\\t\"" = "\"" ++
      String.ofList [['\\', '"'], ['\\', '\\'], ['\n'], ['\\', 't']].flatten ++ "\"" := by
    decide
  refine ⟨hitems, htokens _ _ _ hitems, ?_⟩
  rw [hsource]
  exact hwritten _ _ hpieces

end ScriptFront
