import Mathlib.Computability.Language
import ScriptFront.Proofs.Rendering.Lexing

namespace ScriptFront

open Computability

namespace Pattern

-- The texts of one character of a class.
def oneOf (inClass : Char → Bool) : Language Char :=
  {text | ∃ c, inClass c = true ∧ text = [c]}

-- One character between the quotes of a quotation, or two of which the first is a backslash.
def quotedItem : Language Char :=
  oneOf (fun c => c ≠ '"' && c ≠ '\\') + {['\\']} * oneOf (· ≠ '\n')

-- The texts that a pattern stands for, as a regular expression.
def language : Pattern → Language Char
  | .word => oneOf isWordStart * (oneOf isWordPart)∗
  | .digits => oneOf Char.isDigit * (oneOf Char.isDigit)∗
  | .blanks => oneOf Text.isBlank * (oneOf Text.isBlank)∗
  | .quotation => {['"']} * (quotedItem∗ * {['"']})
  | .comment => {['/', '/']} * (oneOf (· ≠ '\n'))∗
  | .mark kind => {kind.spelling.toList}

-- Whether a text of the pattern stays one with the character put behind it.
def takes : Pattern → Char → Bool
  | .word, c => isWordPart c
  | .digits, c => c.isDigit
  | .blanks, c => Text.isBlank c
  | .comment, c => c ≠ '\n'
  | .quotation, _ | .mark _, _ => false

variable {inClass start part : Char → Bool} {input text rest : List Char}

theorem mem_singleton {text word : List Char} : text ∈ ({word} : Language Char) ↔ text = word :=
  Iff.rfl

theorem cons_mem_kstar {L : Language Char} {item : List Char} (hitem : item ∈ L)
    (htext : text ∈ L∗) : item ++ text ∈ L∗ := by
  obtain ⟨items, rfl, hitems⟩ := Language.mem_kstar.mp htext
  exact Language.mem_kstar.mpr ⟨item :: items, rfl, List.forall_mem_cons.mpr ⟨hitem, hitems⟩⟩

theorem mem_kstar_oneOf : text ∈ (oneOf inClass)∗ ↔ ∀ c ∈ text, inClass c = true := by
  constructor
  · rintro ⟨items, rfl, hitems⟩ c hc
    obtain ⟨item, hmem, hc⟩ := List.mem_flatten.mp hc
    obtain ⟨d, hd, rfl⟩ := hitems item hmem
    rwa [List.mem_singleton.mp hc]
  · intro h
    induction text with
    | nil => exact Language.nil_mem_kstar _
    | cons c text ih =>
        obtain ⟨hc, htext⟩ := List.forall_mem_cons.mp h
        have hitem : [c] ∈ oneOf inClass := ⟨c, hc, rfl⟩
        exact cons_mem_kstar hitem (ih htext)

theorem mem_run : text ∈ oneOf start * (oneOf part)∗ ↔
    ∃ c tail, text = c :: tail ∧ start c = true ∧ ∀ d ∈ tail, part d = true := by
  constructor
  · rintro ⟨_, ⟨c, hc, rfl⟩, tail, htail, rfl⟩
    exact ⟨c, tail, rfl, hc, mem_kstar_oneOf.mp htail⟩
  · rintro ⟨c, tail, rfl, hc, htail⟩
    exact ⟨[c], ⟨c, hc, rfl⟩, tail, mem_kstar_oneOf.mpr htail, rfl⟩

theorem mem_language_comment :
    text ∈ Pattern.comment.language ↔
      ∃ tail, text = '/' :: '/' :: tail ∧ ∀ c ∈ tail, c ≠ '\n' := by
  constructor
  · rintro ⟨_, rfl, tail, htail, rfl⟩
    refine ⟨tail, rfl, fun c hc => ?_⟩
    exact of_decide_eq_true (mem_kstar_oneOf.mp htail c hc)
  · rintro ⟨tail, rfl, htail⟩
    refine ⟨['/', '/'], rfl, tail, mem_kstar_oneOf.mpr fun c hc => ?_, rfl⟩
    exact decide_eq_true (htail c hc)

-- A run ends where it meets the first character outside its class.
theorem takeWhile_dropWhile_iff :
    input.takeWhile inClass = text ∧ input.dropWhile inClass = rest ↔
      (∀ c ∈ text, inClass c = true) ∧ text ++ rest = input ∧
        ∀ c ∈ rest.head?, inClass c = false := by
  constructor
  · rintro ⟨rfl, rfl⟩
    refine ⟨fun c hc => List.all_eq_true.mp List.all_takeWhile c hc,
      List.takeWhile_append_dropWhile, fun c hc => ?_⟩
    have hhead := List.head?_dropWhile_not inClass input
    rw [Option.mem_def.mp hc] at hhead
    simpa using hhead
  · rintro ⟨htext, rfl, hrest⟩
    exact takeWhile_append_of_head htext hrest

theorem run?_eq_some_iff :
    run? inClass input = some (text, rest) ↔
      text ∈ oneOf inClass * (oneOf inClass)∗ ∧ text ++ rest = input ∧
        ∀ c ∈ rest.head?, inClass c = false := by
  rw [mem_run]
  constructor
  · intro h
    cases input with
    | nil => cases h
    | cons c input =>
        simp only [run?, Option.ite_none_right_eq_some, Option.some.injEq, Prod.mk.injEq] at h
        obtain ⟨hc, h⟩ := h
        obtain ⟨htext, happend, hrest⟩ := takeWhile_dropWhile_iff.mp h
        refine ⟨?_, happend, hrest⟩
        cases text with
        | nil =>
            subst happend
            simp [hc] at hrest
        | cons d text =>
            obtain ⟨hd, htext⟩ := List.forall_mem_cons.mp htext
            exact ⟨d, text, rfl, hd, htext⟩
  · rintro ⟨⟨c, tail, rfl, hc, htail⟩, rfl, hrest⟩
    have hall : ∀ d ∈ c :: tail, inClass d = true := List.forall_mem_cons.mpr ⟨hc, htail⟩
    obtain ⟨htake, hdrop⟩ := takeWhile_append_of_head hall hrest
    rw [List.cons_append] at htake hdrop ⊢
    simp only [run?, if_pos hc, htake, hdrop]

theorem fixed?_eq_some_iff {fixed : List Char} :
    fixed? fixed input = some (text, rest) ↔ text = fixed ∧ text ++ rest = input := by
  constructor
  · exact fixed?_eq_some
  · rintro ⟨rfl, rfl⟩
    simp [fixed?]

end Pattern

namespace Quotation

open Pattern

variable {input body rest : List Char}

theorem close?_eq_some {items : List (List Char)} (hitems : ∀ item ∈ items, item ∈ quotedItem) :
    close? (items.flatten ++ '"' :: rest) = some (items.flatten ++ ['"'], rest) := by
  induction items with
  | nil => rfl
  | cons item items ih =>
      obtain ⟨hitem, hitems⟩ := List.forall_mem_cons.mp hitems
      have hclose := ih hitems
      obtain ⟨c, hc, rfl⟩ | ⟨_, rfl, _, ⟨c, hc, rfl⟩, rfl⟩ := hitem
      · simp only [Bool.and_eq_true, decide_eq_true_eq] at hc
        simp only [List.flatten_cons, List.cons_append]
        rw [close?]
        · simp [hclose]
        · exact hc.1
        · exact fun hc' => absurd hc' hc.2
        · exact fun _ _ hc' => absurd hc' hc.2
      · have hc : c ≠ '\n' := of_decide_eq_true hc
        simp [close?, hc, hclose]

-- What stands behind an opening quote up to the closing one, read as a regular expression.
theorem close?_eq_some_iff :
    close? input = some (body, rest) ↔ body ∈ quotedItem∗ * {['"']} ∧ body ++ rest = input := by
  constructor
  · intro h
    refine ⟨?_, close?_append h⟩
    fun_induction close? input generalizing body rest with
    | case1 => cases h
    | case2 =>
      cases h
      exact ⟨[], Language.nil_mem_kstar _, _, rfl, rfl⟩
    | case3 => cases h
    | case4 => cases h
    | case5 c input hc ih =>
      obtain ⟨⟨body', rest'⟩, hclose, heq⟩ := Option.map_eq_some_iff.mp h
      obtain ⟨rfl, rfl⟩ := Prod.mk.inj heq
      obtain ⟨items, hitems, quote, hquote, rfl⟩ := ih hclose
      have hitem : ['\\', c] ∈ quotedItem :=
        .inr ⟨['\\'], rfl, [c], ⟨c, decide_eq_true hc, rfl⟩, rfl⟩
      exact ⟨['\\', c] ++ items, cons_mem_kstar hitem hitems, quote, hquote, rfl⟩
    | case6 c input hquote hlast hescape ih =>
      obtain ⟨⟨body', rest'⟩, hclose, heq⟩ := Option.map_eq_some_iff.mp h
      obtain ⟨rfl, rfl⟩ := Prod.mk.inj heq
      obtain ⟨items, hitems, quote, hquote', rfl⟩ := ih hclose
      have hbackslash : c ≠ '\\' := by
        rintro rfl
        cases input with
        | nil => exact hlast rfl rfl
        | cons d input => exact hescape d input rfl rfl
      have hitem : [c] ∈ quotedItem := .inl ⟨c, by simp [hbackslash]; exact hquote, rfl⟩
      exact ⟨[c] ++ items, cons_mem_kstar hitem hitems, quote, hquote', rfl⟩
  · rintro ⟨⟨_, ⟨items, rfl, hitems⟩, _, rfl, rfl⟩, rfl⟩
    rw [List.append_assoc]
    exact close?_eq_some hitems

end Quotation

namespace Pattern

variable {pattern : Pattern} {input text rest : List Char}

theorem language_ne_nil (h : text ∈ pattern.language) : text ≠ [] := by
  rintro rfl
  cases pattern with
  | word | digits | blanks =>
      obtain ⟨c, tail, hnil, -⟩ := mem_run.mp h
      cases hnil
  | quotation =>
      obtain ⟨_, rfl, body, -, hnil⟩ := h
      cases hnil
  | comment =>
      obtain ⟨tail, hnil, -⟩ := mem_language_comment.mp h
      cases hnil
  | mark kind => exact spelling_ne_nil kind (mem_singleton.mp h).symm

-- A pattern splits off the longest text it stands for. Where that ends is seen by a look at the
-- character behind it.
theorem split?_eq_some_iff :
    pattern.split? input = some (text, rest) ↔
      text ∈ pattern.language ∧ text ++ rest = input ∧
        ∀ c ∈ rest.head?, pattern.takes c = false := by
  cases pattern with
  | word =>
      change _ ↔ text ∈ oneOf isWordStart * (oneOf isWordPart)∗ ∧ _
      rw [mem_run]
      constructor
      · intro h
        cases input with
        | nil => cases h
        | cons c input =>
            simp only [split?, Option.ite_none_right_eq_some, Option.some.injEq,
              Prod.mk.injEq] at h
            obtain ⟨hc, rfl, hrest⟩ := h
            obtain ⟨htail, happend, hhead⟩ := takeWhile_dropWhile_iff.mp ⟨rfl, hrest⟩
            exact ⟨⟨c, _, rfl, hc, htail⟩, congrArg (c :: ·) happend, hhead⟩
      · rintro ⟨⟨c, tail, rfl, hc, htail⟩, rfl, hrest⟩
        obtain ⟨htake, hdrop⟩ := takeWhile_append_of_head htail hrest
        simp only [List.cons_append, split?, if_pos hc, htake, hdrop]
  | digits => exact run?_eq_some_iff
  | blanks => exact run?_eq_some_iff
  | quotation =>
      constructor
      · intro h
        cases input with
        | nil => cases h
        | cons c input =>
            by_cases hc : c = '"'
            · subst hc
              obtain ⟨⟨body, rest'⟩, hclose, heq⟩ := Option.map_eq_some_iff.mp h
              obtain ⟨rfl, rfl⟩ := Prod.mk.inj heq
              obtain ⟨hbody, happend⟩ := Quotation.close?_eq_some_iff.mp hclose
              exact ⟨⟨['"'], rfl, body, hbody, rfl⟩, congrArg ('"' :: ·) happend, fun _ _ => rfl⟩
            · simp [split?, hc] at h
      · rintro ⟨⟨_, rfl, body, hbody, rfl⟩, rfl, -⟩
        have hclose : Quotation.close? (body ++ rest) = some (body, rest) :=
          Quotation.close?_eq_some_iff.mpr ⟨hbody, rfl⟩
        exact Option.map_eq_some_iff.mpr ⟨_, hclose, rfl⟩
  | comment =>
      rw [mem_language_comment]
      constructor
      · intro h
        obtain ⟨tail, rfl⟩ : ∃ tail, input = '/' :: '/' :: tail := by
          rcases input with _ | ⟨c, _ | ⟨d, tail⟩⟩
          · simp [split?] at h
          · simp [split?] at h
          · by_cases hc : c = '/' <;> by_cases hd : d = '/' <;> simp_all [split?]
        obtain ⟨rfl, hrest⟩ := Prod.mk.inj (Option.some.inj h)
        obtain ⟨htail, happend, hhead⟩ := takeWhile_dropWhile_iff.mp ⟨rfl, hrest⟩
        exact ⟨⟨_, rfl, fun c hc => of_decide_eq_true (htail c hc)⟩,
          congrArg ('/' :: '/' :: ·) happend, hhead⟩
      · rintro ⟨⟨tail, rfl, htail⟩, rfl, hrest⟩
        obtain ⟨htake, hdrop⟩ :=
          takeWhile_append_of_head (fun c hc => decide_eq_true (htail c hc)) hrest
        simp only [List.cons_append, split?, htake, hdrop]
  | mark kind =>
      change fixed? kind.spelling.toList input = _ ↔ text = _ ∧ _
      rw [fixed?_eq_some_iff]
      simp [takes]

end Pattern

end ScriptFront
