import ScriptFront.Proofs.Lexemes.Munch
import ScriptFront.Proofs.Lexemes.Runs

namespace ScriptFront

open Pattern

namespace Lexeme

variable {tail : List Char} {c : Char}

-- But for the quote, what a pattern starts with is a lexeme by itself.
theorem exists_single {pattern : Pattern} (hpattern : pattern ∈ Pattern.all)
    (hquotation : pattern ≠ .quotation) (h : pattern.opens c = true) :
    ∃ single ∈ Pattern.all, [c] ∈ single.language := by
  cases pattern with
  | word => exact ⟨.word, by decide, mem_run.mpr ⟨c, [], rfl, h, by simp⟩⟩
  | digits => exact ⟨.digits, by decide, mem_run.mpr ⟨c, [], rfl, h, by simp⟩⟩
  | blanks => exact ⟨.blanks, by decide, mem_run.mpr ⟨c, [], rfl, h, by simp⟩⟩
  | quotation => exact absurd rfl hquotation
  | comment =>
      obtain rfl : c = '/' := of_decide_eq_true h
      exact ⟨.mark .slash, by decide, rfl⟩
  | mark kind =>
      have hhead : kind.spelling.toList.head? = some c := of_decide_eq_true h
      cases kind with
      | equals =>
          cases hhead
          exact ⟨.mark .assignment, by decide, rfl⟩
      | notEquals =>
          cases hhead
          exact ⟨.mark .not, by decide, rfl⟩
      | eof | illegal | integer | string | identifier | kwLet | kwReturn | kwFn | kwTrue | kwFalse
      | kwIf | kwElse | kwWhile => exact absurd hpattern (by decide)
      | _ =>
          cases hhead
          exact ⟨.mark _, hpattern, rfl⟩

-- So only an open quotation hangs on what comes behind its first character.
theorem first?_eq_none_of_first?_eq_none (h : first? (c :: tail) = none) (hc : c ≠ '"')
    (tail' : List Char) : first? (c :: tail') = none := by
  have hopens : ∀ pattern ∈ Pattern.all, pattern.opens c = false := by
    intro pattern hpattern
    refine Bool.eq_false_iff.mpr fun hopens => ?_
    have hquotation : pattern ≠ .quotation := by
      rintro rfl
      exact hc (of_decide_eq_true hopens)
    obtain ⟨single, hsingle, htext⟩ := exists_single hpattern hquotation hopens
    have hfits : Fits ⟨single, [c]⟩ (c :: tail) tail := ⟨hsingle, htext, rfl⟩
    exact first?_eq_none_iff.mp h _ _ hfits
  refine List.findSome?_eq_none_iff.mpr fun pattern hpattern => ?_
  rw [split?_eq_none (hopens pattern hpattern), Option.map_none]

end Lexeme

-- What cannot be read is blamed on a character that no pattern fits. Up to there the source can be
-- read by itself, and unless the character is a quote, what stands behind it makes no difference.
theorem exists_blame_of_tokenize {source : String} {diagnostic : Diagnostic}
    (h : tokenize source = .error diagnostic) :
    ∃ (front : String) (c : Char) (tail : String),
      source = front ++ String.singleton c ++ tail ∧
      (∃ tokens, tokenize front = .ok tokens) ∧
      (∀ pattern ∈ Pattern.all, pattern.split? (c :: tail.toList) = none) ∧
      diagnostic = ⟨.unrecognised (String.singleton c), ⟨.illegal, String.singleton c⟩⟩ ∧
      (c ≠ '"' → ∀ tail' : String,
        tokenize (front ++ String.singleton c ++ tail') = .error diagnostic) := by
  obtain ⟨lexemes, c, tail, hrun, hstuck, rfl⟩ :=
    Lexeme.exists_run_of_error (tokenize_eq_error_iff.mp h)
  have hfront : Lexeme.Run (lexemes.flatMap Lexeme.text ++ []) lexemes [] :=
    hrun.of_head (by simp)
  refine ⟨String.ofList (lexemes.flatMap Lexeme.text), c, String.ofList tail, ?_, ?_, ?_, rfl,
    fun hc tail' => ?_⟩
  · rw [← String.toList_inj, ← hrun.append]
    simp
  · have hlexemes : Lexeme.ofChars (lexemes.flatMap Lexeme.text) = .ok lexemes := by
      rw [← List.append_nil (lexemes.flatMap _), hfront.ofChars_eq, Lexeme.ofChars_nil]
      exact congrArg Except.ok (List.append_nil lexemes)
    exact ⟨_, tokenize_eq_ok_iff.mpr ⟨lexemes, by rwa [String.toList_ofList], rfl⟩⟩
  · intro pattern hpattern
    have hnone := List.findSome?_eq_none_iff.mp hstuck pattern hpattern
    rw [String.toList_ofList]
    exact Option.map_eq_none_iff.mp hnone
  · have hsource :
        (String.ofList (lexemes.flatMap Lexeme.text) ++ String.singleton c ++ tail').toList =
          lexemes.flatMap Lexeme.text ++ c :: tail'.toList := by simp
    have hrun' : Lexeme.Run (lexemes.flatMap Lexeme.text ++ c :: tail'.toList) lexemes
        (c :: tail'.toList) := hrun.of_head fun d hd => hd
    have hstuck' := Lexeme.first?_eq_none_of_first?_eq_none hstuck hc tail'.toList
    rw [tokenize_eq_error_iff, hsource, hrun'.ofChars_eq,
      Lexeme.ofChars_of_first?_eq_none hstuck']
    rfl

-- A character of no pattern behind a mark that could have been longer, with another text behind it
-- than it has.
theorem exists_blame_of_tokenize_mark :
    let diagnostic : Diagnostic := ⟨.unrecognised "#", ⟨.illegal, "#"⟩⟩
    tokenize "x =#= 1" = .error diagnostic ∧
      ∃ (front : String) (c : Char) (tail : String),
        "x =#= 1" = front ++ String.singleton c ++ tail ∧
        (∃ tokens, tokenize front = .ok tokens) ∧
        diagnostic.cause = .unrecognised (String.singleton c) ∧
        (c ≠ '"' → tokenize (front ++ String.singleton c ++ "\"") = .error diagnostic) := by
  intro diagnostic
  have hrun : Lexeme.Run "x =#= 1".toList
      [⟨.word, ['x']⟩, ⟨.blanks, [' ']⟩, ⟨.mark .assignment, ['=']⟩] "#= 1".toList :=
    .cons rfl (.cons rfl (.cons rfl (.nil _)))
  have hstuck : Lexeme.ofChars "#= 1".toList = .error (Lexeme.unrecognised '#') :=
    Lexeme.ofChars_of_first?_eq_none (c := '#') rfl
  have h : tokenize "x =#= 1" = .error diagnostic := by
    rw [tokenize_eq_error_iff, hrun.ofChars_eq, hstuck]
    rfl
  obtain ⟨front, c, tail, hsource, htokens, -, hcause, hstable⟩ := exists_blame_of_tokenize h
  exact ⟨h, front, c, tail, hsource, htokens, congrArg Diagnostic.cause hcause,
    fun hc => hstable hc "\""⟩

end ScriptFront
