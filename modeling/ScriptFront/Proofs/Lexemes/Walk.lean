import Mathlib.Data.List.Forall2
import Mathlib.Logic.Relation
import ScriptFront.Proofs.Lexemes.Cursor
import ScriptFront.Proofs.Lexemes.Runs

namespace ScriptFront

open Pattern

-- Reading a source with nothing cut off: the place reached, counted in bytes, and the tokens read
-- up to there.
structure Walk where
  cursor : SourceCursor
  tokens : List Token

namespace Walk

-- What a step comes to.
inductive Outcome where
  | moved (walk : Walk)
  | stopped (result : Except Diagnostic (List Token))
  -- a text was to be cut behind its end or inside a character
  | miscut

def start (source : String) : Walk :=
  ⟨.start source, []⟩

def push (walk : Walk) (token : Token) : Walk :=
  { walk with tokens := walk.tokens ++ [token] }

def advance (walk : Walk) (bytes : Nat) : Walk :=
  { walk with cursor := walk.cursor.advance bytes }

-- What is done about a match. A mark moves on by the size of its spelling and does not look at what
-- was matched.
def take? (walk : Walk) (pattern : Pattern) (matched : String) : Option Walk :=
  match pattern with
  | .word => some ((walk.push ⟨.ofWord matched, matched⟩).advance matched.utf8ByteSize)
  | .digits => some ((walk.push ⟨.integer, matched⟩).advance matched.utf8ByteSize)
  | .blanks | .comment => some (walk.advance matched.utf8ByteSize)
  | .quotation => do
    let inner ← SourceCursor.slice? matched 1 (matched.utf8ByteSize - 1)
    let literal := String.ofList (Quotation.unescape inner.toList)
    return (walk.push ⟨.string, literal⟩).advance matched.utf8ByteSize
  | .mark kind => some ((walk.push (.fixed kind)).advance kind.spelling.utf8ByteSize)

def step (walk : Walk) : Outcome :=
  if walk.cursor.atEnd then .stopped (.ok (walk.tokens ++ [.eof]))
  else
    match walk.cursor.remainder? with
    | none => .miscut
    | some remainder =>
      match Lexeme.first? remainder.toList with
      | none =>
        let text := String.ofList (remainder.toList.take 1)
        .stopped (.error ⟨.unrecognised text, ⟨.illegal, text⟩⟩)
      | some (lexeme, _) =>
        match walk.take? lexeme.pattern (String.ofList lexeme.text) with
        | none => .miscut
        | some next => .moved next

def Moves (walk next : Walk) : Prop :=
  walk.step = .moved next

variable {walk next : Walk} {source : String} {lexeme : Lexeme} {rest : List Char}

-- The walk stands in front of the rest of the source and has read what is in front of it.
structure At (walk : Walk) (source : String) (rest : List Char) : Prop where
  source_eq : walk.cursor.source = source
  remainder : walk.cursor.remainder? = some (String.ofList rest)
  tokens_eq : Lexeme.tokens source.toList = (Lexeme.tokens rest).map (walk.tokens ++ ·)

theorem at_start (source : String) : (start source).At source source.toList := by
  refine ⟨rfl, ?_, ?_⟩
  · refine SourceCursor.remainder?_eq_some_iff.mpr ⟨"", ?_, rfl⟩
    rw [String.ofList_toList, String.empty_append]
    rfl
  · cases Lexeme.tokens source.toList <;> rfl

-- What stands between the quotes of a quotation can be cut out of it.
theorem slice?_quotation {text : List Char} (h : text ∈ Pattern.quotation.language) :
    SourceCursor.slice? (String.ofList text) 1 ((String.ofList text).utf8ByteSize - 1) =
      some (String.ofList (Quotation.inner text)) := by
  obtain ⟨_, rfl, _, ⟨body, -, _, rfl, rfl⟩, rfl⟩ := h
  have hinner : Quotation.inner (['"'] ++ (body ++ ['"'])) = body := by simp [Quotation.inner]
  have htext : String.ofList (['"'] ++ (body ++ ['"'])) = "\"" ++ String.ofList body ++ "\"" := by
    simp [← String.toList_inj]
  have hquote : "\"".utf8ByteSize = 1 := rfl
  have hlast : ("\"" ++ String.ofList body ++ "\"").utf8ByteSize - 1 =
      1 + (String.ofList body).utf8ByteSize := by
    rw [String.utf8ByteSize_append, String.utf8ByteSize_append, hquote]
    omega
  rw [hinner, htext, hlast]
  exact SourceCursor.slice?_append "\"" (String.ofList body) "\""

-- Whatever the pattern, a match is taken with the token it gives, and the place moves on by its
-- size.
theorem take?_eq (htext : lexeme.text ∈ lexeme.pattern.language) (walk : Walk) :
    walk.take? lexeme.pattern (String.ofList lexeme.text) =
      some ⟨walk.cursor.advance (String.ofList lexeme.text).utf8ByteSize,
        walk.tokens ++ lexeme.token?.toList⟩ := by
  obtain ⟨pattern, text⟩ := lexeme
  simp only at htext
  cases pattern with
  | word | digits => rfl
  | blanks | comment => simp [take?, Lexeme.token?, Pattern.token?, advance]
  | quotation =>
      simp only [take?, slice?_quotation htext, Option.bind_eq_bind, Option.bind_some,
        String.toList_ofList]
      rfl
  | mark kind =>
      obtain rfl := mem_singleton.mp htext
      simp [take?, Lexeme.token?, Pattern.token?, advance, push, Token.fixed]

theorem At.step_done (h : walk.At source []) : walk.step = .stopped (tokenize source) := by
  have hend : walk.cursor.atEnd = true := (SourceCursor.atEnd_iff h.remainder).mpr rfl
  have htokens : tokenize source = .ok (walk.tokens ++ [.eof]) := by
    rw [tokenize_eq_map_tokens, h.tokens_eq, Lexeme.tokens, Lexeme.ofChars_nil]
    simp [Except.map]
  rw [step, if_pos hend, htokens]

theorem At.atEnd_eq_false {c : Char} {tail : List Char} (h : walk.At source (c :: tail)) :
    walk.cursor.atEnd = false := by
  refine Bool.eq_false_iff.mpr fun hend => ?_
  have hnil := (SourceCursor.atEnd_iff h.remainder).mp hend
  simp [← String.toList_inj] at hnil

theorem At.step_stuck {c : Char} {tail : List Char} (h : walk.At source (c :: tail))
    (hfirst : Lexeme.first? (c :: tail) = none) : walk.step = .stopped (tokenize source) := by
  have htokens : tokenize source = .error (Lexeme.unrecognised c) := by
    rw [tokenize_eq_map_tokens, h.tokens_eq, Lexeme.tokens,
      Lexeme.ofChars_of_first?_eq_none hfirst]
    rfl
  have htext : String.ofList ((c :: tail).take 1) = String.singleton c :=
    String.singleton_eq_ofList.symm
  simp only [step, h.atEnd_eq_false, Bool.false_eq_true, if_false, h.remainder,
    String.toList_ofList, hfirst, htext, htokens, Lexeme.unrecognised]

-- Where no lexeme can be taken, the walk ends, with the tokens or with the blame for a character.
theorem At.step_of_none (h : walk.At source rest) (hfirst : Lexeme.first? rest = none) :
    walk.step = .stopped (tokenize source) := by
  cases rest with
  | nil => exact h.step_done
  | cons c tail => exact h.step_stuck hfirst

theorem At.step_more {rest' : List Char} (h : walk.At source rest)
    (hfirst : Lexeme.first? rest = some (lexeme, rest')) :
    ∃ next, walk.Moves next ∧ next.At source rest' ∧
      walk.cursor.offset < next.cursor.offset := by
  obtain ⟨-, htext, happend, -⟩ := Lexeme.first?_eq_some_iff.mp hfirst
  have hne : lexeme.text ≠ [] := language_ne_nil htext
  have hpos : 0 < (String.ofList lexeme.text).utf8ByteSize := by
    refine Nat.pos_of_ne_zero fun hzero => hne ?_
    exact String.ofList_eq_empty_iff.mp (String.utf8ByteSize_eq_zero_iff.mp hzero)
  have hend : walk.cursor.atEnd = false := by
    cases rest with
    | nil => exact absurd (List.append_eq_nil_iff.mp happend).1 hne
    | cons c tail => exact h.atEnd_eq_false
  refine ⟨⟨walk.cursor.advance (String.ofList lexeme.text).utf8ByteSize,
    walk.tokens ++ lexeme.token?.toList⟩, ?_, ⟨h.source_eq, ?_, ?_⟩, ?_⟩
  · simp [Moves, step, hend, h.remainder, hfirst, take?_eq htext]
  · apply SourceCursor.remainder?_advance
    rw [h.remainder, ← happend, String.ofList_append]
  · rw [h.tokens_eq, Lexeme.tokens_of_first? hfirst]
    cases Lexeme.tokens rest' <;> simp [Except.map]
  · exact Nat.lt_add_of_pos_right hpos

theorem At.exists_step (h : walk.At source rest) :
    walk.step = .stopped (tokenize source) ∨
      ∃ next rest', walk.Moves next ∧ next.At source rest' ∧
        walk.cursor.offset < next.cursor.offset := by
  cases hfirst : Lexeme.first? rest with
  | none => exact .inl (h.step_of_none hfirst)
  | some found =>
      obtain ⟨lexeme, rest'⟩ := found
      obtain ⟨next, hmoves, hnext, hlt⟩ := h.step_more hfirst
      exact .inr ⟨next, rest', hmoves, hnext, hlt⟩

theorem exists_at_of_reached (h : Relation.ReflTransGen Moves (start source) walk) :
    ∃ rest, walk.At source rest := by
  induction h with
  | refl => exact ⟨_, at_start source⟩
  | tail _ hmoves ih =>
      obtain ⟨rest, hat⟩ := ih
      rcases hat.exists_step with hstopped | ⟨next, rest', hnext, hat', -⟩
      · rw [Moves, hstopped] at hmoves
        cases hmoves
      · rw [Moves, hnext] at hmoves
        cases hmoves
        exact ⟨rest', hat'⟩

-- A walk goes along the lexemes that can be read.
theorem At.exists_reached {lexemes : List Lexeme} {last : List Char} (h : walk.At source rest)
    (hrun : Lexeme.Run rest lexemes last) :
    ∃ next, Relation.ReflTransGen Moves walk next ∧ next.At source last := by
  induction hrun generalizing walk with
  | nil => exact ⟨walk, .refl, h⟩
  | cons hfirst _ ih =>
      obtain ⟨next, hmoves, hnext, -⟩ := h.step_more hfirst
      obtain ⟨last, hreached, hlast⟩ := ih hnext
      exact ⟨last, hreached.head hmoves, hlast⟩

theorem At.exists_last (h : walk.At source rest) :
    ∃ last, Relation.ReflTransGen Moves walk last ∧ last.step = .stopped (tokenize source) := by
  obtain ⟨lexemes, rest', hrun, hnone⟩ := Lexeme.exists_run rest
  obtain ⟨last, hreached, hlast⟩ := h.exists_reached hrun
  exact ⟨last, hreached, hlast.step_of_none hnone⟩

end Walk

namespace Lexeme

variable {pattern other : Pattern} {text : List Char} {lexemes : List Lexeme}

-- No text is of two patterns.
theorem eq_of_mem_language (hpattern : pattern ∈ Pattern.all) (hother : other ∈ Pattern.all)
    (h : text ∈ pattern.language) (h' : text ∈ other.language) : pattern = other := by
  have hnothing : ∀ (p : Pattern), ∀ c ∈ ([] : List Char).head?, p.joins c = false := by simp
  have hfirst : first? text = some (⟨pattern, text⟩, []) :=
    first?_eq_some_iff.mpr ⟨hpattern, h, List.append_nil text, hnothing pattern⟩
  have hfirst' : first? text = some (⟨other, text⟩, []) :=
    first?_eq_some_iff.mpr ⟨hother, h', List.append_nil text, hnothing other⟩
  rw [hfirst] at hfirst'
  cases hfirst'
  rfl

-- The lexeme gives the token, which has its text unless the lexeme is a quotation.
def Gives (lexeme : Lexeme) (token : Token) : Prop :=
  lexeme.token? = some token ∧ (token.kind ≠ .string → token.literal = String.ofList lexeme.text)

-- Blanks and comments.
def skipped (lexeme : Lexeme) : Bool :=
  lexeme.pattern = .blanks || lexeme.pattern = .comment

theorem exists_gives {lexeme : Lexeme} (htext : lexeme.text ∈ lexeme.pattern.language)
    (h : lexeme.skipped = false) : ∃ token, lexeme.Gives token := by
  obtain ⟨pattern, text⟩ := lexeme
  simp only at htext
  cases pattern with
  | word | digits => exact ⟨_, rfl, fun _ => rfl⟩
  | blanks | comment => cases h
  | quotation => exact ⟨_, rfl, fun hkind => absurd rfl hkind⟩
  | mark kind =>
      obtain rfl := mem_singleton.mp htext
      exact ⟨_, rfl, fun _ => String.ofList_toList.symm⟩

theorem token?_of_skipped {lexeme : Lexeme} (h : lexeme.skipped = true) :
    lexeme.token? = none := by
  obtain ⟨pattern, text⟩ := lexeme
  cases pattern with
  | blanks | comment => rfl
  | _ => cases h

-- One after another, the lexemes that are not skipped give the tokens.
theorem forall₂_gives (h : ∀ lexeme ∈ lexemes, lexeme.text ∈ lexeme.pattern.language) :
    List.Forall₂ Gives (lexemes.filter (!·.skipped)) (lexemes.filterMap token?) := by
  induction lexemes with
  | nil => exact .nil
  | cons lexeme lexemes ih =>
      obtain ⟨htext, hlexemes⟩ := List.forall_mem_cons.mp h
      cases hskipped : lexeme.skipped with
      | false =>
          obtain ⟨token, hgives⟩ := exists_gives htext hskipped
          rw [List.filter_cons_of_pos (by simp [hskipped]), List.filterMap_cons_some hgives.1]
          exact .cons hgives (ih hlexemes)
      | true =>
          rw [List.filter_cons_of_neg (by simp [hskipped]),
            List.filterMap_cons_none (token?_of_skipped hskipped)]
          exact ih hlexemes

end Lexeme

-- Wherever a walk gets to, the source can be cut there, and so can the match that is taken next,
-- which moves the walk on. So it ends, with what comes of the source. The lexemes of a source that
-- can be read are all of it, each of one pattern, and those that are no blanks and no comments give
-- the tokens.
theorem walk_covers (source : String) :
    (∀ walk, Relation.ReflTransGen Walk.Moves (.start source) walk →
      walk.cursor.source = source ∧ walk.cursor.offset ≤ source.utf8ByteSize ∧
      (String.Pos.Raw.mk walk.cursor.offset).IsValid source ∧ walk.step ≠ .miscut ∧
      ∀ next, walk.Moves next → walk.cursor.offset < next.cursor.offset) ∧
    (∃ last, Relation.ReflTransGen Walk.Moves (.start source) last ∧
      last.step = .stopped (tokenize source)) ∧
    ∀ tokens, tokenize source = .ok tokens →
      ∃ lexemes ws, Lexeme.ofChars source.toList = .ok lexemes ∧ tokens = ws ++ [.eof] ∧
        lexemes.flatMap Lexeme.text = source.toList ∧
        (∀ lexeme ∈ lexemes, lexeme.text ≠ [] ∧ ∀ pattern ∈ Pattern.all,
          lexeme.text ∈ pattern.language ↔ lexeme.pattern = pattern) ∧
        List.Forall₂ Lexeme.Gives (lexemes.filter (!·.skipped)) ws := by
  refine ⟨fun walk hreached => ?_, (Walk.at_start source).exists_last, fun tokens h => ?_⟩
  · obtain ⟨rest, hat⟩ := Walk.exists_at_of_reached hreached
    have hvalid : (String.Pos.Raw.mk walk.cursor.offset).IsValid source := by
      rw [← hat.source_eq, ← SourceCursor.isSome_remainder?_iff, hat.remainder]
      rfl
    refine ⟨hat.source_eq, hvalid.le_utf8ByteSize, hvalid, ?_⟩
    rcases hat.exists_step with hstopped | ⟨next, rest', hmoves, -, hlt⟩
    · simp [Walk.Moves, hstopped]
    · rw [Walk.Moves] at hmoves
      refine ⟨by simp [hmoves], fun next' hmoves' => ?_⟩
      rw [Walk.Moves, hmoves] at hmoves'
      cases hmoves'
      exact hlt
  · obtain ⟨lexemes, hlexemes, rfl⟩ := tokenize_eq_ok_iff.mp h
    have hrun := Lexeme.run_of_ok hlexemes
    have hall := hrun.forall_mem
    have hcover : lexemes.flatMap Lexeme.text = source.toList := by
      rw [← hrun.append, List.append_nil]
    refine ⟨lexemes, _, hlexemes, rfl, hcover, fun lexeme hmem => ?_,
      Lexeme.forall₂_gives fun lexeme hmem => (hall lexeme hmem).2⟩
    obtain ⟨hpattern, htext⟩ := hall lexeme hmem
    refine ⟨language_ne_nil htext, fun pattern hpattern' => ⟨fun htext' => ?_, ?_⟩⟩
    · exact Lexeme.eq_of_mem_language hpattern hpattern' htext htext'
    · rintro rfl
      exact htext

-- A blank of three bytes and a comment that ends with a letter of two.
theorem walk_covers_wide :
    let source := "\u3000x//\u00e9"
    ∃ last, Relation.ReflTransGen Walk.Moves (.start source) last ∧
      last.step = .stopped (.ok [⟨.identifier, "x"⟩, .eof]) ∧
      last.cursor.offset ≤ 8 ∧ (String.Pos.Raw.mk last.cursor.offset).IsValid source ∧
      ∃ lexemes ws, Lexeme.ofChars source.toList = .ok lexemes ∧
        [⟨.identifier, "x"⟩, .eof] = ws ++ [Token.eof] ∧
        List.Forall₂ Lexeme.Gives (lexemes.filter (!·.skipped)) ws := by
  intro source
  have hrun : Lexeme.Run "\u3000x//\u00e9".toList
      [⟨.blanks, ['\u3000']⟩, ⟨.word, ['x']⟩, ⟨.comment, "//\u00e9".toList⟩] [] := by
    iterate 3 refine .cons rfl ?_
    exact .nil []
  have hread : Lexeme.ofChars source.toList =
      .ok [⟨.blanks, ['\u3000']⟩, ⟨.word, ['x']⟩, ⟨.comment, "//\u00e9".toList⟩] := by
    rw [hrun.ofChars_eq, Lexeme.ofChars_nil]
    rfl
  have htokens : tokenize source = .ok [⟨.identifier, "x"⟩, .eof] :=
    tokenize_eq_ok_iff.mpr ⟨_, hread, rfl⟩
  obtain ⟨hreached, ⟨last, hlast, hstopped⟩, hcover⟩ := walk_covers source
  obtain ⟨-, hle, hvalid, -, -⟩ := hreached last hlast
  obtain ⟨lexemes, ws, hlexemes', htokens', -, -, hgives⟩ := hcover _ htokens
  exact ⟨last, hlast, by rw [hstopped, htokens], hle, hvalid, lexemes, ws, hlexemes', htokens',
    hgives⟩

end ScriptFront
