import ScriptFront.Proofs.Reading.Attempts
import ScriptFront.Proofs.Spelling.Soundness

namespace ScriptFront

open Parse

namespace Window

variable {w w' stop : Window} {tokens front : List Token}

-- The tokens left before the end of input.
def body (w : Window) : List Token :=
  w.toList.takeWhile fun token => token.kind ≠ .eof

theorem Clean.body_eq_append (h : w.Clean) (hlist : w.toList = front ++ w'.toList) :
    w.body = front ++ w'.body := by
  obtain ⟨body, last, hbody, -, hne⟩ := h
  have hdrop := congrArg List.dropLast (hlist.symm.trans hbody)
  have hnil : w'.toList ≠ [] := List.cons_ne_nil _ _
  rw [List.dropLast_concat, List.dropLast_append_of_ne_nil hnil] at hdrop
  have hfront : ∀ token ∈ front, decide (token.kind ≠ .eof) = true := by
    intro token hmem
    rw [decide_eq_true_eq]
    exact hne token (hdrop ▸ List.mem_append_left _ hmem)
  unfold Window.body
  rw [hlist, List.takeWhile_append_of_pos hfront]

theorem body_of_eof (hk : w.current.kind = .eof) : w.body = [] := by
  simp [body, toList, hk]

theorem Reads.exists_body (h : w.Reads tokens stop) (hclean : w.Clean) :
    ∃ skipped, w.body = skipped ++ stop.body := by
  obtain ⟨skipped, hskipped⟩ := h.suffix
  exact ⟨skipped, hclean.body_eq_append hskipped.symm⟩

-- What is taken from the current token on, and what is left behind it, make up all that was left.
theorem Takes.exists_body (h : w.Takes tokens stop) (hclean : w.Clean)
    (hk : w.current.kind ≠ .eof) :
    ∃ taken missing, tokens = taken ++ List.replicate missing (.fixed .closeCurly) ∧
      w.body = w.current :: taken ++ stop.next.body ∧
      (missing ≠ 0 → stop.next.current.kind = .eof) := by
  cases h with
  | whole hread htokens =>
      refine ⟨tokens, 0, by simp, ?_, by simp⟩
      obtain ⟨token, rest, hu⟩ :=
        (hread.terminated hclean.terminated).exists_upcoming (hread.current_ne_eof hk htokens)
      refine hclean.body_eq_append ?_
      simp [toList, hread.1, next, hu]
  | @cut taken _ missing hread heof =>
      have hu := (hread.clean hclean).upcoming_eq_nil heof
      have hstay : stop.next = stop := by unfold next; rw [hu]
      rw [hstay]
      refine ⟨taken, missing + 1, rfl, ?_, fun _ => heof⟩
      refine hclean.body_eq_append ?_
      simp [toList, hread.1, hu]

-- Only the last token of a list may be an end of input.
theorem clean_ofTokens (h : ∀ token ∈ tokens.dropLast, token.kind ≠ .eof) :
    (ofTokens tokens).Clean := by
  obtain rfl | ⟨front, last, rfl⟩ := List.eq_nil_or_concat tokens
  · exact ⟨[], .eof, rfl, rfl, by simp⟩
  · rw [List.concat_eq_append] at h ⊢
    rw [List.dropLast_concat] at h
    unfold Clean
    rw [toList_ofTokens_concat]
    split
    · rename_i hlast
      exact ⟨front, last, rfl, hlast, h⟩
    · rename_i hlast
      exact ⟨front ++ [last], .eof, by simp, rfl, List.forall_mem_append.mpr ⟨h, by simpa⟩⟩

theorem body_ofTokens (tokens : List Token) :
    (ofTokens tokens).body = tokens.takeWhile fun token => token.kind ≠ .eof := by
  obtain rfl | ⟨front, last, rfl⟩ := List.eq_nil_or_concat tokens
  · rfl
  · unfold body
    rw [List.concat_eq_append, toList_ofTokens_concat]
    split
    · rfl
    · have hend : front ++ [last, Token.eof] = (front ++ [last]) ++ [Token.eof] := by simp
      rw [hend, List.takeWhile_append]
      split
      · rename_i hlength
        rw [(List.takeWhile_prefix _).eq_of_length hlength]
        exact List.append_nil _
      · rfl

end Window

-- The tokens that one try at a statement goes over, the closing braces that are missing at their
-- end, and the statement that is read from them, if any.
structure Piece where
  tokens : List Token
  missing : Nat
  statement? : Option Stmt

-- The statement is spelled by the tokens together with the missing braces.
def Piece.Spells (levels : Nat) (piece : Piece) : Prop :=
  ∀ statement ∈ piece.statement?, ∃ closed, Spelled levels (.stmt closed statement)
    (piece.tokens ++ List.replicate piece.missing (.fixed .closeCurly))

namespace Grammar

theorem missing_eq_of_cons {first : Piece} {pieces : List Piece}
    (hrest : ∀ piece ∈ pieces.dropLast, piece.missing = 0) (h : pieces ≠ [] → first.missing = 0) :
    ∀ piece ∈ (first :: pieces).dropLast, piece.missing = 0 := by
  cases pieces with
  | nil => simp
  | cons next pieces => exact List.forall_mem_cons.mpr ⟨h (List.cons_ne_nil _ _), hrest⟩

-- The tries at statements cut what is left of the input into pieces, one for each of them.
theorem exists_pieces (levels : Nat) {w : Window} (hclean : w.Clean) :
    ∃ pieces : List Piece, pieces.flatMap Piece.tokens = w.body ∧
      pieces.map Piece.statement? = (standard.attempts levels w).map Attempt.statement? ∧
      (∀ piece ∈ pieces, piece.Spells levels) ∧ ∀ piece ∈ pieces.dropLast, piece.missing = 0 := by
  refine (attempts_induction
    (motive := fun w attempts => w.Clean → (w.current.kind = .eof → attempts = []) ∧
      ∃ pieces : List Piece, pieces.flatMap Piece.tokens = w.body ∧
        pieces.map Piece.statement? = attempts.map Attempt.statement? ∧
        (∀ piece ∈ pieces, piece.Spells levels) ∧ ∀ piece ∈ pieces.dropLast, piece.missing = 0)
    ?_ ?_ hclean.terminated hclean).2
  · intro w hk _
    exact ⟨fun _ => rfl, [], by simp [Window.body_of_eof hk]⟩
  · intro w rest hend hk ih hclean
    refine ⟨fun heof => absurd heof hk, ?_⟩
    obtain ⟨_, hread⟩ := Attempt.reads_resume (standard.forward_stmt levels) w
    obtain ⟨hrest, pieces, htokens, hstatements, hspells, hmissing⟩ := ih (hread.clean hclean)
    cases hrun : standard.stmt (standard.partsAt levels) w with
    | ok statement stop =>
        rw [Attempt.run_of_ok hrun] at hrest htokens ⊢
        obtain ⟨closed, tokens, htakes, hspelled, -⟩ :=
          SoundExpr.stmt (soundExpr levels) hclean hrun
        obtain ⟨taken, missing, rfl, hbody, hend⟩ := htakes.exists_body hclean hk
        refine ⟨⟨w.current :: taken, missing, some statement⟩ :: pieces, ?_, ?_, ?_, ?_⟩
        · rw [List.flatMap_cons, htokens, hbody]
          rfl
        · simp [hstatements, Attempt.statement?]
        · refine List.forall_mem_cons.mpr ⟨?_, hspells⟩
          intro statement hstatement
          cases hstatement
          exact ⟨closed, hspelled⟩
        · refine missing_eq_of_cons hmissing fun hpieces => ?_
          refine Classical.byContradiction fun hne => hpieces ?_
          rw [hrest (hend hne)] at hstatements
          exact List.map_eq_nil_iff.mp hstatements
    | error diagnostic stop =>
        rw [Attempt.run_of_error hrun] at hread htokens ⊢
        obtain ⟨skipped, hskipped⟩ := hread.exists_body hclean
        refine ⟨⟨skipped, 0, none⟩ :: pieces, ?_, ?_, ?_, ?_⟩
        · rw [List.flatMap_cons, htokens, hskipped]
        · simp [hstatements, Attempt.statement?]
        · refine List.forall_mem_cons.mpr ⟨?_, hspells⟩
          intro statement hstatement
          cases hstatement
        · exact missing_eq_of_cons hmissing fun _ => rfl

end Grammar

-- How a report comes from the pieces of a token list. No token is lost, invented or put elsewhere,
-- and the statements come from one piece each, in order.
structure Report.ReadFrom (report : Report) (tokens : List Token) (pieces : List Piece) : Prop where
  tokens_eq : pieces.flatMap Piece.tokens = tokens.takeWhile fun token => token.kind ≠ .eof
  statements_eq : pieces.filterMap Piece.statement? = report.program.statements
  spells : ∀ piece ∈ pieces, piece.Spells maxNesting
  -- braces are missing at the end of the input and nowhere else
  missing_eq : ∀ piece ∈ pieces.dropLast, piece.missing = 0
  isSome_of_nil : report.diagnostics = [] → ∀ piece ∈ pieces, piece.statement?.isSome

theorem Program.exists_readFrom (tokens : List Token)
    (h : ∀ token ∈ tokens.dropLast, token.kind ≠ .eof) :
    ∃ pieces, (Program.ofTokens tokens).ReadFrom tokens pieces := by
  obtain ⟨pieces, htokens, hstatements, hspells, hmissing⟩ :=
    Grammar.exists_pieces maxNesting (Window.clean_ofTokens h)
  refine ⟨pieces, htokens.trans (Window.body_ofTokens tokens), ?_, hspells, hmissing, ?_⟩
  · have hfilter : pieces.filterMap Piece.statement? =
        (Grammar.standard.attempts maxNesting (.ofTokens tokens)).filterMap Attempt.statement? := by
      simpa using congrArg (List.filterMap id) hstatements
    exact hfilter
  · intro hdiagnostics piece hmem
    obtain ⟨attempt, hattempt, hstatement⟩ :=
      List.mem_map.mp (hstatements ▸ List.mem_map_of_mem hmem)
    have hnone : attempt.diagnostic? = none :=
      List.filterMap_eq_nil_iff.mp hdiagnostics attempt hattempt
    rw [← hstatement]
    obtain ⟨start, result, stop⟩ := attempt
    cases result with
    | ok statement => rfl
    | error diagnostic => cases hnone

theorem Program.exists_readFrom_unclosed :
    let tokens : List Token := [⟨.kwWhile, "while"⟩, ⟨.openParen, "("⟩, ⟨.identifier, "x"⟩,
      ⟨.closeParen, ")"⟩, ⟨.openCurly, "\x7b"⟩, ⟨.identifier, "y"⟩, .eof]
    (∀ token ∈ tokens.dropLast, token.kind ≠ .eof) ∧
      ∃ pieces, (Program.ofTokens tokens).ReadFrom tokens pieces :=
  ⟨by decide, Program.exists_readFrom _ (by decide)⟩

end ScriptFront
