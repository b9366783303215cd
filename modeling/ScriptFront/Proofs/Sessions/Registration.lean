import ScriptFront.Parse.Session
import ScriptFront.Proofs.Reading.Seen

namespace ScriptFront

namespace Grammar.SameOn

variable {grammar : Grammar} {kind : TokenKind} {seen : TokenKind → Prop}

theorem registerStmt (hkind : ¬seen kind) (rule : StmtRule) :
    SameOn seen grammar (grammar.registerStmt kind rule) where
  stmtRule h := by
    refine if_neg ?_
    rintro rfl
    exact hkind h
  prefixRule _ := rfl
  infixRule _ _ := rfl

theorem registerPrefix (hkind : ¬seen kind) (rule : PrefixRule) :
    SameOn seen grammar (grammar.registerPrefix kind rule) where
  stmtRule _ := rfl
  prefixRule h := by
    refine if_neg ?_
    rintro rfl
    exact hkind h
  infixRule _ _ := rfl

theorem registerInfix (hkind : ¬seen kind ∨ Precedence.ofKind kind = .lowest) (rule : InfixRule) :
    SameOn seen grammar (grammar.registerInfix kind rule) where
  stmtRule _ := rfl
  prefixRule _ := rfl
  infixRule h hbinds := by
    refine if_neg ?_
    rintro rfl
    rcases hkind with hseen | hlowest
    · exact hseen h
    · rw [hlowest] at hbinds
      exact absurd hbinds (Nat.lt_irrefl _)

end Grammar.SameOn

theorem Window.shows_ofTokens {seen : TokenKind → Prop} {tokens : List Token} (heof : seen .eof)
    (h : ∀ token ∈ tokens, seen token.kind) : (ofTokens tokens).Shows seen := by
  obtain rfl | ⟨front, last, rfl⟩ := List.eq_nil_or_concat tokens
  · simpa [Shows, ofTokens, toList, Token.eof] using heof
  · rw [List.concat_eq_append] at h ⊢
    unfold Shows
    rw [toList_ofTokens_concat]
    split
    · exact h
    · simpa [or_imp, forall_and, Token.eof, heof] using h

namespace Session

-- A program is read the same from both: the same statements, the same diagnostics, and the same
-- tokens are left.
def SameProgram (session session' : Session) : Prop :=
  session'.program.1 = session.program.1 ∧ session'.program.2.window = session.program.2.window

theorem sameProgram_of_sameOn {session : Session} {grammar : Grammar} {seen : TokenKind → Prop}
    (h : session.grammar.SameOn seen grammar) (hshows : session.window.Shows seen) :
    SameProgram session { session with grammar := grammar } := by
  have hattempts : grammar.attempts session.levels session.window =
      session.grammar.attempts session.levels session.window := h.attempts_eq _ hshows
  unfold SameProgram program
  exact ⟨congrArg Report.ofAttempts hattempts, by simp only [levels] at hattempts ⊢; rw [hattempts]⟩

-- A rule for an operator that does not bind is never used, and no rule is for a kind of token that
-- there is none of. Whatever the grammar, such a rule makes no difference to what is read, even
-- where it takes the place of another one.
theorem sameProgram_register (grammar : Grammar) (tokens : List Token) (kind : TokenKind) :
    let session := Session.start grammar tokens
    (Precedence.ofKind kind = .lowest →
      ∀ rule, SameProgram session (session.registerInfix kind rule)) ∧
    (kind ≠ .eof → (∀ token ∈ tokens, token.kind ≠ kind) →
      (∀ rule, SameProgram session (session.registerStmt kind rule)) ∧
      (∀ rule, SameProgram session (session.registerPrefix kind rule)) ∧
      ∀ rule, SameProgram session (session.registerInfix kind rule)) := by
  intro session
  constructor
  · intro hlowest rule
    have hshows : session.window.Shows fun _ => True := fun _ _ => trivial
    exact sameProgram_of_sameOn (.registerInfix (.inr hlowest) rule) hshows
  · intro heof htokens
    have hshows : session.window.Shows (Ne kind) :=
      Window.shows_ofTokens heof fun token hmem => Ne.symm (htokens token hmem)
    have hkind : ¬kind ≠ kind := fun h => h rfl
    exact ⟨fun rule => sameProgram_of_sameOn (.registerStmt hkind rule) hshows,
      fun rule => sameProgram_of_sameOn (.registerPrefix hkind rule) hshows,
      fun rule => sameProgram_of_sameOn (.registerInfix (.inl hkind) rule) hshows⟩

-- A semicolon behind a name, which would make a call of it if it did bind, and a sign that does not
-- occur. The parenthesis at the end is a failure either way.
theorem sameProgram_register_semicolon :
    let tokens : List Token := [⟨.identifier, "f"⟩, ⟨.semicolon, ";"⟩, ⟨.openParen, "("⟩,
      ⟨.identifier, "x"⟩, ⟨.closeParen, ")"⟩, ⟨.closeParen, ")"⟩]
    let session := Session.start .standard tokens
    (Precedence.ofKind .semicolon = .lowest ∧
      SameProgram session (session.registerInfix .semicolon .call)) ∧
    (TokenKind.dash ≠ .eof ∧ ∀ token ∈ tokens, token.kind ≠ .dash) ∧
      SameProgram session (session.registerStmt .dash .returns) ∧
      SameProgram session (session.registerPrefix .dash .hash) ∧
      SameProgram session (session.registerInfix .dash .field) := by
  intro tokens session
  have hdash : TokenKind.dash ≠ .eof ∧ ∀ token ∈ tokens, token.kind ≠ .dash := by decide
  obtain ⟨hlowest, -⟩ := sameProgram_register .standard tokens .semicolon
  obtain ⟨-, hunseen⟩ := sameProgram_register .standard tokens .dash
  obtain ⟨hstmt, hprefix, hinfix⟩ := hunseen hdash.1 hdash.2
  exact ⟨⟨rfl, hlowest rfl .call⟩, hdash, hstmt .returns, hprefix .hash, hinfix .field⟩

end Session

end ScriptFront
