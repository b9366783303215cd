import Mathlib.Data.List.Forall2
import ScriptFront.Proofs.Spelling.Accepted

namespace ScriptFront

open Parse

-- The same token, or another closing brace in its place.
inductive Token.StandsFor : Token → Token → Prop where
  | refl (token : Token) : StandsFor token token
  | closing {token token' : Token} (hkind : token.kind = .closeCurly)
      (hkind' : token'.kind = .closeCurly) : StandsFor token token'

namespace Token.StandsFor

variable {token token' : Token} {tokens tokens' : List Token}

theorem kind_eq (h : StandsFor token token') : token'.kind = token.kind := by
  cases h with
  | refl => rfl
  | closing hkind hkind' => rw [hkind, hkind']

theorem eq_of_ne (h : StandsFor token token') (hne : token.kind ≠ .closeCurly) :
    token' = token := by
  cases h with
  | refl => rfl
  | closing hkind => exact absurd hkind hne

theorem forall₂_refl (tokens : List Token) : List.Forall₂ StandsFor tokens tokens :=
  List.forall₂_same.mpr fun token _ => .refl token

-- Any closing braces stand for as many others.
theorem forall₂_closing (hkind : ∀ token ∈ tokens, token.kind = .closeCurly)
    (hkind' : ∀ token ∈ tokens', token.kind = .closeCurly)
    (hlength : tokens.length = tokens'.length) :
    List.Forall₂ StandsFor tokens tokens' :=
  List.forall₂_iff_zip.mpr ⟨hlength, fun hmem =>
    .closing (hkind _ (List.of_mem_zip hmem).1) (hkind' _ (List.of_mem_zip hmem).2)⟩

-- Where there is no closing brace, nothing else stands for the tokens.
theorem eq_of_countKind_eq_zero (h : List.Forall₂ StandsFor tokens tokens')
    (hzero : countKind .closeCurly tokens = 0) : tokens' = tokens := by
  induction h with
  | nil => rfl
  | cons hfirst _ ih =>
      rw [countKind_cons, Nat.add_eq_zero_iff] at hzero
      rw [ih hzero.1, hfirst.eq_of_ne (by simpa using hzero.2)]

theorem ofKind_head (h : List.Forall₂ StandsFor tokens tokens')
    (hhead : ∀ token ∈ tokens.head?, Precedence.ofKind token.kind = .lowest) :
    ∀ token ∈ tokens'.head?, Precedence.ofKind token.kind = .lowest := by
  cases h with
  | nil => exact hhead
  | cons hfirst _ =>
      intro token hmem
      obtain rfl := Option.mem_some_iff.mp hmem
      rw [hfirst.kind_eq]
      exact hhead _ rfl

theorem forall₂_append_left_iff {first second : List Token} :
    List.Forall₂ StandsFor (first ++ second) tokens' ↔
      ∃ first' second', List.Forall₂ StandsFor first first' ∧
        List.Forall₂ StandsFor second second' ∧ tokens' = first' ++ second' := by
  induction first generalizing tokens' with
  | nil => simp
  | cons token first ih =>
      simp only [List.cons_append, List.forall₂_cons_left_iff, ih]
      constructor
      · rintro ⟨token', _, htoken, ⟨first', second', hfirst, hsecond, rfl⟩, rfl⟩
        exact ⟨token' :: first', second', ⟨token', first', htoken, hfirst, rfl⟩, hsecond, rfl⟩
      · rintro ⟨_, second', ⟨token', first', htoken, hfirst, rfl⟩, hsecond, rfl⟩
        exact ⟨token', first' ++ second', htoken, ⟨first', second', hfirst, hsecond, rfl⟩, rfl⟩

end Token.StandsFor

namespace Spelled

open Token.StandsFor

variable {levels : Nat} {phrase : Phrase} {tokens tokens' : List Token}

-- A tree does not show which closing braces its tokens have.
theorem of_standsFor (h : Spelled levels phrase tokens)
    (hstands : List.Forall₂ Token.StandsFor tokens tokens') : Spelled levels phrase tokens' := by
  -- what stands for the tokens of a phrase divides as they do
  induction h generalizing tokens' <;>
    simp only [forall₂_append_left_iff, List.forall₂_cons_left_iff,
      List.forall₂_nil_left_iff] at hstands
  case prefixOp hkind _ _ _ | infixOp hkind _ _ _ _ _ _ =>
      have hne := ne_of_mem_of_not_mem hkind (show TokenKind.closeCurly ∉ _ by decide)
      grind [Spelled, Token.StandsFor.eq_of_ne]
  case function hnames _ _ _ =>
      have hzero := hnames.countKind_eq_zero
      grind [Spelled, Token.StandsFor.eq_of_ne, eq_of_countKind_eq_zero]
  case letIn hending _ | returns hending _ =>
      have hzero := hending.countKind_eq_zero
      grind [Spelled, Token.StandsFor.eq_of_ne, eq_of_countKind_eq_zero]
  case expr hvalue hending ih =>
      obtain ⟨token', _, htoken, ⟨rest', ending', hrest, hending', rfl⟩, rfl⟩ := hstands
      obtain rfl := eq_of_countKind_eq_zero hending' hending.countKind_eq_zero.2
      -- the first token is kept, since the tree has it
      obtain ⟨_, _, htokens, hstarts⟩ := (Spelled.expr hvalue hending).exists_stmt_head
      obtain ⟨rfl, -⟩ := List.cons.inj htokens
      have hkeep := htoken.eq_of_ne fun hkind => hstarts.notMem (by simp [hkind])
      subst hkeep
      exact .expr (ih (.cons (.refl _) hrest)) hending
  case someStmts hseparate ih ih' =>
      obtain ⟨first', second', hfirst, hrest, rfl⟩ := hstands
      exact .someStmts (ih hfirst) (ih' hrest) (hseparate.imp_right (ofKind_head hrest))
  all_goals grind [Spelled, Token.StandsFor.eq_of_ne, Token.StandsFor.kind_eq]

end Spelled

namespace Program

variable {tokens : List Token}

-- A program that is read without a failure opens as many braces as it closes, or more, and the
-- missing ones can be supplied.
theorem ofTokens_append_closing (h : ∀ token ∈ tokens, token.kind ≠ .eof)
    (hok : (Program.ofTokens tokens).diagnostics = []) :
    countKind .closeCurly tokens ≤ countKind .openCurly tokens ∧
      ∀ closing, (∀ token ∈ closing, token.kind = .closeCurly) →
        closing.length = countKind .openCurly tokens - countKind .closeCurly tokens →
          Program.ofTokens (tokens ++ closing) = Program.ofTokens tokens := by
  obtain ⟨missing, hspelled⟩ := exists_spelled h hok
  have hcount := hspelled.countKind_eq
  simp only [countKind_append, countKind_replicate, Token.fixed, reduceCtorEq, if_true,
    if_false] at hcount
  refine ⟨by omega, fun closing hkind hlength => ?_⟩
  have hstands : List.Forall₂ Token.StandsFor
      (tokens ++ List.replicate missing (.fixed .closeCurly)) (tokens ++ closing) := by
    refine List.rel_append (Token.StandsFor.forall₂_refl tokens) ?_
    refine Token.StandsFor.forall₂_closing ?_ hkind (by rw [List.length_replicate]; omega)
    intro token hmem
    rw [List.eq_of_mem_replicate hmem]
    rfl
  rw [ofTokens_of_spelled (hspelled.of_standsFor hstands)]
  exact congrArg (Report.mk _) hok.symm

-- The body of the loop and the alternative in it are both cut short, the hash in it is not.
theorem ofTokens_append_closing_loop :
    let tokens : List Token := [⟨.kwWhile, "while"⟩, ⟨.openParen, "("⟩, ⟨.identifier, "x"⟩,
      ⟨.closeParen, ")"⟩, ⟨.openCurly, "\x7b"⟩, ⟨.kwIf, "if"⟩, ⟨.openParen, "("⟩,
      ⟨.identifier, "y"⟩, ⟨.closeParen, ")"⟩, ⟨.openCurly, "\x7b"⟩, ⟨.closeCurly, "\x7d"⟩,
      ⟨.kwElse, "else"⟩, ⟨.openCurly, "\x7b"⟩, ⟨.openCurly, "\x7b"⟩, ⟨.identifier, "x"⟩,
      ⟨.colon, ":"⟩, ⟨.identifier, "y"⟩, ⟨.closeCurly, "\x7d"⟩]
    let closing : List Token := [⟨.closeCurly, "\x7d"⟩, ⟨.closeCurly, "\x7d"⟩]
    ((∀ token ∈ tokens, token.kind ≠ .eof) ∧ (Program.ofTokens tokens).diagnostics = [] ∧
      (∀ token ∈ closing, token.kind = .closeCurly) ∧
      closing.length = countKind .openCurly tokens - countKind .closeCurly tokens) ∧
    countKind .closeCurly tokens ≤ countKind .openCurly tokens ∧
      Program.ofTokens (tokens ++ closing) = Program.ofTokens tokens := by
  intro tokens closing
  have hok : (∀ token ∈ tokens, token.kind ≠ .eof) ∧
      (Program.ofTokens tokens).diagnostics = [] := by decide
  obtain ⟨hle, hclosing⟩ := ofTokens_append_closing hok.1 hok.2
  exact ⟨⟨hok.1, hok.2, by decide, rfl⟩, hle, hclosing closing (by decide) rfl⟩

end Program

end ScriptFront
