import ScriptFront.Proofs.Spelling.Pieces

namespace ScriptFront

open Parse

-- How many tokens of a kind there are in a list.
def countKind (kind : TokenKind) (tokens : List Token) : Nat :=
  tokens.countP fun token => token.kind = kind

section Count

variable (kind : TokenKind) (token : Token) (tokens tokens' : List Token)

@[simp] theorem countKind_nil : countKind kind [] = 0 := rfl

@[simp] theorem countKind_cons :
    countKind kind (token :: tokens) =
      countKind kind tokens + if token.kind = kind then 1 else 0 := by
  simp [countKind, List.countP_cons]

@[simp] theorem countKind_append :
    countKind kind (tokens ++ tokens') = countKind kind tokens + countKind kind tokens' :=
  List.countP_append

@[simp] theorem countKind_replicate (count : Nat) :
    countKind kind (List.replicate count token) = if token.kind = kind then count else 0 := by
  simp [countKind, List.countP_replicate]

variable {kind tokens}

theorem countKind_eq_zero (h : ∀ token ∈ tokens, token.kind ≠ kind) : countKind kind tokens = 0 :=
  List.countP_eq_zero.mpr (by simpa using h)

end Count

theorem FurtherNames.kind_eq {names : List Ident} {tokens : List Token}
    (h : FurtherNames names tokens) :
    ∀ token ∈ tokens, token.kind = .comma ∨ token.kind = .identifier := by
  induction h with
  | nil => simp
  | cons hcomma hname _ ih => simp_all

-- No brace stands between the names of a function.
theorem Names.countKind_eq_zero {names : List Ident} {tokens : List Token}
    (h : Names names tokens) :
    countKind .openCurly tokens = 0 ∧ countKind .closeCurly tokens = 0 := by
  have hkinds : ∀ token ∈ tokens, token.kind = .comma ∨ token.kind = .identifier := by
    cases h with
    | nil => simp
    | cons hname hrest => simpa [hname] using hrest.kind_eq
  constructor <;> apply ScriptFront.countKind_eq_zero <;> intro token hmem hkind <;>
    simpa [hkind] using hkinds token hmem

theorem Ending.countKind_eq_zero {closed : Bool} {tokens : List Token} (h : Ending closed tokens) :
    countKind .openCurly tokens = 0 ∧ countKind .closeCurly tokens = 0 := by
  cases h with
  | none => exact ⟨rfl, rfl⟩
  | semicolon hkind => simp [hkind]

namespace Spelled

variable {levels : Nat} {phrase : Phrase} {tokens : List Token}

-- A spelling has a closing brace for every opening one.
theorem countKind_eq (h : Spelled levels phrase tokens) :
    countKind .openCurly tokens = countKind .closeCurly tokens := by
  induction h with
  | boolean hkind => obtain hkind | hkind := hkind <;> simp [hkind]
  | prefixOp hkind =>
      have hopen := ne_of_mem_of_not_mem hkind (show TokenKind.openCurly ∉ _ by decide)
      have hclose := ne_of_mem_of_not_mem hkind (show TokenKind.closeCurly ∉ _ by decide)
      simp_all
  | infixOp hkind =>
      have hopen := ne_of_mem_of_not_mem hkind (show TokenKind.openCurly ∉ _ by decide)
      have hclose := ne_of_mem_of_not_mem hkind (show TokenKind.closeCurly ∉ _ by decide)
      simp_all
  | function _ _ hnames =>
      have hzero := hnames.countKind_eq_zero
      simp_all
  | letIn _ _ _ _ hending | returns _ _ hending | expr _ hending =>
      have hzero := hending.countKind_eq_zero
      simp_all
  | _ => simp_all

theorem exists_block_last {b : Block} (h : Spelled levels (.block b) tokens) :
    ∃ front last, tokens = front ++ [last] ∧ last.kind = .closeCurly := by
  cases h with
  | @block _ _ opening closing tokens hopening _ hclosing =>
      exact ⟨opening :: tokens, closing, rfl, hclosing⟩

-- An expression does not end with a semicolon.
theorem exists_last {level : Precedence} {e : Expr} (h : Spelled levels (.expr level e) tokens) :
    ∃ front last, tokens = front ++ [last] ∧ last.kind ≠ .semicolon := by
  generalize hphrase : Phrase.expr level e = phrase at h
  induction h generalizing level e with
  | ident hkind | integer hkind | string hkind =>
      exact ⟨[], _, rfl, by rw [hkind]; decide⟩
  | boolean hkind =>
      refine ⟨[], _, rfl, ?_⟩
      obtain hkind | hkind := hkind <;> rw [hkind] <;> decide
  | @grouped _ _ _ opening closing tokens _ _ hclosing
  | @array _ _ opening closing tokens _ _ hclosing
  | @hash _ _ opening closing tokens _ _ hclosing =>
      exact ⟨opening :: tokens, closing, rfl, by rw [hclosing]; decide⟩
  | @prefixOp _ _ _ token _ _ _ _ ih =>
      obtain ⟨front, last, rfl, hlast⟩ := ih rfl
      exact ⟨token :: front, last, rfl, hlast⟩
  | @infixOp _ _ _ _ _ token tokens _ _ _ _ _ _ _ ih =>
      obtain ⟨front, last, rfl, hlast⟩ := ih rfl
      exact ⟨tokens ++ token :: front, last, by simp, hlast⟩
  | @call _ _ _ _ opening closing tokens tokens' _ _ _ _ hclosing
  | @index _ _ _ _ _ opening closing tokens tokens' _ _ _ _ hclosing =>
      exact ⟨tokens ++ opening :: tokens', closing, by simp, by rw [hclosing]; decide⟩
  | @field _ _ _ dot name tokens _ _ _ hname =>
      exact ⟨tokens ++ [dot], name, by simp, by rw [hname]; decide⟩
  | @ifThen _ _ _ _ token opening closing tokens _ _ _ _ _ hblock
  | @whileLoop _ _ _ _ token opening closing tokens _ _ _ _ _ hblock
  | @function _ _ _ token opening closing tokens _ _ _ _ _ hblock =>
      obtain ⟨front, last, rfl, hlast⟩ := hblock.exists_block_last
      exact ⟨token :: opening :: (tokens ++ closing :: front), last, by simp,
        by rw [hlast]; decide⟩
  | @ifElse _ _ _ _ _ token opening closing otherwise tokens tokens' _ _ _ _ _ _ _ hblock =>
      obtain ⟨front, last, rfl, hlast⟩ := hblock.exists_block_last
      exact ⟨token :: opening :: (tokens ++ closing :: (tokens' ++ otherwise :: front)), last,
        by simp, by rw [hlast]; decide⟩
  | _ => cases hphrase

theorem exists_stmt_last {s : Stmt} (h : Spelled levels (.stmt false s) tokens) :
    ∃ front last, tokens = front ++ [last] ∧ last.kind ≠ .semicolon := by
  cases h with
  | @letIn _ _ _ token name assignment _ tokens _ _ _ _ hvalue hending =>
      cases hending
      obtain ⟨front, last, rfl, hlast⟩ := hvalue.exists_last
      exact ⟨token :: name :: assignment :: front, last, by simp, hlast⟩
  | @returns _ _ _ token _ tokens _ _ hvalue hending =>
      cases hending
      obtain ⟨front, last, rfl, hlast⟩ := hvalue.exists_last
      exact ⟨token :: front, last, by simp, hlast⟩
  | expr hvalue hending =>
      cases hending
      obtain ⟨front, last, htokens, hlast⟩ := hvalue.exists_last
      exact ⟨front, last, by simpa using htokens, hlast⟩

-- So a statement that ends with one has it as its own.
theorem eq_true_of_semicolon {closed : Bool} {s : Stmt} {front : List Token} {last : Token}
    (h : Spelled levels (.stmt closed s) (front ++ [last])) (hlast : last.kind = .semicolon) :
    closed = true := by
  cases closed with
  | true => rfl
  | false =>
      obtain ⟨front', last', htokens, hne⟩ := h.exists_stmt_last
      obtain ⟨-, rfl⟩ := List.append_inj' htokens rfl |>.imp_right List.singleton_inj.mp
      exact absurd hlast hne

end Spelled

end ScriptFront
