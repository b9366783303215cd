import ScriptFront.Proofs.Reading.Progress
import ScriptFront.Proofs.Spelling.Basic
import ScriptFront.Proofs.Spelling.Taken

namespace ScriptFront

open Reader Parse

namespace Window

variable {w stop : Window}

theorem takes_of_expect {kind : TokenKind} (hclean : w.Clean) (hkind : kind ≠ .eof)
    (hrun : (expect kind : Parse Unit) w = .ok () stop) :
    ∃ token : Token, token.kind = kind ∧ w.Takes [token] stop ∧ stop.current = token := by
  rw [expect_apply] at hrun
  by_cases hpeek : w.peek.kind = kind
  · rw [if_pos hpeek] at hrun
    cases hrun
    have hk : w.peek.kind ≠ .eof := hpeek ▸ hkind
    exact ⟨w.peek, hpeek, takes_next (reads_peek hclean.terminated hk) hk, w.current_next⟩
  · rw [if_neg hpeek] at hrun
    cases hrun

theorem takes_of_ident {name : Ident} (hclean : w.Clean)
    (hrun : (ident : Parse Ident) w = .ok name stop) :
    ∃ token : Token, token.kind = .identifier ∧ w.Takes [token] stop ∧ name = .ofToken token := by
  simp only [ident, bind_eq_ok, current_apply, pure_apply, EStateM.Result.ok.injEq] at hrun
  obtain ⟨_, between, hexpect, _, _, ⟨rfl, rfl⟩, rfl, rfl⟩ := hrun
  obtain ⟨token, hkind, htakes, rfl⟩ := takes_of_expect hclean (by decide) hexpect
  exact ⟨_, hkind, htakes, rfl⟩

-- A token that is seen can be taken.
theorem takes_peek (hclean : w.Clean) {kind : TokenKind} (hpeek : w.peek.kind = kind)
    (hkind : kind ≠ .eof) : w.Takes [w.peek] w.next :=
  takes_next (reads_peek hclean.terminated (hpeek ▸ hkind)) (hpeek ▸ hkind)

theorem takes_of_furtherNames {names : List Ident} (hclean : w.Clean)
    (hrun : (collectWhile (·.peekIs .comma) (do advance; ident) : Parse (List Ident)) w =
      .ok names stop) :
    ∃ tokens, w.Takes tokens stop ∧ FurtherNames names tokens := by
  refine collectWhile_induction
    (motive := fun w names stop => w.Clean → ∃ tokens, w.Takes tokens stop ∧
      FurtherNames names tokens)
    shrinks_names ?_ ?_ hclean.terminated hrun hclean
  · exact fun _ _ => ⟨[], .refl _, .nil⟩
  · intro w between stop name names hend hgo hstep ih hclean
    simp only [bind_eq_ok, advance_apply, EStateM.Result.ok.injEq] at hstep
    obtain ⟨_, _, ⟨-, rfl⟩, hident⟩ := hstep
    have hcomma : w.peek.kind = .comma := by simpa [peekIs] using hgo
    have hnext := takes_peek hclean hcomma (by decide)
    obtain ⟨token, hkind, htoken, rfl⟩ := takes_of_ident (hnext.clean hclean) hident
    have htakes := hnext.trans htoken hclean
    obtain ⟨tokens, hrest, hnames⟩ := ih (htakes.clean hclean)
    exact ⟨_, htakes.trans hrest hclean, .cons hcomma hkind hnames⟩

theorem takes_of_parameters {names : List Ident} (hclean : w.Clean)
    (hrun : (parameters : Parse (List Ident)) w = .ok names stop) :
    ∃ (tokens : List Token) (closing : Token), closing.kind = .closeParen ∧
      w.Takes (tokens ++ [closing]) stop ∧ Names names tokens := by
  simp only [parameters, bind_eq_ok, peek_apply, EStateM.Result.ok.injEq] at hrun
  obtain ⟨_, _, ⟨rfl, rfl⟩, hrun⟩ := hrun
  by_cases hclose : w.peek.kind = .closeParen
  · rw [if_pos hclose] at hrun
    cases hrun
    exact ⟨[], w.peek, hclose, takes_peek hclean hclose (by decide), .nil⟩
  · rw [if_neg hclose] at hrun
    simp only [bind_eq_ok, pure_apply, EStateM.Result.ok.injEq] at hrun
    obtain ⟨first, _, hfirst, rest, _, hrest, _, _, hexpect, rfl, rfl⟩ := hrun
    obtain ⟨token, hkind, htoken, rfl⟩ := takes_of_ident hclean hfirst
    obtain ⟨tokens, htokens, hnames⟩ := takes_of_furtherNames (htoken.clean hclean) hrest
    have htakes := htoken.trans htokens hclean
    obtain ⟨closing, hclosing, hlast, -⟩ :=
      takes_of_expect (htakes.clean hclean) (by decide) hexpect
    exact ⟨_, closing, hclosing, htakes.trans hlast hclean, .cons hkind hnames⟩

-- Where no operator stands, none stands behind the statement either, unless it has a semicolon.
theorem takes_of_semicolon (hclean : w.Clean) (hpeek : .ofKind w.peek.kind ≤ Precedence.lowest)
    (hrun : (semicolon : Parse Unit) w = .ok () stop) :
    ∃ closed tokens, w.Takes tokens stop ∧ Ending closed tokens ∧
      (closed = true ∨ Precedence.ofKind stop.peek.kind = .lowest) := by
  simp only [semicolon, bind_eq_ok, peek_apply, EStateM.Result.ok.injEq] at hrun
  obtain ⟨_, _, ⟨rfl, rfl⟩, hrun⟩ := hrun
  by_cases hsemicolon : w.peek.kind = .semicolon
  · rw [if_pos hsemicolon] at hrun
    cases hrun
    exact ⟨true, _, takes_peek hclean hsemicolon (by decide), .semicolon hsemicolon, .inl rfl⟩
  · rw [if_neg hsemicolon] at hrun
    cases hrun
    exact ⟨false, _, .refl w, .none, .inr (Precedence.eq_lowest_of_le hpeek)⟩

end Window

namespace Grammar

theorem standard_stmtRule (kind : TokenKind) :
    kind = .kwLet ∧ (standard.stmtRule? kind).getD .expression = .letIn ∨
    kind = .kwReturn ∧ (standard.stmtRule? kind).getD .expression = .returns ∨
    (standard.stmtRule? kind).getD .expression = .expression := by
  cases kind <;> decide

-- Whatever is read as an expression with a number of levels is spelled by the tokens that are
-- taken for it, and no operator that could still be taken in stands behind it.
def SoundExpr (levels : Nat) : Prop :=
  ∀ {limit : Precedence} {w stop : Window} {e : Expr}, w.Clean → limit ≤ .operand →
    standard.expr levels limit w = .ok e stop →
    ∃ level tokens, w.Takes tokens stop ∧ Spelled levels (.expr level e) (w.current :: tokens) ∧
      (limit < level ∨ .operand ≤ level) ∧ .ofKind stop.peek.kind ≤ limit

section Rules

open Window

variable {levels : Nat} (h : SoundExpr levels) {w stop : Window}
include h

theorem SoundExpr.next {limit : Precedence} {e : Expr} (hclean : w.Clean)
    (hlimit : limit ≤ .operand) (hrun : standard.expr levels limit w.next = .ok e stop) :
    ∃ level tokens, w.Takes tokens stop ∧ Spelled levels (.expr level e) tokens ∧
      (limit < level ∨ .operand ≤ level) ∧ .ofKind stop.peek.kind ≤ limit := by
  have hk : w.peek.kind ≠ .eof := by
    rw [← w.current_next]
    exact current_ne_eof_of_expr standard_prefixRule?_eof hrun
  have hnext := takes_peek hclean rfl hk
  obtain ⟨level, tokens, htakes, hspelled, hlevel, hpeek⟩ := h (hnext.clean hclean) hlimit hrun
  rw [w.current_next] at hspelled
  exact ⟨level, _, hnext.trans htakes hclean, hspelled, hlevel, hpeek⟩

-- An expression with no limit on its operators, up to a token of its own behind it.
theorem SoundExpr.upTo {kind : TokenKind} {between : Window} {e : Expr} (hclean : w.Clean)
    (hkind : kind ≠ .eof) (hrun : standard.expr levels .lowest w.next = .ok e between)
    (hexpect : (expect kind : Parse Unit) between = .ok () stop) :
    ∃ (level : Precedence) (tokens : List Token) (closing : Token), closing.kind = kind ∧
      w.Takes (tokens ++ [closing]) stop ∧ Spelled levels (.expr level e) tokens := by
  obtain ⟨level, tokens, htakes, hspelled, -⟩ := h.next hclean (by decide) hrun
  obtain ⟨closing, hclosing, hlast, -⟩ := takes_of_expect (htakes.clean hclean) hkind hexpect
  exact ⟨level, tokens, closing, hclosing, htakes.trans hlast hclean, hspelled⟩

theorem SoundExpr.parenthesised {e : Expr} (hclean : w.Clean)
    (hrun : (standard.partsAt levels).parenthesised w = .ok e stop) :
    ∃ (level : Precedence) (tokens : List Token) (closing : Token), closing.kind = .closeParen ∧
      w.Takes (tokens ++ [closing]) stop ∧ Spelled levels (.expr level e) tokens := by
  simp only [Parts.parenthesised, bind_eq_ok, advance_apply, pure_apply,
    EStateM.Result.ok.injEq] at hrun
  obtain ⟨_, _, ⟨-, rfl⟩, inner, between, hinner, _, _, hexpect, rfl, rfl⟩ := hrun
  exact h.upTo hclean (by decide) hinner hexpect

theorem SoundExpr.condition {e : Expr} (hclean : w.Clean)
    (hrun : (standard.partsAt levels).condition w = .ok e stop) :
    ∃ (level : Precedence) (tokens : List Token) (opening closing : Token),
      opening.kind = .openParen ∧ closing.kind = .closeParen ∧
      w.Takes (opening :: (tokens ++ [closing])) stop ∧ Spelled levels (.expr level e) tokens := by
  simp only [Parts.condition, bind_eq_ok] at hrun
  obtain ⟨_, between, hexpect, hrest⟩ := hrun
  obtain ⟨opening, hopening, hfirst, -⟩ := takes_of_expect hclean (by decide) hexpect
  obtain ⟨level, tokens, closing, hclosing, htakes, hspelled⟩ :=
    h.parenthesised (hfirst.clean hclean) hrest
  exact ⟨level, tokens, opening, closing, hopening, hclosing, hfirst.trans htakes hclean, hspelled⟩

theorem SoundExpr.furtherExprs {es : List Expr} (hclean : w.Clean)
    (hrun : (collectWhile (·.peekIs .comma)
        (do advance; advance; (standard.partsAt levels).expr .lowest) : Parse (List Expr)) w =
      .ok es stop) :
    ∃ tokens, w.Takes tokens stop ∧ Spelled levels (.furtherExprs es) tokens := by
  refine collectWhile_induction
    (motive := fun w es stop => w.Clean → ∃ tokens, w.Takes tokens stop ∧
      Spelled levels (.furtherExprs es) tokens)
    (standard.shrinks_furtherExprs levels) ?_ ?_ hclean.terminated hrun hclean
  · exact fun _ _ => ⟨[], .refl _, .noFurtherExprs⟩
  · intro w between stop e es hend hgo hstep ih hclean
    simp only [bind_eq_ok, advance_apply, EStateM.Result.ok.injEq] at hstep
    obtain ⟨_, _, ⟨-, rfl⟩, _, _, ⟨-, rfl⟩, hexpr⟩ := hstep
    have hcomma : w.peek.kind = .comma := by simpa [peekIs] using hgo
    have hnext := takes_peek hclean hcomma (by decide)
    obtain ⟨level, tokens, htokens, hspelled, -⟩ := h.next (hnext.clean hclean) (by decide) hexpr
    have htakes := hnext.trans htokens hclean
    obtain ⟨tokens', hrest, hspelled'⟩ := ih (htakes.clean hclean)
    exact ⟨_, htakes.trans hrest hclean, .someFurtherExprs hcomma hspelled hspelled'⟩

theorem SoundExpr.exprList {close : TokenKind} {es : List Expr} (hclean : w.Clean)
    (hclose : close ≠ .eof) (hrun : (standard.partsAt levels).exprList close w = .ok es stop) :
    ∃ (tokens : List Token) (closing : Token), closing.kind = close ∧
      w.Takes (tokens ++ [closing]) stop ∧ Spelled levels (.exprs es) tokens := by
  simp only [Parts.exprList, bind_eq_ok, peek_apply, EStateM.Result.ok.injEq] at hrun
  obtain ⟨_, _, ⟨rfl, rfl⟩, hrun⟩ := hrun
  by_cases hpeek : w.peek.kind = close
  · rw [if_pos hpeek] at hrun
    cases hrun
    exact ⟨[], w.peek, hpeek, takes_peek hclean hpeek hclose, .noExprs⟩
  · rw [if_neg hpeek] at hrun
    simp only [bind_eq_ok, advance_apply, pure_apply, EStateM.Result.ok.injEq] at hrun
    obtain ⟨_, _, ⟨-, rfl⟩, first, _, hfirst, rest, _, hrest, _, _, hexpect, rfl, rfl⟩ := hrun
    obtain ⟨level, tokens, htokens, hspelled, -⟩ := h.next hclean (by decide) hfirst
    obtain ⟨tokens', htokens', hspelled'⟩ := h.furtherExprs (htokens.clean hclean) hrest
    have htakes := htokens.trans htokens' hclean
    obtain ⟨closing, hclosing, hlast, -⟩ := takes_of_expect (htakes.clean hclean) hclose hexpect
    exact ⟨_, closing, hclosing, htakes.trans hlast hclean, .someExprs hspelled hspelled'⟩

-- Without a comma behind it, a pair is the last one.
theorem SoundExpr.pair {pair : Expr × Expr} (hclean : w.Clean)
    (hrun : (standard.partsAt levels).pair w = .ok pair stop) :
    ∃ (keyLevel valueLevel : Precedence) (tokens tokens' comma : List Token) (colon : Token),
      w.Takes (tokens ++ colon :: (tokens' ++ comma)) stop ∧
      Spelled levels (.expr keyLevel pair.1) tokens ∧ colon.kind = .colon ∧
      Spelled levels (.expr valueLevel pair.2) tokens' ∧
      (comma = [] ∧ stop.peek.kind = .closeCurly ∨
        ∃ token : Token, comma = [token] ∧ token.kind = .comma) := by
  simp only [Parts.pair, bind_eq_ok, advance_apply, peek_apply, EStateM.Result.ok.injEq] at hrun
  obtain ⟨_, _, ⟨-, rfl⟩, key, _, hkey, _, _, hexpect, _, _, ⟨-, rfl⟩, value, between, hvalue, _, _,
    ⟨rfl, rfl⟩, hrun⟩ := hrun
  obtain ⟨keyLevel, tokens, colon, hcolon, htokens, hspelled⟩ :=
    h.upTo hclean (by decide) hkey hexpect
  obtain ⟨valueLevel, tokens', htokens', hspelled', -⟩ :=
    h.next (htokens.clean hclean) (by decide) hvalue
  have htakes : w.Takes (tokens ++ colon :: tokens') between := by
    simpa using htokens.trans htokens' hclean
  by_cases hpeek : between.peek.kind = .closeCurly
  · rw [if_pos hpeek] at hrun
    cases hrun
    refine ⟨keyLevel, valueLevel, tokens, tokens', [], colon, ?_, hspelled, hcolon, hspelled',
      .inl ⟨rfl, hpeek⟩⟩
    rwa [List.append_nil]
  · rw [if_neg hpeek] at hrun
    simp only [bind_eq_ok, pure_apply, EStateM.Result.ok.injEq] at hrun
    obtain ⟨_, _, hexpect, rfl, rfl⟩ := hrun
    obtain ⟨comma, hcomma, hlast, -⟩ :=
      takes_of_expect (htakes.clean hclean) (by decide) hexpect
    refine ⟨keyLevel, valueLevel, tokens, tokens', [comma], colon, ?_, hspelled, hcolon, hspelled',
      .inr ⟨comma, rfl, hcomma⟩⟩
    simpa using htakes.trans hlast hclean

theorem SoundExpr.pairs {ps : List (Expr × Expr)} (hclean : w.Clean)
    (hrun : (standard.partsAt levels).pairs w = .ok ps stop) :
    ∃ (tokens : List Token) (closing : Token), closing.kind = .closeCurly ∧
      w.Takes (tokens ++ [closing]) stop ∧ Spelled levels (.pairs ps) tokens := by
  simp only [Parts.pairs, bind_eq_ok, pure_apply, EStateM.Result.ok.injEq] at hrun
  obtain ⟨ps, between, hloop, _, _, hexpect, rfl, rfl⟩ := hrun
  have hpairs : (∃ tokens, w.Takes tokens between ∧ Spelled levels (.pairs ps) tokens) ∧
      (w.peek.kind = .closeCurly → ps = []) := by
    refine collectWhile_induction
      (motive := fun w ps stop => w.Clean →
        (∃ tokens, w.Takes tokens stop ∧ Spelled levels (.pairs ps) tokens) ∧
        (w.peek.kind = .closeCurly → ps = []))
      (shrinks_pair standard_prefixRule?_eof _) ?_ ?_ hclean.terminated hloop hclean
    · exact fun _ _ => ⟨⟨[], .refl _, .noPairs⟩, fun _ => rfl⟩
    · intro w between stop pair ps hend hgo hstep ih hclean
      have hpeek : w.peek.kind ≠ .closeCurly := by simpa [peekIs] using hgo
      obtain ⟨keyLevel, valueLevel, tokens, tokens', comma, colon, htakes, hkey, hcolon, hvalue,
        hcomma⟩ := h.pair hclean hstep
      obtain ⟨⟨tokens'', hrest, hspelled⟩, hlast⟩ := ih (htakes.clean hclean)
      refine ⟨⟨_, htakes.trans hrest hclean, ?_⟩, fun hclose => absurd hclose hpeek⟩
      cases hcomma with
      | inl hcomma =>
          obtain ⟨rfl, hclose⟩ := hcomma
          obtain rfl := hlast hclose
          cases hspelled
          simpa using Spelled.lastPair hkey hcolon hvalue
      | inr hcomma =>
          obtain ⟨token, rfl, hkind⟩ := hcomma
          simpa using Spelled.pairComma hkey hcolon hvalue hkind hspelled
  obtain ⟨⟨tokens, htokens, hspelled⟩, -⟩ := hpairs
  obtain ⟨closing, hclosing, hlast, -⟩ :=
    takes_of_expect (htokens.clean hclean) (by decide) hexpect
  exact ⟨tokens, closing, hclosing, htokens.trans hlast hclean, hspelled⟩

-- Behind a statement without a semicolon there is no operator.
theorem SoundExpr.stmt {s : Stmt} (hclean : w.Clean)
    (hrun : standard.stmt (standard.partsAt levels) w = .ok s stop) :
    ∃ closed tokens, w.Takes tokens stop ∧ Spelled levels (.stmt closed s) (w.current :: tokens) ∧
      (closed = true ∨ Precedence.ofKind stop.peek.kind = .lowest) := by
  simp only [Grammar.stmt, bind_eq_ok, current_apply, EStateM.Result.ok.injEq] at hrun
  obtain ⟨_, _, ⟨rfl, rfl⟩, hrun⟩ := hrun
  obtain ⟨hkind, hrule⟩ | ⟨hkind, hrule⟩ | hrule := standard_stmtRule w.current.kind
  · simp only [hrule, StmtRule.parse, bind_eq_ok, current_apply, advance_apply, pure_apply,
      EStateM.Result.ok.injEq] at hrun
    obtain ⟨_, _, ⟨rfl, rfl⟩, name, _, hname, _, _, hassign, _, _, ⟨-, rfl⟩, value, _, hvalue, _, _,
      hend, rfl, rfl⟩ := hrun
    obtain ⟨nameToken, hidentifier, hfirst, rfl⟩ := takes_of_ident hclean hname
    obtain ⟨assignment, hassignment, hsecond, -⟩ :=
      takes_of_expect (hfirst.clean hclean) (by decide) hassign
    have htakes := hfirst.trans hsecond hclean
    obtain ⟨level, tokens, hthird, hspelled, -, hpeek⟩ :=
      h.next (htakes.clean hclean) (by decide) hvalue
    have htakes := htakes.trans hthird hclean
    obtain ⟨closed, ending, hlast, hending, hafter⟩ :=
      takes_of_semicolon (htakes.clean hclean) hpeek hend
    exact ⟨closed, _, htakes.trans hlast hclean,
      .letIn hkind hidentifier hassignment hspelled hending, hafter⟩
  · simp only [hrule, StmtRule.parse, bind_eq_ok, current_apply, advance_apply, pure_apply,
      EStateM.Result.ok.injEq] at hrun
    obtain ⟨_, _, ⟨rfl, rfl⟩, _, _, ⟨-, rfl⟩, value, _, hvalue, _, _, hend, rfl, rfl⟩ := hrun
    obtain ⟨level, tokens, htakes, hspelled, -, hpeek⟩ := h.next hclean (by decide) hvalue
    obtain ⟨closed, ending, hlast, hending, hafter⟩ :=
      takes_of_semicolon (htakes.clean hclean) hpeek hend
    exact ⟨closed, _, htakes.trans hlast hclean, .returns hkind hspelled hending, hafter⟩
  · simp only [hrule, StmtRule.parse, bind_eq_ok, current_apply, pure_apply,
      EStateM.Result.ok.injEq] at hrun
    obtain ⟨_, _, ⟨rfl, rfl⟩, value, _, hvalue, _, _, hend, rfl, rfl⟩ := hrun
    obtain ⟨level, tokens, htakes, hspelled, -, hpeek⟩ := h hclean (by decide) hvalue
    obtain ⟨closed, ending, hlast, hending, hafter⟩ :=
      takes_of_semicolon (htakes.clean hclean) hpeek hend
    exact ⟨closed, _, htakes.trans hlast hclean, .expr hspelled hending, hafter⟩

-- What a block has taken grows by a statement at a time. The statement behind one without a
-- semicolon starts at the token that was seen not to be an operator.
theorem SoundExpr.statements {between : Window} {taken : List Token} {ss : List Stmt}
    (hclean : w.Clean) (hk : w.current.kind ≠ .eof) (htaken : w.Takes taken between)
    (hrun : (collectWhile inBlock (do
        let statement ← standard.stmt (standard.partsAt levels)
        advance
        return statement) : Parse (List Stmt)) between.next = .ok ss stop) :
    ∃ (tokens : List Token) (closing : Token), closing.kind = .closeCurly ∧
      w.Takes (taken ++ (tokens ++ [closing])) stop ∧ Spelled levels (.stmts ss) tokens ∧
      ∀ token ∈ tokens.head?, token = between.peek := by
  refine collectWhile_induction
    (motive := fun start ss stop => ∀ (taken : List Token) (between : Window),
      w.Takes taken between → between.next = start →
      ∃ (tokens : List Token) (closing : Token), closing.kind = .closeCurly ∧
        w.Takes (taken ++ (tokens ++ [closing])) stop ∧ Spelled levels (.stmts ss) tokens ∧
        ∀ token ∈ tokens.head?, token = between.peek)
    (standard.shrinks_inBlock levels) ?_ ?_ (htaken.clean hclean).terminated.next hrun taken between
    htaken rfl
  · rintro _ hgo taken between htaken rfl
    have hnext : between.next.current.kind = .closeCurly ∨ between.next.current.kind = .eof := by
      simpa [inBlock, Classical.or_iff_not_imp_left] using hgo
    obtain ⟨closing, hclosing, htakes⟩ := htaken.close hclean hk hnext
    exact ⟨[], closing, hclosing, htakes, .noStmts, by simp⟩
  · rintro _ after stop s ss hend hgo hstep ih taken between htaken rfl
    have hcleanBetween := htaken.clean hclean
    have hpeek : between.peek.kind ≠ .eof := by
      rw [← between.current_next]
      simp only [inBlock, Bool.and_eq_true, decide_eq_true_eq] at hgo
      exact hgo.2
    have hfirst := takes_peek hcleanBetween rfl hpeek
    simp only [bind_eq_ok, advance_apply, pure_apply, EStateM.Result.ok.injEq] at hstep
    obtain ⟨_, behind, hstmt, _, _, ⟨-, rfl⟩, rfl, rfl⟩ := hstep
    obtain ⟨closed, tokens, htokens, hspelled, hafter⟩ :=
      h.stmt (hfirst.clean hcleanBetween) hstmt
    rw [between.current_next] at hspelled
    have htakes := htaken.trans (hfirst.trans htokens hcleanBetween) hclean
    obtain ⟨tokens', closing, hclosing, hrest, hspelled', hhead⟩ := ih _ behind htakes rfl
    refine ⟨_, closing, hclosing, ?_, .someStmts hspelled hspelled' ?_, by simp⟩
    · simpa using hrest
    · exact hafter.imp_right fun hlowest token htoken => by rw [hhead token htoken]; exact hlowest

theorem SoundExpr.braced {b : Block} (hclean : w.Clean)
    (hrun : (standard.partsAt levels).braced w = .ok b stop) :
    ∃ tokens, w.Takes tokens stop ∧ Spelled levels (.block b) tokens := by
  simp only [Parts.braced, bind_eq_ok] at hrun
  obtain ⟨_, between, hexpect, hblock⟩ := hrun
  obtain ⟨opening, hopening, hfirst, rfl⟩ := takes_of_expect hclean (by decide) hexpect
  change standard.block (standard.expr levels) between = _ at hblock
  rw [standard_block_apply] at hblock
  simp only [blockOf, bind_eq_ok, current_apply, advance_apply, pure_apply,
    EStateM.Result.ok.injEq] at hblock
  obtain ⟨_, _, ⟨rfl, rfl⟩, _, _, ⟨-, rfl⟩, ss, _, hloop, rfl, rfl⟩ := hblock
  have hk : between.current.kind ≠ .eof := by rw [hopening]; decide
  obtain ⟨tokens, closing, hclosing, htakes, hspelled, -⟩ :=
    h.statements (hfirst.clean hclean) hk (.refl between) hloop
  exact ⟨_, hfirst.trans htakes hclean, .block hopening hspelled hclosing⟩

theorem SoundExpr.ifElse {e : Expr} (hclean : w.Clean) (hkind : w.current.kind = .kwIf)
    (hrun : PrefixRule.ifElse.parse (standard.partsAt levels) w = .ok e stop) :
    ∃ tokens, w.Takes tokens stop ∧
      Spelled (levels + 1) (.expr .index e) (w.current :: tokens) := by
  simp only [PrefixRule.parse, bind_eq_ok, current_apply, peek_apply,
    EStateM.Result.ok.injEq] at hrun
  obtain ⟨_, _, ⟨rfl, rfl⟩, condition, _, hcondition, consequence, between, hconsequence, _, _,
    ⟨rfl, rfl⟩, hrun⟩ := hrun
  obtain ⟨level, tokens, opening, closing, hopening, hclosing, hfirst, hspelled⟩ :=
    h.condition hclean hcondition
  obtain ⟨tokens', hsecond, hspelled'⟩ := h.braced (hfirst.clean hclean) hconsequence
  have htakes := hfirst.trans hsecond hclean
  by_cases helse : between.peek.kind = .kwElse
  · rw [if_pos helse] at hrun
    simp only [bind_eq_ok, advance_apply, pure_apply, EStateM.Result.ok.injEq] at hrun
    obtain ⟨_, _, ⟨-, rfl⟩, alternative, _, halternative, rfl, rfl⟩ := hrun
    have hthird := takes_peek (htakes.clean hclean) helse (by decide)
    have htakes := htakes.trans hthird hclean
    obtain ⟨tokens'', hlast, hspelled''⟩ := h.braced (htakes.clean hclean) halternative
    refine ⟨_, htakes.trans hlast hclean, ?_⟩
    simpa using Spelled.ifElse hkind hopening hspelled hclosing hspelled' helse hspelled''
  · rw [if_neg helse] at hrun
    cases hrun
    refine ⟨_, htakes, ?_⟩
    simpa using Spelled.ifThen hkind hopening hspelled hclosing hspelled'

theorem SoundExpr.prefixRule {rule : PrefixRule} {e : Expr} (hclean : w.Clean)
    (hrule : standardPrefix? w.current.kind = some rule)
    (hrun : rule.parse (standard.partsAt levels) w = .ok e stop) :
    ∃ level tokens, w.Takes tokens stop ∧
      Spelled (levels + 1) (.expr level e) (w.current :: tokens) ∧
      .operand ≤ level ∧ .ofKind stop.peek.kind ≤ level := by
  rw [standardPrefix?_eq_some] at hrule
  have hparse := hrun
  simp only [PrefixRule.parse, bind_eq_ok, current_apply, EStateM.Result.ok.injEq] at hrun
  obtain ⟨_, _, ⟨rfl, rfl⟩, hrun⟩ := hrun
  have htop (stop : Window) :
      .operand ≤ Precedence.index ∧ .ofKind stop.peek.kind ≤ Precedence.index :=
    ⟨by decide, Precedence.le_index _⟩
  cases rule with
  | identifier =>
      cases hrun
      exact ⟨_, [], .refl w, .ident (List.mem_singleton.mp hrule), htop _⟩
  | integer =>
      simp only [integerLiteral, bind_eq_ok, current_apply, EStateM.Result.ok.injEq] at hrun
      obtain ⟨_, _, ⟨rfl, rfl⟩, hrun⟩ := hrun
      cases hvalue : Text.int64? w.current.literal with
      | none => simp only [hvalue, blame_apply, reduceCtorEq] at hrun
      | some value =>
          simp only [hvalue, pure_apply, EStateM.Result.ok.injEq] at hrun
          obtain ⟨rfl, rfl⟩ := hrun
          exact ⟨_, [], .refl w, .integer (List.mem_singleton.mp hrule) hvalue, htop _⟩
  | string =>
      cases hrun
      exact ⟨_, [], .refl w, .string (List.mem_singleton.mp hrule), htop _⟩
  | boolean =>
      cases hrun
      have hkind : w.current.kind = .kwTrue ∨ w.current.kind = .kwFalse := by
        simpa [PrefixRule.kinds] using hrule
      exact ⟨_, [], .refl w, .boolean hkind, htop _⟩
  | operator =>
      simp only [bind_eq_ok, advance_apply, pure_apply, EStateM.Result.ok.injEq] at hrun
      obtain ⟨_, _, ⟨-, rfl⟩, right, _, hright, rfl, rfl⟩ := hrun
      obtain ⟨level, tokens, htakes, hspelled, hlevel, hpeek⟩ := h.next hclean (by decide) hright
      have hle : Precedence.operand ≤ level := by
        cases hlevel with
        | inl hlt => exact Nat.le_of_lt hlt
        | inr hle => exact hle
      exact ⟨_, tokens, htakes, .prefixOp hrule hspelled hle, by decide, hpeek⟩
  | grouped =>
      obtain ⟨level, tokens, closing, hclosing, htakes, hspelled⟩ := h.parenthesised hclean hrun
      exact ⟨_, _, htakes, .grouped (List.mem_singleton.mp hrule) hspelled hclosing, htop _⟩
  | ifElse =>
      obtain ⟨tokens, htakes, hspelled⟩ := h.ifElse hclean (List.mem_singleton.mp hrule) hparse
      exact ⟨_, tokens, htakes, hspelled, htop _⟩
  | whileLoop =>
      simp only [bind_eq_ok, pure_apply, EStateM.Result.ok.injEq] at hrun
      obtain ⟨condition, _, hcondition, body, _, hbody, rfl, rfl⟩ := hrun
      obtain ⟨level, tokens, opening, closing, hopening, hclosing, hfirst, hspelled⟩ :=
        h.condition hclean hcondition
      obtain ⟨tokens', hsecond, hspelled'⟩ := h.braced (hfirst.clean hclean) hbody
      refine ⟨_, _, hfirst.trans hsecond hclean, ?_, htop _⟩
      simpa using
        Spelled.whileLoop (List.mem_singleton.mp hrule) hopening hspelled hclosing hspelled'
  | function =>
      simp only [bind_eq_ok, pure_apply, EStateM.Result.ok.injEq] at hrun
      obtain ⟨_, _, hexpect, names, _, hnames, body, _, hbody, rfl, rfl⟩ := hrun
      obtain ⟨opening, hopening, hfirst, -⟩ := takes_of_expect hclean (by decide) hexpect
      obtain ⟨tokens, closing, hclosing, hsecond, hspelled⟩ :=
        takes_of_parameters (hfirst.clean hclean) hnames
      have htakes := hfirst.trans hsecond hclean
      obtain ⟨tokens', hthird, hspelled'⟩ := h.braced (htakes.clean hclean) hbody
      refine ⟨_, _, htakes.trans hthird hclean, ?_, htop _⟩
      simpa using
        Spelled.function (List.mem_singleton.mp hrule) hopening hspelled hclosing hspelled'
  | array =>
      simp only [bind_eq_ok, pure_apply, EStateM.Result.ok.injEq] at hrun
      obtain ⟨elements, _, helements, rfl, rfl⟩ := hrun
      obtain ⟨tokens, closing, hclosing, htakes, hspelled⟩ :=
        h.exprList hclean (by decide) helements
      exact ⟨_, _, htakes, .array (List.mem_singleton.mp hrule) hspelled hclosing, htop _⟩
  | hash =>
      simp only [bind_eq_ok, pure_apply, EStateM.Result.ok.injEq] at hrun
      obtain ⟨ps, _, hpairs, rfl, rfl⟩ := hrun
      obtain ⟨tokens, closing, hclosing, htakes, hspelled⟩ := h.pairs hclean hpairs
      exact ⟨_, _, htakes, .hash (List.mem_singleton.mp hrule) hspelled hclosing, htop _⟩

-- What has been read so far becomes the left of the next operator, which binds no more tightly
-- than the last one did.
theorem SoundExpr.continuation {start : Window} {left e : Expr} {level : Precedence}
    {taken : List Token} {rule : InfixRule} (hclean : start.Clean) (htaken : start.Takes taken w)
    (hspelled : Spelled (levels + 1) (.expr level left) (start.current :: taken))
    (hlevel : .ofKind w.peek.kind ≤ level) (hrule : standardInfix? w.peek.kind = some rule)
    (hrun : standard.continuation (standard.partsAt levels) left w = .ok e stop) :
    ∃ level' tokens, start.Takes tokens stop ∧
      Spelled (levels + 1) (.expr level' e) (start.current :: tokens) ∧
      .ofKind w.peek.kind ≤ level' ∧ .ofKind stop.peek.kind ≤ level' := by
  have hcleanW := htaken.clean hclean
  have hpeek : w.peek.kind ≠ .eof := by
    intro heof
    rw [heof] at hrule
    cases hrule
  have htakes := htaken.trans (takes_peek hcleanW rfl hpeek) hclean
  have hcleanNext := htakes.clean hclean
  have hrule' : standard.infixRule? w.next.current.kind = some rule := by
    rw [w.current_next]
    exact hrule
  simp only [Grammar.continuation, bind_eq_ok, advance_apply, current_apply,
    EStateM.Result.ok.injEq] at hrun
  obtain ⟨_, _, ⟨-, rfl⟩, _, _, ⟨rfl, rfl⟩, hrun⟩ := hrun
  simp only [hrule', InfixRule.parse, bind_eq_ok, current_apply, EStateM.Result.ok.injEq] at hrun
  obtain ⟨_, _, ⟨rfl, rfl⟩, hrun⟩ := hrun
  rw [w.current_next] at hrun
  rw [standardInfix?_eq_some] at hrule
  have hoperator (hcall : Precedence.operand < .ofKind w.peek.kind) : Precedence.operand < level :=
    Nat.lt_of_lt_of_le hcall hlevel
  cases rule with
  | operator =>
      simp only [bind_eq_ok, advance_apply, pure_apply, EStateM.Result.ok.injEq] at hrun
      obtain ⟨_, _, ⟨-, rfl⟩, right, _, hright, rfl, rfl⟩ := hrun
      have hoperand : Precedence.ofKind w.peek.kind < .operand := Precedence.ofKind_lt_operand hrule
      obtain ⟨level', tokens, hlast, hspelled', hlevel', hpeek'⟩ :=
        h.next hcleanNext (Nat.le_of_lt hoperand) hright
      have hlt : Precedence.ofKind w.peek.kind < level' := by
        cases hlevel' with
        | inl hlt => exact hlt
        | inr hle => exact Nat.lt_of_lt_of_le hoperand hle
      refine ⟨_, _, htakes.trans hlast hclean, ?_, Nat.le_refl _, hpeek'⟩
      simpa using Spelled.infixOp hrule hspelled hlevel hspelled' hlt
  | call =>
      simp only [bind_eq_ok, pure_apply, EStateM.Result.ok.injEq] at hrun
      obtain ⟨arguments, _, harguments, rfl, rfl⟩ := hrun
      have hopening : w.peek.kind = .openParen := List.mem_singleton.mp hrule
      obtain ⟨tokens, closing, hclosing, hlast, hspelled'⟩ :=
        h.exprList hcleanNext (by decide) harguments
      have hlt : Precedence.operand < level := hoperator (by rw [hopening]; decide)
      refine ⟨_, _, htakes.trans hlast hclean, ?_, Precedence.le_index _, Precedence.le_index _⟩
      simpa using Spelled.call hspelled hlt hopening hspelled' hclosing
  | index =>
      simp only [bind_eq_ok, advance_apply, pure_apply, EStateM.Result.ok.injEq] at hrun
      obtain ⟨_, _, ⟨-, rfl⟩, position, _, hposition, _, _, hexpect, rfl, rfl⟩ := hrun
      have hopening : w.peek.kind = .openBracket := List.mem_singleton.mp hrule
      obtain ⟨inner, tokens, closing, hclosing, hlast, hspelled'⟩ :=
        h.upTo hcleanNext (by decide) hposition hexpect
      have hlt : Precedence.operand < level := hoperator (by rw [hopening]; decide)
      refine ⟨_, _, htakes.trans hlast hclean, ?_, Precedence.le_index _, Precedence.le_index _⟩
      simpa using Spelled.index hspelled hlt hopening hspelled' hclosing
  | field =>
      simp only [bind_eq_ok, pure_apply, EStateM.Result.ok.injEq] at hrun
      obtain ⟨name, _, hname, rfl, rfl⟩ := hrun
      have hdot : w.peek.kind = .dot := List.mem_singleton.mp hrule
      obtain ⟨token, hidentifier, hlast, rfl⟩ := takes_of_ident hcleanNext hname
      have hlt : Precedence.operand < level := hoperator (by rw [hdot]; decide)
      refine ⟨_, _, htakes.trans hlast hclean, ?_, Precedence.le_index _, Precedence.le_index _⟩
      simpa using Spelled.field hspelled hlt hdot hidentifier

end Rules

-- What precedence stands for in a standard expression: an operator is one that binds at all.
theorem standard_continues_eq_false {limit : Precedence} {w : Window}
    (h : standard.continues limit w = false) : .ofKind w.peek.kind ≤ limit := by
  cases hrule : standard.infixRule? w.peek.kind with
  | some rule =>
      simp only [continues, hrule, Option.isSome_some, Bool.and_true, decide_eq_false_iff_not] at h
      exact Nat.le_of_not_lt h
  | none =>
      have hlowest : Precedence.ofKind w.peek.kind = .lowest := by
        revert hrule
        cases w.peek.kind <;> simp [standard, standardInfix?, Precedence.ofKind]
      rw [hlowest]
      exact Nat.zero_le _

theorem soundExpr (levels : Nat) : SoundExpr levels := by
  induction levels with
  | zero =>
      intro limit w stop e hclean hlimit hrun
      cases hrun
  | succ levels ih =>
      intro limit w stop e hclean hlimit hrun
      simp only [Grammar.expr, nested, bind_eq_ok, current_apply, EStateM.Result.ok.injEq] at hrun
      obtain ⟨_, _, ⟨rfl, rfl⟩, hrun⟩ := hrun
      cases hrule : standard.prefixRule? w.current.kind with
      | none => simp only [hrule, blame_apply, reduceCtorEq] at hrun
      | some rule =>
          simp only [hrule, bind_eq_ok] at hrun
          obtain ⟨left, between, hleft, hclimb⟩ := hrun
          obtain ⟨level, tokens, htakes, hspelled, hlevel, hpeek⟩ :=
            ih.prefixRule hclean hrule hleft
          -- the operators so far bind tighter than the limit, and the next one binds no more
          -- tightly than they do
          have hloop := iterateWhile_induction (motive := fun e w' => ∃ level tokens,
            w.Takes tokens w' ∧ Spelled (levels + 1) (.expr level e) (w.current :: tokens) ∧
            (limit < level ∨ .operand ≤ level) ∧ .ofKind w'.peek.kind ≤ level)
            (standard.shrinks_continuation levels limit) ?_ (htakes.clean hclean).terminated
            ⟨level, tokens, htakes, hspelled, .inr hlevel, hpeek⟩ hclimb
          · obtain ⟨⟨level, tokens, htakes, hspelled, hlevel, -⟩, hgo⟩ := hloop
            exact ⟨level, tokens, htakes, hspelled, hlevel, standard_continues_eq_false hgo⟩
          · rintro w' after left left' hend ⟨level, tokens, htakes, hspelled, hlevel, hpeek⟩ hgo
              hstep
            simp only [continues, Bool.and_eq_true, decide_eq_true_eq, Option.isSome_iff_exists]
              at hgo
            obtain ⟨hlt, rule, hrule⟩ := hgo
            obtain ⟨level', tokens', htakes', hspelled', hle, hpeek'⟩ :=
              ih.continuation hclean htakes hspelled hpeek hrule hstep
            exact ⟨level', tokens', htakes', hspelled', .inl (Nat.lt_of_lt_of_le hlt hle), hpeek'⟩

end Grammar

end ScriptFront
