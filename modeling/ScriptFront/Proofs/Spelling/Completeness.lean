import ScriptFront.Proofs.Reading.Progress
import ScriptFront.Proofs.Spelling.Basic

namespace ScriptFront

open Reader Parse

namespace Window

variable {w stop : Window} {tokens tokens' : List Token}

theorem expect_eq_ok {kind : TokenKind} (h : w.peek.kind = kind) :
    (expect kind : Parse Unit) w = .ok () w.next := by
  rw [expect_apply, if_pos h]

theorem ident_eq_ok (h : w.peek.kind = .identifier) :
    (ident : Parse Ident) w = .ok (.ofToken w.peek) w.next := by
  simp only [ident, bind_eq_ok, current_apply, pure_apply, EStateM.Result.ok.injEq]
  exact ⟨(), w.next, expect_eq_ok h, _, _, ⟨rfl, rfl⟩, by rw [w.current_next], rfl⟩

-- These tokens are the current one and those behind it, up to where the other window stands.
def Spans (start : Window) (tokens : List Token) (stop : Window) : Prop :=
  ∃ rest, tokens = start.current :: rest ∧ start.Reads rest stop

theorem Reads.spans_next (h : w.Reads tokens stop) (hne : tokens ≠ []) :
    w.next.Spans tokens stop := by
  cases tokens with
  | nil => exact absurd rfl hne
  | cons token rest =>
      obtain ⟨hpeek, hrest⟩ := h.of_cons
      exact ⟨rest, by rw [w.current_next, hpeek], hrest⟩

theorem Spans.of_append (h : w.Spans (tokens ++ tokens') stop) (hne : tokens ≠ []) :
    ∃ between, w.Spans tokens between ∧ between.Reads tokens' stop := by
  cases tokens with
  | nil => exact absurd rfl hne
  | cons token rest =>
      obtain ⟨rest', htokens, hread⟩ := h
      obtain ⟨rfl, rfl⟩ := List.cons.inj htokens
      obtain ⟨between, hfirst, hsecond⟩ := hread.of_append
      exact ⟨between, ⟨rest, rfl, hfirst⟩, hsecond⟩

theorem Spans.of_cons {token : Token} (h : w.Spans (token :: tokens) stop) :
    w.current = token ∧ w.Reads tokens stop := by
  obtain ⟨rest, htokens, hread⟩ := h
  obtain ⟨rfl, rfl⟩ := List.cons.inj htokens
  exact ⟨rfl, hread⟩

theorem Spans.terminated (h : w.Spans tokens stop) (hend : w.Terminated) : stop.Terminated := by
  obtain ⟨rest, -, hread⟩ := h
  exact hread.terminated hend

end Window

namespace Grammar

open Window

-- A token that no expression goes on with.
def Ends (kind : TokenKind) : Prop :=
  Precedence.ofKind kind = .lowest ∧ kind ≠ .kwElse

instance (kind : TokenKind) : Decidable (Ends kind) :=
  inferInstanceAs (Decidable (_ ∧ _))

-- A token that no statement goes on with.
def Separates (kind : TokenKind) : Prop :=
  Ends kind ∧ kind ≠ .semicolon

instance (kind : TokenKind) : Decidable (Separates kind) :=
  inferInstanceAs (Decidable (_ ∧ _))

-- What the tokens of a phrase are read as. Only a look at the token behind them tells the reader
-- to stop. An expression leaves the operators behind it, which bind no more tightly than its own,
-- to the caller.
def IsRead (levels : Nat) : Phrase → List Token → Prop
  | .expr level e, tokens => ∀ ⦃limit : Precedence⦄ ⦃w stop : Window⦄, w.Terminated →
      limit ≤ .operand → limit < level ∨ .operand ≤ level → w.Spans tokens stop →
      .ofKind stop.peek.kind ≤ level → stop.peek.kind ≠ .kwElse →
      standard.expr levels limit w = standard.climb (standard.partsAt (levels - 1)) limit e stop
  | .exprs es, tokens => ∀ ⦃close : TokenKind⦄ ⦃w stop : Window⦄, w.Terminated →
      close ∈ [TokenKind.closeParen, .closeBracket] → w.Reads tokens stop →
      stop.peek.kind = close → (standard.partsAt levels).exprList close w = .ok es stop.next
  | .furtherExprs es, tokens => ∀ ⦃w stop : Window⦄, w.Terminated → w.Reads tokens stop →
      stop.peek.kind ∈ [TokenKind.closeParen, .closeBracket] →
      (collectWhile (·.peekIs .comma)
        (do advance; advance; (standard.partsAt levels).expr .lowest) : Parse (List Expr)) w =
        .ok es stop
  | .pairs ps, tokens => ∀ ⦃w stop : Window⦄, w.Terminated → w.Reads tokens stop →
      stop.peek.kind = .closeCurly →
      collectWhile (fun window => !window.peekIs .closeCurly) (standard.partsAt levels).pair w =
        .ok ps stop
  | .block b, tokens => ∀ ⦃w stop : Window⦄, w.Terminated → w.Reads tokens stop →
      (standard.partsAt levels).braced w = .ok b stop
  | .stmt closed s, tokens => ∀ ⦃w stop : Window⦄, w.Terminated → w.Spans tokens stop →
      closed = true ∨ Separates stop.peek.kind →
      standard.stmt (standard.partsAt levels) w = .ok s stop
  | .stmts ss, tokens => ∀ ⦃w stop : Window⦄, w.Terminated → w.Reads tokens stop →
      stop.peek.kind = .closeCurly →
      (collectWhile inBlock (do
        let statement ← standard.stmt (standard.partsAt levels)
        advance
        return statement) : Parse (List Stmt)) w.next = .ok ss stop.next

section Expr

variable {levels : Nat} {level limit : Precedence} {e left : Expr} {tokens rest : List Token}
  {token : Token} {w stop : Window}

theorem climb_eq_ok (hpeek : .ofKind stop.peek.kind ≤ limit) :
    standard.climb (standard.partsAt levels) limit e stop = .ok e stop := by
  refine iterateWhile_of_not ?_
  simp only [continues, Bool.and_eq_false_iff, decide_eq_false_iff_not]
  exact .inl (Nat.not_lt_of_le hpeek)

-- An expression is read as a whole when no operator behind it binds more tightly than the limit.
theorem expr_eq_ok (h : IsRead levels (.expr level e) tokens) (hend : w.Terminated)
    (hlimit : limit ≤ .operand) (hlevel : limit < level ∨ .operand ≤ level)
    (hspans : w.Spans tokens stop) (hpeek : .ofKind stop.peek.kind ≤ limit)
    (helse : stop.peek.kind ≠ .kwElse) : standard.expr levels limit w = .ok e stop := by
  have hle : .ofKind stop.peek.kind ≤ level := by
    cases hlevel with
    | inl hlt => exact Nat.le_of_lt (Nat.lt_of_le_of_lt hpeek hlt)
    | inr hge => exact Nat.le_trans (Nat.le_trans hpeek hlimit) hge
  rw [h hend hlimit hlevel hspans hle helse, climb_eq_ok hpeek]

theorem isRead_of_prefixRule {rule : PrefixRule} (hrule : standardPrefix? token.kind = some rule)
    (hparse : ∀ {w stop : Window}, w.Terminated → w.current = token → w.Reads rest stop →
      .ofKind stop.peek.kind ≤ level → stop.peek.kind ≠ .kwElse →
      rule.parse (standard.partsAt levels) w = .ok e stop) :
    IsRead (levels + 1) (.expr level e) (token :: rest) := by
  intro limit w stop hend hlimit hlevel hspans hpeek helse
  obtain ⟨rfl, hread⟩ := hspans.of_cons
  have hrule' : standard.prefixRule? w.current.kind = some rule := hrule
  have hrun : rule.parse (standard.parts (standard.expr levels)) w = .ok e stop :=
    hparse hend rfl hread hpeek helse
  simp only [Grammar.expr, nested, bind_apply, current_apply, hrule', hrun]
  rfl

-- With the expression on the left read, its operator is next.
theorem exists_before_operator {rule : InfixRule} {leftLevel : Precedence}
    (hleft : IsRead (levels + 1) (.expr leftLevel left) tokens) (hne : tokens ≠ [])
    (hleftLevel : .ofKind token.kind ≤ leftLevel)
    (hbinds : level = .ofKind token.kind ∧ level < .operand ∨
      Precedence.operand < .ofKind token.kind)
    (hrule : standardInfix? token.kind = some rule) (hend : w.Terminated)
    (hlimit : limit ≤ .operand) (hlevel : limit < level ∨ .operand ≤ level)
    (hspans : w.Spans (tokens ++ token :: rest) stop) :
    ∃ between, between.Terminated ∧ standard.continues limit between = true ∧
      between.next.current = token ∧ between.next.Reads rest stop ∧
      standard.expr (levels + 1) limit w =
        standard.climb (standard.partsAt levels) limit left between ∧
      standard.continuation (standard.partsAt levels) left between =
        rule.parse (standard.partsAt levels) left between.next := by
  obtain ⟨between, hfirst, hrest⟩ := hspans.of_append hne
  obtain ⟨hbetween, hread⟩ := hrest.of_cons
  have hlt : limit < .ofKind token.kind := by
    cases hbinds with
    | inl h =>
        obtain ⟨rfl, hoperand⟩ := h
        exact hlevel.resolve_right (Nat.not_le_of_lt hoperand)
    | inr h => exact Nat.lt_of_le_of_lt hlimit h
  have hrule' : standard.infixRule? token.kind = some rule := hrule
  have hgo : standard.continues limit between = true := by
    simp only [continues, hbetween, hrule', Option.isSome_some, Bool.and_true, decide_eq_true_eq]
    exact hlt
  have hcurrent : between.next.current = token := by rw [between.current_next, hbetween]
  have hcontinuation : standard.continuation (standard.partsAt levels) left between =
      rule.parse (standard.partsAt levels) left between.next := by
    simp only [Grammar.continuation, bind_apply, advance_apply, current_apply, hcurrent, hrule']
  have hleftElse : between.peek.kind ≠ .kwElse := by
    intro hk
    rw [← hbetween, hk] at hrule
    cases hrule
  have hrun := hleft hend hlimit (.inl (Nat.lt_of_lt_of_le hlt hleftLevel)) hfirst
    (by rw [hbetween]; exact hleftLevel) hleftElse
  exact ⟨between, hfirst.terminated hend, hgo, hcurrent, hread, hrun, hcontinuation⟩

theorem isRead_of_infixRule {rule : InfixRule} {leftLevel : Precedence}
    (hleft : IsRead (levels + 1) (.expr leftLevel left) tokens) (hne : tokens ≠ [])
    (hleftLevel : .ofKind token.kind ≤ leftLevel)
    (hbinds : level = .ofKind token.kind ∧ level < .operand ∨
      Precedence.operand < .ofKind token.kind)
    (hrule : standardInfix? token.kind = some rule)
    (hparse : ∀ {w stop : Window}, w.Terminated → w.current = token → w.Reads rest stop →
      .ofKind stop.peek.kind ≤ level → stop.peek.kind ≠ .kwElse →
      rule.parse (standard.partsAt levels) left w = .ok e stop) :
    IsRead (levels + 1) (.expr level e) (tokens ++ token :: rest) := by
  intro limit w stop hend hlimit hlevel hspans hpeek helse
  obtain ⟨between, hendBetween, hgo, hcurrent, hread, hrun, hcontinuation⟩ :=
    exists_before_operator hleft hne hleftLevel hbinds hrule hend hlimit hlevel hspans
  rw [hparse hendBetween.next hcurrent hread hpeek helse] at hcontinuation
  rw [hrun]
  exact iterateWhile_of_ok (standard.shrinks_continuation levels limit) hendBetween hgo
    hcontinuation

end Expr

section Parts

variable {levels : Nat} {level : Precedence} {e : Expr} {b : Block} {tokens rest : List Token}
  {w stop : Window}

-- An expression with no limit on its operators is read up to a token that ends it.
theorem expr_lowest_eq_ok (hspelled : Spelled levels (.expr level e) tokens)
    (h : IsRead levels (.expr level e) tokens) (hend : w.Terminated)
    (hread : w.Reads tokens stop) (hends : Ends stop.peek.kind) :
    (standard.partsAt levels).expr .lowest w.next = .ok e stop :=
  expr_eq_ok h hend.next (by decide) (.inl hspelled.lowest_lt) (hread.spans_next hspelled.ne_nil)
    (Nat.le_of_eq (congrArg Precedence.rank hends.1)) hends.2

theorem exists_expr_eq_ok (hspelled : Spelled levels (.expr level e) tokens)
    (h : IsRead levels (.expr level e) tokens) (hend : w.Terminated) {token : Token}
    (hends : Ends token.kind) (hread : w.Reads (tokens ++ token :: rest) stop) :
    ∃ between, (standard.partsAt levels).expr .lowest w.next = .ok e between ∧
      between.Terminated ∧ between.peek = token ∧ between.Reads (token :: rest) stop := by
  obtain ⟨between, hfirst, hrest⟩ := hread.of_append
  obtain ⟨hpeek, -⟩ := hrest.of_cons
  rw [← hpeek] at hends
  exact ⟨between, expr_lowest_eq_ok hspelled h hend hfirst hends, hfirst.terminated hend, hpeek,
    hrest⟩

theorem exists_parenthesised_eq_ok (hspelled : Spelled levels (.expr level e) tokens)
    (h : IsRead levels (.expr level e) tokens) (hend : w.Terminated) {closing : Token}
    (hclosing : closing.kind = .closeParen)
    (hread : w.Reads (tokens ++ closing :: rest) stop) :
    ∃ between, (standard.partsAt levels).parenthesised w = .ok e between ∧
      between.Terminated ∧ between.Reads rest stop := by
  obtain ⟨between, hrun, hendBetween, hpeek, hrest⟩ :=
    exists_expr_eq_ok hspelled h hend (by rw [hclosing]; decide) hread
  refine ⟨between.next, ?_, hendBetween.next, hrest.of_cons.2⟩
  simp only [Parts.parenthesised, bind_eq_ok, advance_apply, pure_apply]
  exact ⟨_, _, rfl, e, between, hrun, _, _, expect_eq_ok (by rw [hpeek, hclosing]), rfl⟩

theorem exists_condition_eq_ok (hspelled : Spelled levels (.expr level e) tokens)
    (h : IsRead levels (.expr level e) tokens) (hend : w.Terminated) {opening closing : Token}
    (hopening : opening.kind = .openParen) (hclosing : closing.kind = .closeParen)
    (hread : w.Reads (opening :: (tokens ++ closing :: rest)) stop) :
    ∃ between, (standard.partsAt levels).condition w = .ok e between ∧
      between.Terminated ∧ between.Reads rest stop := by
  obtain ⟨hpeek, hread⟩ := hread.of_cons
  obtain ⟨between, hrun, hendBetween, hrest⟩ :=
    exists_parenthesised_eq_ok hspelled h hend.next hclosing hread
  refine ⟨between, ?_, hendBetween, hrest⟩
  simp only [Parts.condition, bind_eq_ok]
  exact ⟨_, _, expect_eq_ok (by rw [hpeek, hopening]), hrun⟩

theorem exists_braced_eq_ok (h : IsRead levels (.block b) tokens) (hend : w.Terminated)
    (hread : w.Reads (tokens ++ rest) stop) :
    ∃ between, (standard.partsAt levels).braced w = .ok b between ∧
      between.Terminated ∧ between.Reads rest stop := by
  obtain ⟨between, hfirst, hrest⟩ := hread.of_append
  exact ⟨between, h hend hfirst, hfirst.terminated hend, hrest⟩

theorem furtherNames_eq_ok {names : List Ident} (h : FurtherNames names tokens)
    (hend : w.Terminated) (hread : w.Reads tokens stop) (hpeek : stop.peek.kind = .closeParen) :
    (collectWhile (·.peekIs .comma) (do advance; ident) : Parse (List Ident)) w =
      .ok names stop := by
  induction h generalizing w with
  | nil =>
      rw [hread.eq_of_nil] at hpeek
      rw [hread.eq_of_nil]
      exact collectWhile_of_not (by simp [peekIs, hpeek])
  | cons hcomma hname hrest ih =>
      obtain ⟨hpeek', hread⟩ := hread.of_cons
      obtain ⟨hpeek'', hread⟩ := hread.of_cons
      have hident : (ident : Parse Ident) w.next = .ok (.ofToken w.next.peek) w.next.next :=
        ident_eq_ok (by rw [hpeek'', hname])
      have hstep : (do advance; ident : Parse Ident) w = .ok (.ofToken w.next.peek) w.next.next :=
        hident
      rw [collectWhile_of_ok shrinks_names hend (by simp [peekIs, hpeek', hcomma]) hstep]
      simp only [bind_eq_ok, pure_apply]
      exact ⟨_, _, ih hend.next.next hread, by rw [hpeek'']⟩

theorem exists_parameters_eq_ok {names : List Ident} (h : Names names tokens)
    (hend : w.Terminated) {closing : Token} (hclosing : closing.kind = .closeParen)
    (hread : w.Reads (tokens ++ closing :: rest) stop) :
    ∃ between, (parameters : Parse (List Ident)) w = .ok names between ∧
      between.Terminated ∧ between.Reads rest stop := by
  obtain ⟨before, hfirst, hrest⟩ := hread.of_append
  obtain ⟨hpeek, hread⟩ := hrest.of_cons
  have hbefore := hfirst.terminated hend
  refine ⟨before.next, ?_, hbefore.next, hread⟩
  simp only [parameters, bind_eq_ok, peek_apply]
  refine ⟨_, _, rfl, ?_⟩
  cases h with
  | nil =>
      rw [hfirst.eq_of_nil] at hpeek ⊢
      rw [if_pos (by rw [hpeek, hclosing])]
      rfl
  | cons hname hrest =>
      obtain ⟨hpeek', hread'⟩ := hfirst.of_cons
      have hnames := furtherNames_eq_ok hrest hend.next hread' (by rw [hpeek, hclosing])
      rw [if_neg (by rw [hpeek', hname]; decide)]
      simp only [bind_eq_ok, pure_apply]
      exact ⟨_, _, ident_eq_ok (by rw [hpeek', hname]), _, _, hnames, _, _,
        expect_eq_ok (by rw [hpeek, hclosing]), by rw [hpeek']⟩

end Parts

namespace IsRead

section Prefix

variable {levels : Nat} {level : Precedence} {e : Expr} {tokens tokens' : List Token}
  {token opening closing : Token}

theorem ident (hkind : token.kind = .identifier) :
    IsRead (levels + 1) (.expr .index (.ident (.ofToken token))) [token] := by
  refine isRead_of_prefixRule (by rw [hkind]; rfl) fun hend hcurrent hread _ _ => ?_
  rw [hread.eq_of_nil, ← hcurrent]
  rfl

theorem integer {value : Int64} (hkind : token.kind = .integer)
    (hvalue : Text.int64? token.literal = some value) :
    IsRead (levels + 1) (.expr .index (.integer token value)) [token] := by
  refine isRead_of_prefixRule (by rw [hkind]; rfl) fun {w stop} hend hcurrent hread _ _ => ?_
  rw [← hcurrent] at hvalue ⊢
  rw [hread.eq_of_nil]
  simp only [PrefixRule.parse, integerLiteral, bind_apply, current_apply, hvalue]
  rfl

theorem string (hkind : token.kind = .string) :
    IsRead (levels + 1) (.expr .index (.string token token.literal)) [token] := by
  refine isRead_of_prefixRule (by rw [hkind]; rfl) fun hend hcurrent hread _ _ => ?_
  rw [hread.eq_of_nil, ← hcurrent]
  rfl

theorem boolean (hkind : token.kind = .kwTrue ∨ token.kind = .kwFalse) :
    IsRead (levels + 1) (.expr .index (.boolean token (token.kind = .kwTrue))) [token] := by
  have hrule : standardPrefix? token.kind = some .boolean :=
    standardPrefix?_eq_some.mpr (by simpa [PrefixRule.kinds] using hkind)
  refine isRead_of_prefixRule hrule fun hend hcurrent hread _ _ => ?_
  rw [hread.eq_of_nil, ← hcurrent]
  rfl

theorem grouped (hopening : opening.kind = .openParen)
    (hspelled : Spelled levels (.expr level e) tokens) (h : IsRead levels (.expr level e) tokens)
    (hclosing : closing.kind = .closeParen) :
    IsRead (levels + 1) (.expr .index e) (opening :: (tokens ++ [closing])) := by
  refine isRead_of_prefixRule (by rw [hopening]; rfl) fun hend hcurrent hread _ _ => ?_
  obtain ⟨between, hrun, -, hrest⟩ := exists_parenthesised_eq_ok hspelled h hend hclosing hread
  rw [hrest.eq_of_nil]
  simp only [PrefixRule.parse, bind_eq_ok, current_apply]
  exact ⟨_, _, rfl, hrun⟩

theorem prefixOp (hkind : token.kind ∈ TokenKind.unaryOperators)
    (hspelled : Spelled levels (.expr level e) tokens) (h : IsRead levels (.expr level e) tokens)
    (hlevel : .operand ≤ level) :
    IsRead (levels + 1) (.expr .operand (.prefixOp token token.literal e)) (token :: tokens) := by
  have hrule : standardPrefix? token.kind = some .operator := standardPrefix?_eq_some.mpr hkind
  refine isRead_of_prefixRule hrule fun {w stop} hend hcurrent hread hpeek helse => ?_
  have hrun : standard.expr levels .operand w.next = .ok e stop :=
    expr_eq_ok h hend.next (Nat.le_refl _) (.inr hlevel) (hread.spans_next hspelled.ne_nil) hpeek
      helse
  simp only [PrefixRule.parse, bind_eq_ok, current_apply, advance_apply, pure_apply]
  exact ⟨_, _, rfl, _, _, rfl, _, _, hrun, by rw [hcurrent]⟩

theorem array {elements : List Expr} (hopening : opening.kind = .openBracket)
    (h : IsRead levels (.exprs elements) tokens) (hclosing : closing.kind = .closeBracket) :
    IsRead (levels + 1) (.expr .index (.array opening elements))
      (opening :: (tokens ++ [closing])) := by
  refine isRead_of_prefixRule (by rw [hopening]; rfl) fun {w stop} hend hcurrent hread _ _ => ?_
  obtain ⟨between, hfirst, hrest⟩ := hread.of_append
  obtain ⟨hpeek, hrest⟩ := hrest.of_cons
  have hrun : (standard.partsAt levels).exprList .closeBracket w = .ok elements between.next :=
    h hend (by decide) hfirst (by rw [hpeek, hclosing])
  rw [hrest.eq_of_nil]
  simp only [PrefixRule.parse, bind_eq_ok, current_apply, pure_apply]
  exact ⟨_, _, rfl, _, _, hrun, by rw [hcurrent]⟩

theorem hash {ps : List (Expr × Expr)} (hopening : opening.kind = .openCurly)
    (h : IsRead levels (.pairs ps) tokens) (hclosing : closing.kind = .closeCurly) :
    IsRead (levels + 1) (.expr .index (.hash opening ps)) (opening :: (tokens ++ [closing])) := by
  refine isRead_of_prefixRule (by rw [hopening]; rfl) fun {w stop} hend hcurrent hread _ _ => ?_
  obtain ⟨between, hfirst, hrest⟩ := hread.of_append
  obtain ⟨hpeek, hrest⟩ := hrest.of_cons
  have hrun := h hend hfirst (by rw [hpeek, hclosing])
  rw [hrest.eq_of_nil]
  simp only [PrefixRule.parse, Parts.pairs, bind_eq_ok, current_apply, pure_apply]
  exact ⟨_, _, rfl, _, _, ⟨_, _, hrun, _, _, expect_eq_ok (by rw [hpeek, hclosing]), rfl⟩,
    by rw [hcurrent]⟩

theorem ifThen {consequence : Block} (hkind : token.kind = .kwIf)
    (hopening : opening.kind = .openParen) (hspelled : Spelled levels (.expr level e) tokens)
    (h : IsRead levels (.expr level e) tokens) (hclosing : closing.kind = .closeParen)
    (h' : IsRead levels (.block consequence) tokens') :
    IsRead (levels + 1) (.expr .index (.ifElse token e consequence none))
      (token :: opening :: (tokens ++ closing :: tokens')) := by
  refine isRead_of_prefixRule (by rw [hkind]; rfl) fun {w stop} hend hcurrent hread _ helse => ?_
  obtain ⟨between, hcondition, hendBetween, hrest⟩ :=
    exists_condition_eq_ok hspelled h hend hopening hclosing hread
  have hconsequence := h' hendBetween hrest
  simp only [PrefixRule.parse, bind_eq_ok, current_apply, peek_apply]
  refine ⟨_, _, rfl, _, _, hcondition, _, _, hconsequence, _, _, rfl, ?_⟩
  rw [if_neg helse, hcurrent]
  rfl

theorem ifElse {consequence alternative : Block} {otherwise : Token} {tokens'' : List Token}
    (hkind : token.kind = .kwIf) (hopening : opening.kind = .openParen)
    (hspelled : Spelled levels (.expr level e) tokens) (h : IsRead levels (.expr level e) tokens)
    (hclosing : closing.kind = .closeParen) (h' : IsRead levels (.block consequence) tokens')
    (hotherwise : otherwise.kind = .kwElse)
    (h'' : IsRead levels (.block alternative) tokens'') :
    IsRead (levels + 1) (.expr .index (.ifElse token e consequence (some alternative)))
      (token :: opening :: (tokens ++ closing :: (tokens' ++ otherwise :: tokens''))) := by
  refine isRead_of_prefixRule (by rw [hkind]; rfl) fun {w stop} hend hcurrent hread _ _ => ?_
  obtain ⟨between, hcondition, hendBetween, hrest⟩ :=
    exists_condition_eq_ok hspelled h hend hopening hclosing hread
  obtain ⟨before, hconsequence, hendBefore, hrest⟩ := exists_braced_eq_ok h' hendBetween hrest
  obtain ⟨hpeek, hrest⟩ := hrest.of_cons
  have halternative := h'' hendBefore.next hrest
  simp only [PrefixRule.parse, bind_eq_ok, current_apply, peek_apply]
  refine ⟨_, _, rfl, _, _, hcondition, _, _, hconsequence, _, _, rfl, ?_⟩
  rw [if_pos (by rw [hpeek, hotherwise])]
  simp only [bind_eq_ok, advance_apply, pure_apply]
  exact ⟨_, _, rfl, _, _, halternative, by rw [hcurrent]⟩

theorem whileLoop {body : Block} (hkind : token.kind = .kwWhile)
    (hopening : opening.kind = .openParen) (hspelled : Spelled levels (.expr level e) tokens)
    (h : IsRead levels (.expr level e) tokens) (hclosing : closing.kind = .closeParen)
    (h' : IsRead levels (.block body) tokens') :
    IsRead (levels + 1) (.expr .index (.whileLoop token e body))
      (token :: opening :: (tokens ++ closing :: tokens')) := by
  refine isRead_of_prefixRule (by rw [hkind]; rfl) fun {w stop} hend hcurrent hread _ _ => ?_
  obtain ⟨between, hcondition, hendBetween, hrest⟩ :=
    exists_condition_eq_ok hspelled h hend hopening hclosing hread
  simp only [PrefixRule.parse, bind_eq_ok, current_apply, pure_apply]
  exact ⟨_, _, rfl, _, _, hcondition, _, _, h' hendBetween hrest, by rw [hcurrent]⟩

theorem function {names : List Ident} {body : Block} (hkind : token.kind = .kwFn)
    (hopening : opening.kind = .openParen) (hnames : Names names tokens)
    (hclosing : closing.kind = .closeParen) (h' : IsRead levels (.block body) tokens') :
    IsRead (levels + 1) (.expr .index (.function token names body))
      (token :: opening :: (tokens ++ closing :: tokens')) := by
  refine isRead_of_prefixRule (by rw [hkind]; rfl) fun {w stop} hend hcurrent hread _ _ => ?_
  obtain ⟨hpeek, hread⟩ := hread.of_cons
  obtain ⟨between, hparameters, hendBetween, hrest⟩ :=
    exists_parameters_eq_ok hnames hend.next hclosing hread
  simp only [PrefixRule.parse, bind_eq_ok, current_apply, pure_apply]
  exact ⟨_, _, rfl, _, _, expect_eq_ok (by rw [hpeek, hopening]), _, _, hparameters, _, _,
    h' hendBetween hrest, by rw [hcurrent]⟩

end Prefix

section Infix

variable {levels : Nat} {leftLevel level : Precedence} {left e : Expr}
  {tokens tokens' : List Token} {token opening closing : Token}

theorem infixOp (hkind : token.kind ∈ TokenKind.binaryOperators)
    (hleftSpelled : Spelled (levels + 1) (.expr leftLevel left) tokens)
    (hleft : IsRead (levels + 1) (.expr leftLevel left) tokens)
    (hleftLevel : .ofKind token.kind ≤ leftLevel)
    (hspelled : Spelled levels (.expr level e) tokens') (h : IsRead levels (.expr level e) tokens')
    (hlevel : .ofKind token.kind < level) :
    IsRead (levels + 1) (.expr (.ofKind token.kind) (.infixOp token token.literal left e))
      (tokens ++ token :: tokens') := by
  have hrule : standardInfix? token.kind = some .operator := standardInfix?_eq_some.mpr hkind
  have hoperand := Precedence.ofKind_lt_operand hkind
  refine isRead_of_infixRule hleft hleftSpelled.ne_nil hleftLevel (.inl ⟨rfl, hoperand⟩) hrule
    fun {w stop} hend hcurrent hread hpeek helse => ?_
  have hrun : standard.expr levels (.ofKind token.kind) w.next = .ok e stop :=
    expr_eq_ok h hend.next (Nat.le_of_lt hoperand) (.inl hlevel)
      (hread.spans_next hspelled.ne_nil) hpeek helse
  simp only [InfixRule.parse, bind_eq_ok, current_apply, advance_apply, pure_apply]
  exact ⟨_, _, rfl, _, _, rfl, _, _, by rw [hcurrent]; exact hrun, by rw [hcurrent]⟩

theorem call {arguments : List Expr}
    (hleftSpelled : Spelled (levels + 1) (.expr leftLevel left) tokens)
    (hleft : IsRead (levels + 1) (.expr leftLevel left) tokens) (hleftLevel : .operand < leftLevel)
    (hopening : opening.kind = .openParen) (h : IsRead levels (.exprs arguments) tokens')
    (hclosing : closing.kind = .closeParen) :
    IsRead (levels + 1) (.expr .index (.call opening left arguments))
      (tokens ++ opening :: (tokens' ++ [closing])) := by
  refine isRead_of_infixRule hleft hleftSpelled.ne_nil
    (by rw [hleftSpelled.eq_index hleftLevel]; exact Precedence.le_index _)
    (.inr (by rw [hopening]; decide)) (by rw [hopening]; rfl)
    fun {w stop} hend hcurrent hread _ _ => ?_
  obtain ⟨between, hfirst, hrest⟩ := hread.of_append
  obtain ⟨hpeek, hrest⟩ := hrest.of_cons
  have hrun : (standard.partsAt levels).exprList .closeParen w = .ok arguments between.next :=
    h hend (by decide) hfirst (by rw [hpeek, hclosing])
  rw [hrest.eq_of_nil]
  simp only [InfixRule.parse, bind_eq_ok, current_apply, pure_apply]
  exact ⟨_, _, rfl, _, _, hrun, by rw [hcurrent]⟩

theorem index (hleftSpelled : Spelled (levels + 1) (.expr leftLevel left) tokens)
    (hleft : IsRead (levels + 1) (.expr leftLevel left) tokens) (hleftLevel : .operand < leftLevel)
    (hopening : opening.kind = .openBracket) (hspelled : Spelled levels (.expr level e) tokens')
    (h : IsRead levels (.expr level e) tokens') (hclosing : closing.kind = .closeBracket) :
    IsRead (levels + 1) (.expr .index (.index opening left e))
      (tokens ++ opening :: (tokens' ++ [closing])) := by
  refine isRead_of_infixRule hleft hleftSpelled.ne_nil
    (by rw [hleftSpelled.eq_index hleftLevel]; exact Precedence.le_index _)
    (.inr (by rw [hopening]; decide)) (by rw [hopening]; rfl)
    fun {w stop} hend hcurrent hread _ _ => ?_
  obtain ⟨between, hrun, -, hpeek, hrest⟩ :=
    exists_expr_eq_ok hspelled h hend (by rw [hclosing]; decide) hread
  rw [hrest.of_cons.2.eq_of_nil]
  simp only [InfixRule.parse, bind_eq_ok, current_apply, advance_apply, pure_apply]
  exact ⟨_, _, rfl, _, _, rfl, _, _, hrun, _, _, expect_eq_ok (by rw [hpeek, hclosing]),
    by rw [hcurrent]⟩

theorem field {dot name : Token} (hleftSpelled : Spelled (levels + 1) (.expr leftLevel left) tokens)
    (hleft : IsRead (levels + 1) (.expr leftLevel left) tokens) (hleftLevel : .operand < leftLevel)
    (hdot : dot.kind = .dot) (hname : name.kind = .identifier) :
    IsRead (levels + 1) (.expr .index (.field dot left (.ofToken name)))
      (tokens ++ [dot, name]) := by
  refine isRead_of_infixRule hleft hleftSpelled.ne_nil
    (by rw [hleftSpelled.eq_index hleftLevel]; exact Precedence.le_index _)
    (.inr (by rw [hdot]; decide)) (by rw [hdot]; rfl) fun {w stop} hend hcurrent hread _ _ => ?_
  obtain ⟨hpeek, hrest⟩ := hread.of_cons
  rw [hrest.eq_of_nil]
  simp only [InfixRule.parse, bind_eq_ok, current_apply, pure_apply]
  exact ⟨_, _, rfl, _, _, ident_eq_ok (by rw [hpeek, hname]), by rw [hcurrent, hpeek]⟩

end Infix

section Lists

variable {levels : Nat} {level level' : Precedence} {e e' : Expr} {es : List Expr}
  {ps : List (Expr × Expr)} {tokens tokens' tokens'' : List Token} {w stop : Window}

theorem noExprs : IsRead levels (.exprs []) [] := by
  intro close w stop hend _ hread hpeek
  rw [hread.eq_of_nil] at hpeek ⊢
  simp only [Parts.exprList, bind_eq_ok, peek_apply]
  exact ⟨_, _, rfl, by rw [if_pos hpeek]; rfl⟩

-- Behind an expression in a list there is a comma or the end of the list.
theorem peek_of_furtherExprs (h : Spelled levels (.furtherExprs es) tokens)
    (hread : w.Reads tokens stop)
    (hpeek : stop.peek.kind ∈ [TokenKind.closeParen, .closeBracket]) : Ends w.peek.kind := by
  cases h with
  | noFurtherExprs =>
      rw [hread.eq_of_nil] at hpeek
      revert hpeek
      cases w.peek.kind <;> decide
  | someFurtherExprs hcomma =>
      rw [hread.of_cons.1, hcomma]
      decide

theorem noFurtherExprs : IsRead levels (.furtherExprs []) [] := by
  intro w stop hend hread hpeek
  rw [hread.eq_of_nil] at hpeek ⊢
  refine collectWhile_of_not ?_
  simp only [peekIs, decide_eq_false_iff_not]
  intro hcomma
  rw [hcomma] at hpeek
  exact absurd hpeek (by decide)

theorem someFurtherExprs {comma : Token} (hcomma : comma.kind = .comma)
    (hspelled : Spelled levels (.expr level e) tokens) (h : IsRead levels (.expr level e) tokens)
    (hspelled' : Spelled levels (.furtherExprs es) tokens')
    (h' : IsRead levels (.furtherExprs es) tokens') :
    IsRead levels (.furtherExprs (e :: es)) (comma :: (tokens ++ tokens')) := by
  intro w stop hend hread hpeek
  obtain ⟨hpeekComma, hread⟩ := hread.of_cons
  obtain ⟨between, hfirst, hrest⟩ := hread.of_append
  have hrun := expr_lowest_eq_ok hspelled h hend.next hfirst
    (peek_of_furtherExprs hspelled' hrest hpeek)
  have hstep : (do advance; advance; (standard.partsAt levels).expr .lowest : Parse Expr) w =
      .ok e between := hrun
  rw [collectWhile_of_ok (standard.shrinks_furtherExprs levels) hend
    (by simp [peekIs, hpeekComma, hcomma]) hstep]
  simp only [bind_eq_ok, pure_apply]
  exact ⟨_, _, h' (hfirst.terminated hend.next) hrest hpeek, rfl⟩

-- A list of expressions does not end before the first of them.
theorem peek_ne_close {close : TokenKind} (hspelled : Spelled levels (.expr level e) tokens)
    (hread : w.Reads (tokens ++ tokens') stop)
    (hclose : close ∈ [TokenKind.closeParen, .closeBracket]) : w.peek.kind ≠ close := by
  obtain ⟨token, rest, rule, rfl, hrule⟩ := hspelled.exists_head
  rw [hread.of_cons.1]
  rintro rfl
  revert hclose hrule
  cases token.kind <;> simp [standardPrefix?]

theorem someExprs (hspelled : Spelled levels (.expr level e) tokens)
    (h : IsRead levels (.expr level e) tokens)
    (hspelled' : Spelled levels (.furtherExprs es) tokens')
    (h' : IsRead levels (.furtherExprs es) tokens') :
    IsRead levels (.exprs (e :: es)) (tokens ++ tokens') := by
  intro close w stop hend hclose hread hpeek
  obtain ⟨between, hfirst, hrest⟩ := hread.of_append
  have hclose' : stop.peek.kind ∈ [TokenKind.closeParen, .closeBracket] := by rwa [hpeek]
  have hrun := expr_lowest_eq_ok hspelled h hend hfirst
    (peek_of_furtherExprs hspelled' hrest hclose')
  have hne : w.peek.kind ≠ close := peek_ne_close hspelled hread hclose
  simp only [Parts.exprList, bind_eq_ok, peek_apply]
  refine ⟨_, _, rfl, ?_⟩
  rw [if_neg hne]
  simp only [bind_eq_ok, advance_apply, pure_apply]
  exact ⟨_, _, rfl, _, _, hrun, _, _, h' (hfirst.terminated hend) hrest hclose', _, _,
    expect_eq_ok hpeek, rfl⟩

theorem noPairs : IsRead levels (.pairs []) [] := by
  intro w stop hend hread hpeek
  rw [hread.eq_of_nil] at hpeek ⊢
  exact collectWhile_of_not (by simp [peekIs, hpeek])

-- A pair is there when its key is.
theorem not_peekIs_closeCurly (hspelled : Spelled levels (.expr level e) tokens)
    (hread : w.Reads (tokens ++ tokens') stop) : (!w.peekIs .closeCurly) = true := by
  obtain ⟨token, rest, rule, rfl, hrule⟩ := hspelled.exists_head
  simp only [peekIs, hread.of_cons.1, Bool.not_eq_true', decide_eq_false_iff_not]
  intro hk
  rw [hk] at hrule
  cases hrule

theorem pair_eq_ok {colon : Token} {between : Window}
    (hspelled : Spelled levels (.expr level e) tokens) (h : IsRead levels (.expr level e) tokens)
    (hcolon : colon.kind = .colon) (hspelled' : Spelled levels (.expr level' e') tokens')
    (h' : IsRead levels (.expr level' e') tokens') (hend : w.Terminated)
    (hread : w.Reads (tokens ++ colon :: tokens') between)
    (hpeek : between.peek.kind = .closeCurly ∧ stop = between ∨
      between.peek.kind = .comma ∧ stop = between.next) :
    (standard.partsAt levels).pair w = .ok (e, e') stop := by
  obtain ⟨before, hkey, hendBefore, hpeekColon, hrest⟩ :=
    exists_expr_eq_ok hspelled h hend (by rw [hcolon]; decide) hread
  have hends : Ends between.peek.kind := by
    obtain ⟨hclose, -⟩ | ⟨hcomma, -⟩ := hpeek
    · rw [hclose]; decide
    · rw [hcomma]; decide
  have hvalue := expr_lowest_eq_ok hspelled' h' hendBefore.next hrest.of_cons.2 hends
  simp only [Parts.pair, bind_eq_ok, advance_apply, peek_apply]
  refine ⟨_, _, rfl, _, _, hkey, _, _, expect_eq_ok (by rw [hpeekColon, hcolon]), _, _, rfl, _, _,
    hvalue, _, _, rfl, ?_⟩
  obtain ⟨hclose, rfl⟩ | ⟨hcomma, rfl⟩ := hpeek
  · rw [if_pos hclose]
    rfl
  · rw [if_neg (by rw [hcomma]; decide)]
    simp only [bind_eq_ok, pure_apply]
    exact ⟨_, _, expect_eq_ok hcomma, rfl⟩

theorem lastPair {colon : Token} (hspelled : Spelled levels (.expr level e) tokens)
    (h : IsRead levels (.expr level e) tokens) (hcolon : colon.kind = .colon)
    (hspelled' : Spelled levels (.expr level' e') tokens')
    (h' : IsRead levels (.expr level' e') tokens') :
    IsRead levels (.pairs [(e, e')]) (tokens ++ colon :: tokens') := by
  intro w stop hend hread hpeek
  have hrun := pair_eq_ok hspelled h hcolon hspelled' h' hend hread (.inl ⟨hpeek, rfl⟩)
  rw [collectWhile_of_ok (shrinks_pair standard_prefixRule?_eof _) hend
    (not_peekIs_closeCurly hspelled hread) hrun]
  simp only [bind_eq_ok, pure_apply]
  exact ⟨_, _, collectWhile_of_not (by simp [peekIs, hpeek]), rfl⟩

theorem pairComma {colon comma : Token} (hspelled : Spelled levels (.expr level e) tokens)
    (h : IsRead levels (.expr level e) tokens) (hcolon : colon.kind = .colon)
    (hspelled' : Spelled levels (.expr level' e') tokens')
    (h' : IsRead levels (.expr level' e') tokens') (hcomma : comma.kind = .comma)
    (h'' : IsRead levels (.pairs ps) tokens'') :
    IsRead levels (.pairs ((e, e') :: ps))
      (tokens ++ colon :: (tokens' ++ comma :: tokens'')) := by
  intro w stop hend hread hpeek
  have hgo := not_peekIs_closeCurly hspelled hread
  rw [← List.cons_append, ← List.append_assoc] at hread
  obtain ⟨between, hfirst, hrest⟩ := hread.of_append
  obtain ⟨hpeekComma, hrest⟩ := hrest.of_cons
  have hendBetween := hfirst.terminated hend
  have hrun := pair_eq_ok hspelled h hcolon hspelled' h' hend hfirst
    (.inr ⟨by rw [hpeekComma, hcomma], rfl⟩)
  rw [collectWhile_of_ok (shrinks_pair standard_prefixRule?_eof _) hend hgo hrun]
  simp only [bind_eq_ok, pure_apply]
  exact ⟨_, _, h'' hendBetween.next hrest hpeek, rfl⟩

end Lists

section Stmts

variable {levels : Nat} {level : Precedence} {e : Expr} {s : Stmt} {ss : List Stmt}
  {closed : Bool} {tokens tokens' ending : List Token} {token : Token} {w stop : Window}

theorem semicolon_eq_ok (h : Ending closed ending) (hread : w.Reads ending stop)
    (hafter : closed = true ∨ Separates stop.peek.kind) :
    (semicolon : Parse Unit) w = .ok () stop ∧ Ends w.peek.kind := by
  simp only [semicolon, bind_eq_ok, peek_apply]
  cases h with
  | none =>
      rw [hread.eq_of_nil] at hafter ⊢
      have hseparates : Separates w.peek.kind := hafter.resolve_left (by decide)
      exact ⟨⟨_, _, rfl, by rw [if_neg hseparates.2]; rfl⟩, hseparates.1⟩
  | semicolon hkind =>
      obtain ⟨hpeek, hrest⟩ := hread.of_cons
      rw [hrest.eq_of_nil, hpeek]
      exact ⟨⟨_, _, rfl, by rw [if_pos hkind]; rfl⟩, by rw [hkind]; decide⟩

theorem stmt_apply {rule : StmtRule}
    (hrule : (standard.stmtRule? w.current.kind).getD .expression = rule) :
    standard.stmt (standard.partsAt levels) w = rule.parse (standard.partsAt levels) w := by
  subst hrule
  rfl

-- The words that start a statement of their own start no expression.
theorem stmtRule_of_spelled (hspelled : Spelled levels (.expr level e) (token :: tokens)) :
    (standard.stmtRule? token.kind).getD .expression = .expression := by
  obtain ⟨_, _, rule, htokens, hrule⟩ := hspelled.exists_head
  obtain ⟨rfl, rfl⟩ := List.cons.inj htokens
  revert hrule
  cases token.kind <;> simp [standard, standardStmt?, standardPrefix?]

theorem letIn {name assignment : Token} (hkind : token.kind = .kwLet)
    (hname : name.kind = .identifier) (hassignment : assignment.kind = .assignment)
    (hspelled : Spelled levels (.expr level e) tokens) (h : IsRead levels (.expr level e) tokens)
    (hending : Ending closed ending) :
    IsRead levels (.stmt closed (.letIn token (.ofToken name) e))
      (token :: name :: assignment :: (tokens ++ ending)) := by
  intro w stop hend hspans hafter
  obtain ⟨hcurrent, hread⟩ := hspans.of_cons
  obtain ⟨hpeek, hread⟩ := hread.of_cons
  obtain ⟨hpeek', hread⟩ := hread.of_cons
  obtain ⟨between, hfirst, hrest⟩ := hread.of_append
  obtain ⟨hsemicolon, hends⟩ := semicolon_eq_ok hending hrest hafter
  have hrun := expr_lowest_eq_ok hspelled h hend.next.next hfirst hends
  have hrule : (standard.stmtRule? w.current.kind).getD .expression = .letIn := by
    rw [hcurrent, hkind]
    rfl
  rw [stmt_apply hrule]
  simp only [StmtRule.parse, bind_eq_ok, current_apply, advance_apply, pure_apply]
  exact ⟨_, _, rfl, _, _, ident_eq_ok (by rw [hpeek, hname]), _, _,
    expect_eq_ok (by rw [hpeek', hassignment]), _, _, rfl, _, _, hrun, _, _, hsemicolon,
    by rw [hcurrent, hpeek]⟩

theorem returns (hkind : token.kind = .kwReturn)
    (hspelled : Spelled levels (.expr level e) tokens) (h : IsRead levels (.expr level e) tokens)
    (hending : Ending closed ending) :
    IsRead levels (.stmt closed (.returns token e)) (token :: (tokens ++ ending)) := by
  intro w stop hend hspans hafter
  obtain ⟨hcurrent, hread⟩ := hspans.of_cons
  obtain ⟨between, hfirst, hrest⟩ := hread.of_append
  obtain ⟨hsemicolon, hends⟩ := semicolon_eq_ok hending hrest hafter
  have hrun := expr_lowest_eq_ok hspelled h hend hfirst hends
  have hrule : (standard.stmtRule? w.current.kind).getD .expression = .returns := by
    rw [hcurrent, hkind]
    rfl
  rw [stmt_apply hrule]
  simp only [StmtRule.parse, bind_eq_ok, current_apply, advance_apply, pure_apply]
  exact ⟨_, _, rfl, _, _, rfl, _, _, hrun, _, _, hsemicolon, by rw [hcurrent]⟩

theorem expr (hspelled : Spelled levels (.expr level e) (token :: tokens))
    (h : IsRead levels (.expr level e) (token :: tokens)) (hending : Ending closed ending) :
    IsRead levels (.stmt closed (.expr token e)) (token :: (tokens ++ ending)) := by
  intro w stop hend hspans hafter
  rw [← List.cons_append] at hspans
  obtain ⟨between, hfirst, hrest⟩ := hspans.of_append (List.cons_ne_nil _ _)
  obtain ⟨hcurrent, -⟩ := hfirst.of_cons
  obtain ⟨hsemicolon, hends⟩ := semicolon_eq_ok hending hrest hafter
  have hrun : standard.expr levels .lowest w = .ok e between :=
    expr_eq_ok h hend (by decide) (.inl hspelled.lowest_lt) hfirst
      (Nat.le_of_eq (congrArg Precedence.rank hends.1)) hends.2
  have hrule : (standard.stmtRule? w.current.kind).getD .expression = .expression := by
    rw [hcurrent]
    exact stmtRule_of_spelled hspelled
  rw [stmt_apply hrule]
  simp only [StmtRule.parse, bind_eq_ok, current_apply, pure_apply]
  exact ⟨_, _, rfl, _, _, hrun, _, _, hsemicolon, by rw [hcurrent]⟩

theorem noStmts : IsRead levels (.stmts []) [] := by
  intro w stop hend hread hpeek
  rw [hread.eq_of_nil] at hpeek ⊢
  exact collectWhile_of_not (by simp [inBlock, w.current_next, hpeek])

-- A statement is separated from the next one.
theorem separates_peek_of_ne_nil (h : Spelled levels (.stmts ss) tokens) (hne : tokens ≠ [])
    (hread : w.Reads tokens stop)
    (hseparate : ∀ token ∈ tokens.head?, Precedence.ofKind token.kind = .lowest) :
    Separates w.peek.kind := by
  cases h with
  | noStmts => exact absurd rfl hne
  | someStmts hfirst =>
      obtain ⟨token, rest, rfl, hstarts⟩ := hfirst.exists_stmt_head
      have hnotMem := hstarts.notMem
      simp only [List.mem_cons, not_or] at hnotMem
      rw [hread.of_cons.1]
      exact ⟨⟨hseparate token (by simp), hnotMem.2.2.2.1⟩, hnotMem.2.2.1⟩

-- It is separated from the end of its block, too.
theorem separates_peek (h : Spelled levels (.stmts ss) tokens) (hread : w.Reads tokens stop)
    (hseparate : ∀ token ∈ tokens.head?, Precedence.ofKind token.kind = .lowest)
    (hstop : Separates stop.peek.kind) : Separates w.peek.kind := by
  by_cases htokens : tokens = []
  · subst htokens
    rw [hread.eq_of_nil] at hstop
    exact hstop
  · exact separates_peek_of_ne_nil h htokens hread hseparate

theorem someStmts (hspelled : Spelled levels (.stmt closed s) tokens)
    (h : IsRead levels (.stmt closed s) tokens) (hspelled' : Spelled levels (.stmts ss) tokens')
    (h' : IsRead levels (.stmts ss) tokens')
    (hseparate : closed = true ∨
      ∀ token ∈ tokens'.head?, Precedence.ofKind token.kind = .lowest) :
    IsRead levels (.stmts (s :: ss)) (tokens ++ tokens') := by
  intro w stop hend hread hpeek
  obtain ⟨between, hfirst, hrest⟩ := hread.of_append
  obtain ⟨token, rest, rfl, hstarts⟩ := hspelled.exists_stmt_head
  have hafter : closed = true ∨ Separates between.peek.kind :=
    hseparate.imp_right fun hlowest =>
      separates_peek hspelled' hrest hlowest (by rw [hpeek]; decide)
  have hrun := h hend.next (hfirst.spans_next (List.cons_ne_nil _ _)) hafter
  have hgo : inBlock w.next = true := by
    have hnotMem := hstarts.notMem
    simp only [List.mem_cons, not_or] at hnotMem
    simp [inBlock, w.current_next, hfirst.of_cons.1, hnotMem]
  have hstep : (do
      let statement ← standard.stmt (standard.partsAt levels)
      advance
      return statement : Parse Stmt) w.next = .ok s between.next := by
    simp only [bind_eq_ok, advance_apply, pure_apply]
    exact ⟨_, _, hrun, _, _, rfl, rfl⟩
  rw [collectWhile_of_ok (standard.shrinks_inBlock levels) hend.next hgo hstep]
  simp only [bind_eq_ok, pure_apply]
  exact ⟨_, _, h' (hfirst.terminated hend) hrest hpeek, rfl⟩

theorem block {opening closing : Token} (hopening : opening.kind = .openCurly)
    (h : IsRead levels (.stmts ss) tokens) (hclosing : closing.kind = .closeCurly) :
    IsRead levels (.block ⟨opening, ss⟩) (opening :: (tokens ++ [closing])) := by
  intro w stop hend hread
  obtain ⟨hpeek, hread⟩ := hread.of_cons
  obtain ⟨between, hfirst, hrest⟩ := hread.of_append
  obtain ⟨hpeek', hrest⟩ := hrest.of_cons
  have hrun := h hend.next hfirst (by rw [hpeek', hclosing])
  have hblock : standard.block (standard.expr levels) w.next = .ok ⟨opening, ss⟩ between.next := by
    rw [standard_block_apply]
    simp only [blockOf, bind_eq_ok, current_apply, advance_apply, pure_apply]
    exact ⟨_, _, rfl, _, _, rfl, _, _, hrun, by rw [w.current_next, hpeek]⟩
  rw [hrest.eq_of_nil]
  simp only [Parts.braced, bind_eq_ok]
  exact ⟨_, _, expect_eq_ok (by rw [hpeek, hopening]), hblock⟩

end Stmts

end IsRead

end Grammar

open Grammar in
-- Whatever tokens spell is read from them.
theorem Spelled.isRead {levels : Nat} {phrase : Phrase} {tokens : List Token}
    (h : Spelled levels phrase tokens) : IsRead levels phrase tokens := by
  induction h with
  | ident hkind => exact .ident hkind
  | integer hkind hvalue => exact .integer hkind hvalue
  | string hkind => exact .string hkind
  | boolean hkind => exact .boolean hkind
  | grouped hopening hinner hclosing ih => exact .grouped hopening hinner ih hclosing
  | prefixOp hkind hright hlevel ih => exact .prefixOp hkind hright ih hlevel
  | infixOp hkind hleft hleftLevel hright hrightLevel ih ih' =>
      exact .infixOp hkind hleft ih hleftLevel hright ih' hrightLevel
  | call hcallee hlevel hopening _ hclosing ih ih' =>
      exact .call hcallee ih hlevel hopening ih' hclosing
  | index hleft hlevel hopening hposition hclosing ih ih' =>
      exact .index hleft ih hlevel hopening hposition ih' hclosing
  | field hobject hlevel hdot hname ih => exact .field hobject ih hlevel hdot hname
  | array hopening _ hclosing ih => exact .array hopening ih hclosing
  | hash hopening _ hclosing ih => exact .hash hopening ih hclosing
  | ifThen hkind hopening hcondition hclosing _ ih ih' =>
      exact .ifThen hkind hopening hcondition ih hclosing ih'
  | ifElse hkind hopening hcondition hclosing _ hotherwise _ ih ih' ih'' =>
      exact .ifElse hkind hopening hcondition ih hclosing ih' hotherwise ih''
  | whileLoop hkind hopening hcondition hclosing _ ih ih' =>
      exact .whileLoop hkind hopening hcondition ih hclosing ih'
  | function hkind hopening hnames hclosing _ ih =>
      exact .function hkind hopening hnames hclosing ih
  | noExprs => exact .noExprs
  | someExprs hfirst hrest ih ih' => exact .someExprs hfirst ih hrest ih'
  | noFurtherExprs => exact .noFurtherExprs
  | someFurtherExprs hcomma hfirst hrest ih ih' =>
      exact .someFurtherExprs hcomma hfirst ih hrest ih'
  | noPairs => exact .noPairs
  | lastPair hkey hcolon hvalue ih ih' => exact .lastPair hkey ih hcolon hvalue ih'
  | pairComma hkey hcolon hvalue hcomma _ ih ih' ih'' =>
      exact .pairComma hkey ih hcolon hvalue ih' hcomma ih''
  | block hopening _ hclosing ih => exact .block hopening ih hclosing
  | letIn hkind hname hassignment hvalue hending ih =>
      exact .letIn hkind hname hassignment hvalue ih hending
  | returns hkind hvalue hending ih => exact .returns hkind hvalue ih hending
  | expr hvalue hending ih => exact .expr hvalue ih hending
  | noStmts => exact .noStmts
  | someStmts hfirst hrest hseparate ih ih' => exact .someStmts hfirst ih hrest ih' hseparate

end ScriptFront
