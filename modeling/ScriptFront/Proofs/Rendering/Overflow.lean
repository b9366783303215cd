import ScriptFront.Proofs.Rendering.Basic
import ScriptFront.Proofs.Spelling.Completeness

namespace ScriptFront

open Reader Parse Window

namespace Parse

variable {α β : Type} {first : Parse α} {second : α → Parse β} {value : α} {w between : Window}

-- More expressions were open at once than may be.
def TooDeep (result : EStateM.Result Diagnostic Window α) : Prop :=
  ∃ token stop, result = .error ⟨.tooDeep maxNesting, token⟩ stop

theorem TooDeep.bind (h : TooDeep (first w)) : TooDeep ((first >>= second) w) := by
  obtain ⟨token, stop, hrun⟩ := h
  exact ⟨token, stop, by rw [bind_apply, hrun]⟩

theorem TooDeep.of_ok (hfirst : first w = .ok value between) (h : TooDeep (second value between)) :
    TooDeep ((first >>= second) w) := by
  rw [bind_apply, hfirst]
  exact h

end Parse

namespace Grammar

-- Wherever the tokens stand, reading an expression from them runs out of levels.
def Overflows (levels : Nat) (level : Precedence) (tokens : List Token) : Prop :=
  ∀ ⦃limit : Precedence⦄ ⦃w stop : Window⦄, w.Terminated → limit ≤ .operand →
    limit < level ∨ .operand ≤ level → w.Spans tokens stop →
    TooDeep (standard.expr levels limit w)

variable {levels levels' : Nat} {level leftLevel : Precedence} {e left : Expr} {es : List Expr}
  {token : Token} {tokens tokens' rest : List Token} {w stop : Window}

theorem overflows_zero : Overflows 0 level tokens :=
  fun _ w _ _ _ _ _ => ⟨w.current, w, rfl⟩

theorem overflows_of_succ
    (h : ∀ n, levels = n + 1 → Overflows (n + 1) level tokens) : Overflows levels level tokens := by
  cases levels with
  | zero => exact overflows_zero
  | succ n => exact h n rfl

-- What comes first is read first.
theorem Overflows.append (h : Overflows levels leftLevel tokens) (hne : tokens ≠ [])
    (hlevel : .operand < leftLevel) : Overflows levels level (tokens ++ rest) := by
  intro limit w stop hend hlimit _ hspans
  obtain ⟨between, hfirst, -⟩ := hspans.of_append hne
  exact h hend hlimit (.inr (Nat.le_of_lt hlevel)) hfirst

theorem Overflows.next (h : Overflows levels level tokens) (hne : tokens ≠ [])
    (hlevel : .lowest < level) (hend : w.Terminated) (hread : w.Reads (tokens ++ rest) stop) :
    TooDeep ((standard.partsAt levels).expr .lowest w.next) := by
  obtain ⟨between, hfirst, -⟩ := hread.of_append
  exact h hend.next (by decide) (.inl hlevel) (hfirst.spans_next hne)

theorem overflows_of_prefixRule {rule : PrefixRule}
    (hrule : standardPrefix? token.kind = some rule)
    (hparse : ∀ {w stop : Window}, w.Terminated → w.Reads rest stop →
      TooDeep (rule.parse (standard.partsAt levels) w)) :
    Overflows (levels + 1) level (token :: rest) := by
  intro limit w stop hend _ _ hspans
  obtain ⟨rfl, hread⟩ := hspans.of_cons
  have hrule' : standard.prefixRule? w.current.kind = some rule := hrule
  simp only [Grammar.expr, nested]
  refine .of_ok (current_apply w) ?_
  rw [hrule']
  exact (hparse hend hread).bind

theorem overflows_of_infixRule {rule : InfixRule}
    (hleft : Spelled (levels + 1) (.expr leftLevel left) tokens)
    (hleftLevel : .ofKind token.kind ≤ leftLevel)
    (hbinds : level = .ofKind token.kind ∧ level < .operand ∨
      Precedence.operand < .ofKind token.kind)
    (hrule : standardInfix? token.kind = some rule)
    (hparse : ∀ {w stop : Window}, w.Terminated → w.current = token → w.Reads rest stop →
      TooDeep (rule.parse (standard.partsAt levels) left w)) :
    Overflows (levels + 1) level (tokens ++ token :: rest) := by
  intro limit w stop hend hlimit hlevel hspans
  obtain ⟨between, hendBetween, hgo, hcurrent, hread, hrun, hcontinuation⟩ :=
    exists_before_operator hleft.isRead hleft.ne_nil hleftLevel hbinds hrule hend hlimit hlevel
      hspans
  obtain ⟨blamed, last, herror⟩ := hparse hendBetween.next hcurrent hread
  rw [herror] at hcontinuation
  rw [hrun]
  exact ⟨blamed, last, iterateWhile_of_error hgo hcontinuation⟩

theorem Overflows.grouped (h : Overflows levels level tokens) (hne : tokens ≠ [])
    (hlevel : .lowest < level) :
    Overflows (levels + 1) .index (.fixed .openParen :: (tokens ++ rest)) :=
  overflows_of_prefixRule rfl fun hend hread =>
    .of_ok (current_apply _) (.of_ok (advance_apply _) (h.next hne hlevel hend hread).bind)

theorem Overflows.prefixOp (hkind : token.kind ∈ TokenKind.unaryOperators)
    (h : Overflows levels .index tokens) (hne : tokens ≠ []) :
    Overflows (levels + 1) .operand (token :: tokens) := by
  have hrule : standardPrefix? token.kind = some .operator := standardPrefix?_eq_some.mpr hkind
  refine overflows_of_prefixRule hrule fun hend hread => ?_
  have hright := h hend.next (Nat.le_refl _) (.inr (by decide)) (hread.spans_next hne)
  exact .of_ok (current_apply _) (.of_ok (advance_apply _) hright.bind)

theorem Overflows.infixOp (hkind : token.kind ∈ TokenKind.binaryOperators)
    (hleft : Spelled (levels + 1) (.expr leftLevel left) tokens)
    (hleftLevel : .ofKind token.kind ≤ leftLevel) (h : Overflows levels .index tokens')
    (hne : tokens' ≠ []) :
    Overflows (levels + 1) (.ofKind token.kind) (tokens ++ token :: tokens') := by
  have hrule : standardInfix? token.kind = some .operator := standardInfix?_eq_some.mpr hkind
  have hoperand := Precedence.ofKind_lt_operand hkind
  refine overflows_of_infixRule hleft hleftLevel (.inl ⟨rfl, hoperand⟩) hrule
    fun {w stop} hend hcurrent hread => ?_
  have hright := h hend.next (Nat.le_of_lt hoperand) (.inr (by decide)) (hread.spans_next hne)
  rw [← hcurrent] at hright
  exact .of_ok (current_apply _) (.of_ok (advance_apply _) hright.bind)

theorem Overflows.index (hleft : Spelled (levels + 1) (.expr .index left) tokens)
    (h : Overflows levels .index tokens') (hne : tokens' ≠ []) :
    Overflows (levels + 1) .index (tokens ++ .fixed .openBracket :: (tokens' ++ rest)) :=
  overflows_of_infixRule hleft (by decide) (.inr (by decide)) rfl fun hend _ hread =>
    .of_ok (current_apply _) (.of_ok (advance_apply _) (h.next hne (by decide) hend hread).bind)

-- The same for a list of expressions up to its closing bracket.
def OverflowsExprs (levels : Nat) (tokens : List Token) : Prop :=
  ∀ ⦃close : TokenKind⦄ ⦃w stop : Window⦄, w.Terminated →
    close ∈ [TokenKind.closeParen, .closeBracket] → w.Reads tokens stop →
    stop.peek.kind = close → TooDeep ((standard.partsAt levels).exprList close w)

def OverflowsFurtherExprs (levels : Nat) (tokens : List Token) : Prop :=
  ∀ ⦃w stop : Window⦄, w.Terminated → w.Reads tokens stop →
    stop.peek.kind ∈ [TokenKind.closeParen, .closeBracket] →
    TooDeep ((collectWhile (·.peekIs .comma)
      (do advance; advance; (standard.partsAt levels).expr .lowest) : Parse (List Expr)) w)

theorem OverflowsFurtherExprs.head {comma : Token} (hcomma : comma.kind = .comma)
    (h : Overflows levels .index tokens) (hne : tokens ≠ []) :
    OverflowsFurtherExprs levels (comma :: (tokens ++ rest)) := by
  intro w stop hend hread _
  obtain ⟨hpeek, hread⟩ := hread.of_cons
  have hstep : TooDeep
      ((do advance; advance; (standard.partsAt levels).expr .lowest : Parse Expr) w) :=
    h.next hne (by decide) hend.next hread
  obtain ⟨blamed, last, herror⟩ := hstep
  exact ⟨blamed, last, collectWhile_of_error (by simp [peekIs, hpeek, hcomma]) herror⟩

theorem OverflowsFurtherExprs.tail {comma : Token} (hcomma : comma.kind = .comma)
    (hspelled : Spelled levels (.expr level e) tokens)
    (hspelled' : Spelled levels' (.furtherExprs es) tokens')
    (h : OverflowsFurtherExprs levels tokens') :
    OverflowsFurtherExprs levels (comma :: (tokens ++ tokens')) := by
  intro w stop hend hread hclose
  obtain ⟨hpeek, hread⟩ := hread.of_cons
  obtain ⟨between, hfirst, hrest⟩ := hread.of_append
  have hrun := expr_lowest_eq_ok hspelled hspelled.isRead hend.next hfirst
    (IsRead.peek_of_furtherExprs hspelled' hrest hclose)
  have hstep : (do advance; advance; (standard.partsAt levels).expr .lowest : Parse Expr) w =
      .ok e between := hrun
  rw [collectWhile_of_ok (standard.shrinks_furtherExprs levels) hend
    (by simp [peekIs, hpeek, hcomma]) hstep]
  exact (h (hfirst.terminated hend.next) hrest hclose).bind

theorem OverflowsExprs.head (hspelled : Spelled levels' (.expr .index e) tokens)
    (h : Overflows levels .index tokens) : OverflowsExprs levels (tokens ++ rest) := by
  intro close w stop hend hclose hread _
  have hne : w.peek.kind ≠ close := IsRead.peek_ne_close hspelled hread hclose
  refine .of_ok (peek_apply w) ?_
  rw [if_neg hne]
  exact .of_ok (advance_apply w) (h.next hspelled.ne_nil (by decide) hend hread).bind

theorem OverflowsExprs.tail (hspelled : Spelled levels (.expr level e) tokens)
    (hspelled' : Spelled levels' (.furtherExprs es) tokens')
    (h : OverflowsFurtherExprs levels tokens') : OverflowsExprs levels (tokens ++ tokens') := by
  intro close w stop hend hclose hread hpeek
  have hne : w.peek.kind ≠ close := IsRead.peek_ne_close hspelled hread hclose
  obtain ⟨between, hfirst, hrest⟩ := hread.of_append
  have hclose' : stop.peek.kind ∈ [TokenKind.closeParen, .closeBracket] := by rwa [hpeek]
  have hrun := expr_lowest_eq_ok hspelled hspelled.isRead hend hfirst
    (IsRead.peek_of_furtherExprs hspelled' hrest hclose')
  refine .of_ok (peek_apply w) ?_
  rw [if_neg hne]
  exact .of_ok (advance_apply w) (.of_ok hrun (h (hfirst.terminated hend) hrest hclose').bind)

theorem OverflowsExprs.array (h : OverflowsExprs levels tokens) :
    Overflows (levels + 1) .index
      (.fixed .openBracket :: (tokens ++ [.fixed .closeBracket])) := by
  refine overflows_of_prefixRule rfl fun {w stop} hend hread => ?_
  obtain ⟨between, hfirst, hrest⟩ := hread.of_append
  have hpeek : between.peek.kind = .closeBracket := by rw [hrest.of_cons.1]; rfl
  exact .of_ok (current_apply w) (h hend (by decide) hfirst hpeek).bind

theorem OverflowsExprs.call (hleft : Spelled (levels + 1) (.expr .index left) tokens)
    (h : OverflowsExprs levels tokens') :
    Overflows (levels + 1) .index
      (tokens ++ .fixed .openParen :: (tokens' ++ [.fixed .closeParen])) := by
  refine overflows_of_infixRule hleft (by decide) (.inr (by decide)) rfl
    fun {w stop} hend _ hread => ?_
  obtain ⟨between, hfirst, hrest⟩ := hread.of_append
  have hpeek : between.peek.kind = .closeParen := by rw [hrest.of_cons.1]; rfl
  exact .of_ok (current_apply w) (h hend (by decide) hfirst hpeek).bind

end Grammar

open Grammar

theorem Expr.renderTokens_ne_nil {e : Expr} (h : e.Plain) : e.renderTokens ≠ [] :=
  (e.spelled_renderTokens h (Nat.le_refl _)).ne_nil

mutual

-- With fewer levels than needed, the canonical text is given up somewhere inside.
theorem Expr.overflows_renderTokens (e : Expr) (h : e.Plain) {levels : Nat}
    (hneed : levels < e.renderNeed) : Overflows levels .index e.renderTokens := by
  cases e with
  | ident | integer | boolean =>
      obtain rfl : levels = 0 := Nat.lt_one_iff.mp hneed
      exact overflows_zero
  | prefixOp token operator right =>
      obtain ⟨hkind, -, -, hright⟩ := h
      simp only [Expr.renderNeed] at hneed
      refine overflows_of_succ fun n hn => ?_
      have hinner : Overflows n .operand (token :: right.renderTokens) := by
        refine overflows_of_succ fun m hm => Overflows.prefixOp hkind ?_
          (Expr.renderTokens_ne_nil hright)
        exact Expr.overflows_renderTokens right hright (by omega)
      exact hinner.grouped (List.cons_ne_nil _ _) (by decide)
  | infixOp token operator left right =>
      obtain ⟨hkind, -, -, hleft, hright⟩ := h
      simp only [Expr.renderNeed] at hneed
      refine overflows_of_succ fun n hn => ?_
      have hinner : Overflows n (.ofKind token.kind)
          (left.renderTokens ++ token :: right.renderTokens) := by
        by_cases hlt : n < left.renderNeed
        · exact (Expr.overflows_renderTokens left hleft hlt).append
            (Expr.renderTokens_ne_nil hleft) (by decide)
        · refine overflows_of_succ fun m hm => Overflows.infixOp hkind
            (left.spelled_renderTokens hleft (by omega)) (Precedence.le_index _) ?_
            (Expr.renderTokens_ne_nil hright)
          exact Expr.overflows_renderTokens right hright (by omega)
      exact hinner.grouped (by simp) (Precedence.lowest_lt_ofKind hkind)
  | call token callee arguments =>
      obtain ⟨rfl, hcallee, harguments⟩ := h
      simp only [Expr.renderNeed] at hneed
      by_cases hlt : levels < callee.renderNeed
      · exact (Expr.overflows_renderTokens callee hcallee hlt).append
          (Expr.renderTokens_ne_nil hcallee) (by decide)
      · refine overflows_of_succ fun n hn => OverflowsExprs.call
          (callee.spelled_renderTokens hcallee (by omega)) ?_
        exact exprs_overflow arguments harguments (by omega)
  | array token elements =>
      obtain ⟨rfl, helements⟩ := h
      simp only [Expr.renderNeed] at hneed
      refine overflows_of_succ fun n hn => OverflowsExprs.array ?_
      exact exprs_overflow elements helements (by omega)
  | index token left index =>
      obtain ⟨rfl, hleft, hindex⟩ := h
      simp only [Expr.renderNeed] at hneed
      refine overflows_of_succ fun n hn => ?_
      have hinner : Overflows n .index (left.renderTokens ++
          .fixed .openBracket :: (index.renderTokens ++ [.fixed .closeBracket])) := by
        by_cases hlt : n < left.renderNeed
        · exact (Expr.overflows_renderTokens left hleft hlt).append
            (Expr.renderTokens_ne_nil hleft) (by decide)
        · refine overflows_of_succ fun m hm => Overflows.index
            (left.spelled_renderTokens hleft (by omega)) ?_ (Expr.renderTokens_ne_nil hindex)
          exact Expr.overflows_renderTokens index hindex (by omega)
      exact hinner.grouped (by simp) (by decide)
  | field token object name =>
      obtain ⟨-, hobject, -⟩ := h
      simp only [Expr.renderNeed] at hneed
      refine overflows_of_succ fun n hn => ?_
      have hinner : Overflows n .index (object.renderTokens ++ [token, name.token]) :=
        (Expr.overflows_renderTokens object hobject (by omega)).append
          (Expr.renderTokens_ne_nil hobject) (by decide)
      exact hinner.grouped (by simp) (by decide)
  | string | ifElse | whileLoop | function | hash => exact absurd h id

theorem exprs_overflow (es : List Expr) (h : ExprsPlain es) {levels : Nat}
    (hneed : levels + 1 < innerNeed es) : OverflowsExprs levels (exprsRenderTokens es) := by
  cases es with
  | nil => exact absurd hneed (Nat.not_lt_zero _)
  | cons e es =>
      obtain ⟨he, hes⟩ := h
      simp only [innerNeed] at hneed
      by_cases hlt : levels < e.renderNeed
      · exact .head (e.spelled_renderTokens he (Nat.le_refl _))
          (Expr.overflows_renderTokens e he hlt)
      · exact .tail (e.spelled_renderTokens he (by omega))
          (further_spelled_renderTokens es hes (Nat.le_succ _))
          (furtherExprs_overflow es hes (by omega))

theorem furtherExprs_overflow (es : List Expr) (h : ExprsPlain es) {levels : Nat}
    (hneed : levels + 1 < innerNeed es) :
    OverflowsFurtherExprs levels (furtherRenderTokens es) := by
  cases es with
  | nil => exact absurd hneed (Nat.not_lt_zero _)
  | cons e es =>
      obtain ⟨he, hes⟩ := h
      simp only [innerNeed] at hneed
      by_cases hlt : levels < e.renderNeed
      · exact .head rfl (Expr.overflows_renderTokens e he hlt) (Expr.renderTokens_ne_nil he)
      · exact .tail rfl (e.spelled_renderTokens he (by omega))
          (further_spelled_renderTokens es hes (Nat.le_succ _))
          (furtherExprs_overflow es hes (by omega))

end

end ScriptFront
