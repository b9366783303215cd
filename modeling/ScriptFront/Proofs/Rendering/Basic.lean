import ScriptFront.Proofs.Rendering.Lexing
import ScriptFront.Proofs.Spelling.Basic
import ScriptFront.Tree.Render

namespace ScriptFront

def Ident.Plain (name : Ident) : Prop :=
  name = .ofToken name.token ∧ name.token.kind = .identifier ∧ name.token.IsLexeme .word

mutual

-- Names, numbers, truth values, and what operators, brackets, dots and calls make of them, every
-- node with the token that it has in a source.
def Expr.Plain : Expr → Prop
  | .ident name => name.Plain
  | .integer token value => token.IsLexeme .digits ∧ Text.int64? token.literal = some value
  | .boolean token value => token = .fixed (if value then .kwTrue else .kwFalse)
  | .prefixOp token operator right =>
    token.kind ∈ TokenKind.unaryOperators ∧ token = .fixed token.kind ∧
      operator = token.literal ∧ right.Plain
  | .infixOp token operator left right =>
    token.kind ∈ TokenKind.binaryOperators ∧ token = .fixed token.kind ∧
      operator = token.literal ∧ left.Plain ∧ right.Plain
  | .call token callee arguments => token = .fixed .openParen ∧ callee.Plain ∧ ExprsPlain arguments
  | .array token elements => token = .fixed .openBracket ∧ ExprsPlain elements
  | .index token left index => token = .fixed .openBracket ∧ left.Plain ∧ index.Plain
  | .field token object name => token = .fixed .dot ∧ object.Plain ∧ name.Plain
  | .string _ _ | .ifElse _ _ _ _ | .whileLoop _ _ _ | .function _ _ _ | .hash _ _ => False

def ExprsPlain : List Expr → Prop
  | [] => True
  | e :: es => e.Plain ∧ ExprsPlain es

end

mutual

-- The tokens of the canonical text of a plain expression.
def Expr.renderTokens : Expr → List Token
  | .ident name => [name.token]
  | .integer token _ | .boolean token _ => [token]
  | .prefixOp token _ right =>
    .fixed .openParen :: ((token :: right.renderTokens) ++ [.fixed .closeParen])
  | .infixOp token _ left right =>
    .fixed .openParen :: ((left.renderTokens ++ token :: right.renderTokens) ++
      [.fixed .closeParen])
  | .call token callee arguments =>
    callee.renderTokens ++ token :: (exprsRenderTokens arguments ++ [.fixed .closeParen])
  | .array token elements => token :: (exprsRenderTokens elements ++ [.fixed .closeBracket])
  | .index token left index =>
    .fixed .openParen :: ((left.renderTokens ++
      token :: (index.renderTokens ++ [.fixed .closeBracket])) ++ [.fixed .closeParen])
  | .field token object name =>
    .fixed .openParen :: ((object.renderTokens ++ [token, name.token]) ++ [.fixed .closeParen])
  | .string _ _ | .ifElse _ _ _ _ | .whileLoop _ _ _ | .function _ _ _ | .hash _ _ => []

def exprsRenderTokens : List Expr → List Token
  | [] => []
  | e :: es => e.renderTokens ++ furtherRenderTokens es

def furtherRenderTokens : List Expr → List Token
  | [] => []
  | e :: es => .fixed .comma :: (e.renderTokens ++ furtherRenderTokens es)

end

mutual

-- How many expressions stand inside each other in the canonical text. Its parentheses count.
def Expr.renderNeed : Expr → Nat
  | .ident _ | .integer _ _ | .boolean _ _ => 1
  | .prefixOp _ _ right => 2 + right.renderNeed
  | .infixOp _ _ left right => max (1 + left.renderNeed) (2 + right.renderNeed)
  | .call _ callee arguments => max callee.renderNeed (innerNeed arguments)
  | .array _ elements => max 1 (innerNeed elements)
  | .index _ left index => max (1 + left.renderNeed) (2 + index.renderNeed)
  | .field _ object _ => 1 + object.renderNeed
  | .string _ _ | .ifElse _ _ _ _ | .whileLoop _ _ _ | .function _ _ _ | .hash _ _ => 0

-- Between brackets, every expression stands one level further in.
def innerNeed : List Expr → Nat
  | [] => 0
  | e :: es => max (1 + e.renderNeed) (innerNeed es)

end

mutual

theorem Expr.spelled_renderTokens (e : Expr) (h : e.Plain) {levels : Nat}
    (hneed : e.renderNeed ≤ levels) : Spelled levels (.expr .index e) e.renderTokens := by
  cases e with
  | ident name =>
      obtain ⟨n, rfl⟩ := Nat.exists_eq_add_of_le' hneed
      obtain ⟨hname, hkind, -⟩ := h
      rw [hname]
      exact .ident hkind
  | integer token value =>
      obtain ⟨n, rfl⟩ := Nat.exists_eq_add_of_le' hneed
      obtain ⟨htoken, hvalue⟩ := h
      exact .integer htoken.kind_of_digits hvalue
  | boolean token value =>
      obtain ⟨n, rfl⟩ := Nat.exists_eq_add_of_le' hneed
      have htoken : token = .fixed (if value then .kwTrue else .kwFalse) := h
      subst htoken
      cases value with
      | true => exact .boolean (.inl rfl)
      | false => exact .boolean (.inr rfl)
  | prefixOp token operator right =>
      obtain ⟨hkind, -, rfl, hright⟩ := h
      simp only [Expr.renderNeed] at hneed
      obtain ⟨n, rfl⟩ : ∃ n, levels = n + 2 := ⟨levels - 2, by omega⟩
      have hinner : Spelled (n + 1) (.expr .operand (.prefixOp token token.literal right)) _ :=
        .prefixOp hkind (Expr.spelled_renderTokens right hright (by omega)) (by decide)
      exact .grouped rfl hinner rfl
  | infixOp token operator left right =>
      obtain ⟨hkind, -, rfl, hleft, hright⟩ := h
      simp only [Expr.renderNeed] at hneed
      obtain ⟨n, rfl⟩ : ∃ n, levels = n + 2 := ⟨levels - 2, by omega⟩
      have hoperand := Precedence.ofKind_lt_operand hkind
      have hinner : Spelled (n + 1) (.expr _ (.infixOp token token.literal left right)) _ :=
        .infixOp hkind (Expr.spelled_renderTokens left hleft (by omega)) (Precedence.le_index _)
          (Expr.spelled_renderTokens right hright (by omega)) (Nat.lt_trans hoperand (by decide))
      exact .grouped rfl hinner rfl
  | call token callee arguments =>
      obtain ⟨rfl, hcallee, harguments⟩ := h
      simp only [Expr.renderNeed] at hneed
      have hspelled : Spelled levels (.expr .index callee) callee.renderTokens :=
        Expr.spelled_renderTokens callee hcallee (by omega)
      obtain ⟨n, rfl⟩ := hspelled.exists_levels
      exact .call hspelled (by decide) rfl
        (exprs_spelled_renderTokens arguments harguments (by omega)) rfl
  | array token elements =>
      obtain ⟨rfl, helements⟩ := h
      simp only [Expr.renderNeed] at hneed
      obtain ⟨n, rfl⟩ : ∃ n, levels = n + 1 := ⟨levels - 1, by omega⟩
      exact .array rfl (exprs_spelled_renderTokens elements helements (by omega)) rfl
  | index token left index =>
      obtain ⟨rfl, hleft, hindex⟩ := h
      simp only [Expr.renderNeed] at hneed
      obtain ⟨n, rfl⟩ : ∃ n, levels = n + 2 := ⟨levels - 2, by omega⟩
      have hinner : Spelled (n + 1) (.expr .index (.index (.fixed .openBracket) left index))
          (left.renderTokens ++
            .fixed .openBracket :: (index.renderTokens ++ [.fixed .closeBracket])) :=
        .index (Expr.spelled_renderTokens left hleft (by omega)) (by decide) rfl
          (Expr.spelled_renderTokens index hindex (by omega)) rfl
      exact .grouped rfl hinner rfl
  | field token object name =>
      obtain ⟨rfl, hobject, hname, hkind, -⟩ := h
      simp only [Expr.renderNeed] at hneed
      obtain ⟨m, rfl⟩ : ∃ m, levels = m + 1 := ⟨levels - 1, by omega⟩
      have hspelled : Spelled m (.expr .index object) object.renderTokens :=
        Expr.spelled_renderTokens object hobject (by omega)
      obtain ⟨n, rfl⟩ := hspelled.exists_levels
      have hinner : Spelled (n + 1) (.expr .index (.field (.fixed .dot) object name))
          (object.renderTokens ++ [.fixed .dot, name.token]) := by
        rw [hname]
        exact .field hspelled (by decide) rfl hkind
      exact .grouped rfl hinner rfl
  | string | ifElse | whileLoop | function | hash => exact absurd h id

theorem exprs_spelled_renderTokens (es : List Expr) (h : ExprsPlain es) {levels : Nat}
    (hneed : innerNeed es ≤ levels + 1) : Spelled levels (.exprs es) (exprsRenderTokens es) := by
  cases es with
  | nil => exact .noExprs
  | cons e es =>
      simp only [innerNeed] at hneed
      exact .someExprs (Expr.spelled_renderTokens e h.1 (by omega))
        (further_spelled_renderTokens es h.2 (by omega))

theorem further_spelled_renderTokens (es : List Expr) (h : ExprsPlain es) {levels : Nat}
    (hneed : innerNeed es ≤ levels + 1) :
    Spelled levels (.furtherExprs es) (furtherRenderTokens es) := by
  cases es with
  | nil => exact .noFurtherExprs
  | cons e es =>
      simp only [innerNeed] at hneed
      exact .someFurtherExprs rfl (Expr.spelled_renderTokens e h.1 (by omega))
        (further_spelled_renderTokens es h.2 (by omega))

end

section Text

open Lexeme Pattern

-- A plain expression starts with a letter, an underscore, a digit or an opening bracket.
theorem Expr.exists_head_render (e : Expr) (h : e.Plain) :
    ∃ c, e.render.toList.head? = some c ∧ Opens c := by
  cases e with
  | ident name =>
      obtain ⟨hname, -, hword⟩ := h
      obtain ⟨c, text, htext, hc, -⟩ := hword.word
      rw [hname]
      exact ⟨c, congrArg List.head? htext, opens_of_isWordPart (isWordPart_of_isWordStart hc)⟩
  | integer token value =>
      obtain ⟨c, text, htext, hc, -⟩ := h.1.digits
      exact ⟨c, congrArg List.head? htext, opens_of_isWordPart (isWordPart_of_isDigit hc)⟩
  | boolean token value =>
      have htoken : token = .fixed (if value then .kwTrue else .kwFalse) := h
      subst htoken
      cases value with
      | true => exact ⟨'t', rfl, by decide⟩
      | false => exact ⟨'f', rfl, by decide⟩
  | call token callee arguments =>
      obtain ⟨-, hcallee, -⟩ := h
      obtain ⟨c, hhead, hc⟩ := Expr.exists_head_render callee hcallee
      exact ⟨c, by simp [Expr.render, hhead], hc⟩
  | array => exact ⟨'[', by simp [Expr.render], by decide⟩
  | prefixOp | infixOp | index | field => exact ⟨'(', by simp [Expr.render], by decide⟩
  | string | ifElse | whileLoop | function | hash => exact absurd h id

theorem Expr.opens_render {e : Expr} (h : e.Plain) (rest : List Char) :
    ∀ c ∈ (e.render.toList ++ rest).head?, Opens c := by
  obtain ⟨c, hhead, hc⟩ := e.exists_head_render h
  simpa [hhead] using hc

theorem exprs_opens_render {e : Expr} {es : List Expr} (h : e.Plain) (rest : List Char) :
    ∀ c ∈ ((", ".intercalate (renderExprs (e :: es))).toList ++ rest).head?, Opens c := by
  cases es with
  | nil =>
      rw [renderExprs, renderExprs, String.intercalate_singleton]
      exact Expr.opens_render h rest
  | cons e' es =>
      rw [renderExprs, renderExprs, String.intercalate_cons_cons, String.toList_append,
        String.toList_append, List.append_assoc, List.append_assoc]
      exact Expr.opens_render h _

mutual

-- Before something that no word goes on with, the canonical text is read as its tokens.
theorem Expr.yields_render (e : Expr) (h : e.Plain) {rest : List Char} (hrest : Apart rest) :
    Yields e.render e.renderTokens rest := by
  cases e with
  | ident name =>
      obtain ⟨hname, -, hword⟩ := h
      rw [hname]
      exact .word hword hrest
  | integer token value => exact .digits h.1 hrest
  | boolean token value =>
      have htoken : token = .fixed (if value then .kwTrue else .kwFalse) := h
      subst htoken
      cases value with
      | true => exact .word (by decide) hrest
      | false => exact .word (by decide) hrest
  | prefixOp token operator right =>
      obtain ⟨hkind, htoken, rfl, hright⟩ := h
      have htext : (Expr.prefixOp token token.literal right).render =
          "(" ++ (token.literal ++ right.render) ++ ")" := by
        simp [Expr.render, String.append_assoc]
      rw [htext, Expr.renderTokens]
      refine .parenthesised fun hclosing => ?_
      have hoperator := Yields.unary hkind (Expr.opens_render hright (")".toList ++ rest))
      rw [htoken]
      exact hoperator.append (Expr.yields_render right hright hclosing)
  | infixOp token operator left right =>
      obtain ⟨hkind, htoken, rfl, hleft, hright⟩ := h
      have htext : (Expr.infixOp token token.literal left right).render =
          "(" ++ (left.render ++ ((" " ++ token.literal ++ " ") ++ right.render)) ++ ")" := by
        simp [Expr.render, String.append_assoc]
      rw [htext, Expr.renderTokens]
      refine .parenthesised fun hclosing => ?_
      have hoperator := Yields.spaced token.kind (List.mem_cons_of_mem _ hkind)
        (Expr.opens_render hright (")".toList ++ rest))
      have hrightYields := hoperator.append (Expr.yields_render right hright hclosing)
      rw [htoken]
      exact (Expr.yields_render left hleft (by simp [Apart]; decide)).append hrightYields
  | call token callee arguments =>
      obtain ⟨rfl, hcallee, harguments⟩ := h
      have htext : (Expr.call (.fixed .openParen) callee arguments).render =
          callee.render ++ ("(" ++ ", ".intercalate (renderExprs arguments) ++ ")") := by
        simp [Expr.render, String.append_assoc]
      rw [htext, Expr.renderTokens]
      have hargumentsYields :
          Yields _ (.fixed .openParen :: (exprsRenderTokens arguments ++ [_])) rest :=
        .parenthesised fun hclosing => exprs_yields_render arguments harguments hclosing
      exact (Expr.yields_render callee hcallee (by simp [Apart]; decide)).append hargumentsYields
  | array token elements =>
      obtain ⟨rfl, helements⟩ := h
      rw [Expr.render, Expr.renderTokens]
      exact .bracketed fun hclosing => exprs_yields_render elements helements hclosing
  | index token left index =>
      obtain ⟨rfl, hleft, hindex⟩ := h
      have htext : (Expr.index (.fixed .openBracket) left index).render =
          "(" ++ (left.render ++ ("[" ++ index.render ++ "]")) ++ ")" := by
        simp [Expr.render, String.append_assoc]
      rw [htext, Expr.renderTokens]
      refine .parenthesised fun hclosing => ?_
      have hindexYields :
          Yields _ (.fixed .openBracket :: (index.renderTokens ++ [_])) (")".toList ++ rest) :=
        .bracketed fun hclosing => Expr.yields_render index hindex hclosing
      exact (Expr.yields_render left hleft (by simp [Apart]; decide)).append hindexYields
  | field token object name =>
      obtain ⟨rfl, hobject, hname, -, hword⟩ := h
      obtain ⟨token, name⟩ := name
      obtain rfl : name = token.literal := congrArg Ident.name hname
      have htext : (Expr.field (.fixed .dot) object ⟨token, token.literal⟩).render =
          "(" ++ (object.render ++ ("." ++ token.literal)) ++ ")" := by
        simp [Expr.render, String.append_assoc]
      rw [htext, Expr.renderTokens]
      refine .parenthesised fun hclosing => ?_
      have hdot : Yields "." [.fixed .dot] (token.literal.toList ++ (")".toList ++ rest)) :=
        .punctuation .dot (by decide) _
      exact (Expr.yields_render object hobject (by simp [Apart]; decide)).append
        (hdot.append (.word hword hclosing))
  | string | ifElse | whileLoop | function | hash => exact absurd h id

theorem exprs_yields_render (es : List Expr) (h : ExprsPlain es) {rest : List Char}
    (hrest : Apart rest) :
    Yields (", ".intercalate (renderExprs es)) (exprsRenderTokens es) rest := by
  match es with
  | [] =>
      rw [renderExprs, String.intercalate_nil]
      exact .nil rest
  | [e] =>
      rw [renderExprs, renderExprs, String.intercalate_singleton, exprsRenderTokens,
        furtherRenderTokens, List.append_nil]
      exact Expr.yields_render e h.1 hrest
  | e :: e' :: es =>
      obtain ⟨he, hes⟩ := h
      have hrestYields := (Yields.comma (exprs_opens_render hes.1 rest)).append
        (exprs_yields_render (e' :: es) hes hrest)
      have hyields := (Expr.yields_render e he (by simp [Apart]; decide)).append hrestYields
      rw [renderExprs, renderExprs, String.intercalate_cons_cons, String.append_assoc]
      exact hyields

end

end Text

end ScriptFront
