import ScriptFront.Parse.Expression

namespace ScriptFront

open Reader Parse

-- A relation between what two readers do, kept by every step of reading and by every way of
-- putting steps together. A loop may look at the kinds in the window to see whether it goes on.
structure Congruence (m₁ m₂ : Type → Type) [Reader m₁] [Reader m₂] where
  rel {α : Type} : m₁ α → m₂ α → Prop
  pure {α : Type} (value : α) : rel (Pure.pure value) (Pure.pure value)
  bind {α β : Type} {x₁ : m₁ α} {x₂ : m₂ α} {f₁ : α → m₁ β} {f₂ : α → m₂ β}
    (hx : rel x₁ x₂) (hf : ∀ value, rel (f₁ value) (f₂ value)) : rel (x₁ >>= f₁) (x₂ >>= f₂)
  -- the steps that a loop may take as long as a test of the window says to go on
  repeatable {α : Type} : (TokenKind → TokenKind → Bool) → m₁ α → Prop
  repeatable_advance {α : Type} {test : TokenKind → TokenKind → Bool} {x₁ : m₁ α} {x₂ : m₂ α}
    (htest : ∀ now, test now .eof = false) (hx : rel x₁ x₂) :
    repeatable test (advance >>= fun _ => x₁)
  repeatable_before_advance {α : Type} {test : TokenKind → TokenKind → Bool} {x₁ : m₁ α}
    {x₂ : m₂ α} (htest : ∀ next, test .eof next = false) (hx : rel x₁ x₂) :
    repeatable test (x₁ >>= fun value => advance >>= fun _ => Pure.pure value)
  repeatable_expect {α : Type} {test : TokenKind → TokenKind → Bool} {kind : TokenKind}
    {x₁ : m₁ α} {x₂ : m₂ α} (hkind : kind ≠ .eof) (hx : rel x₁ x₂) :
    repeatable test (expect kind >>= fun _ => x₁)
  repeatable_bind {α β : Type} {test : TokenKind → TokenKind → Bool} {x₁ : m₁ α} {x₂ : m₂ α}
    {f₁ : α → m₁ β} (hx : rel x₁ x₂) (hf : ∀ value, repeatable (fun _ _ => true) (f₁ value)) :
    repeatable test (x₁ >>= f₁)
  current : rel (current : m₁ Token) current
  peek : rel (peek : m₁ Token) peek
  advance : rel (advance : m₁ Unit) advance
  expect (kind : TokenKind) : rel (expect kind : m₁ Unit) (expect kind)
  integerLiteral : rel (integerLiteral : m₁ Expr) integerLiteral
  collectWhile {α : Type} {step₁ : m₁ α} {step₂ : m₂ α}
    (test : TokenKind → TokenKind → Bool) (hrepeat : repeatable test step₁)
    (hstep : rel step₁ step₂) :
    rel (collectWhile (fun w => test w.current.kind w.peek.kind) step₁)
      (collectWhile (fun w => test w.current.kind w.peek.kind) step₂)
  iterateWhile {α : Type} {step₁ : α → m₁ α} {step₂ : α → m₂ α}
    (test : TokenKind → TokenKind → Bool) (hrepeat : ∀ value, repeatable test (step₁ value))
    (hstep : ∀ value, rel (step₁ value) (step₂ value)) (value : α) :
    rel (iterateWhile (fun w => test w.current.kind w.peek.kind) step₁ value)
      (iterateWhile (fun w => test w.current.kind w.peek.kind) step₂ value)

namespace Congruence

variable {m₁ m₂ : Type → Type} [Reader m₁] [Reader m₂] (R : Congruence m₁ m₂)

theorem ite {α : Type} {c : Prop} [Decidable c] {x₁ y₁ : m₁ α} {x₂ y₂ : m₂ α}
    (hx : R.rel x₁ x₂) (hy : R.rel y₁ y₂) :
    R.rel (if c then x₁ else y₁) (if c then x₂ else y₂) := by
  split
  · exact hx
  · exact hy

theorem ident : R.rel (ident : m₁ Ident) ident :=
  R.bind (R.expect _) fun _ => R.bind R.current fun _ => R.pure _

theorem parameters : R.rel (parameters : m₁ (List Ident)) parameters := by
  refine R.bind R.peek fun _ => R.ite (R.bind R.advance fun _ => R.pure _) ?_
  refine R.bind R.ident fun _ => R.bind ?_ fun _ => R.bind (R.expect _) fun _ => R.pure _
  exact R.collectWhile (fun _ next => next = .comma)
    (R.repeatable_advance (fun _ => rfl) R.ident) (R.bind R.advance fun _ => R.ident)

theorem semicolon : R.rel (semicolon : m₁ Unit) semicolon :=
  R.bind R.peek fun _ => R.ite R.advance (R.pure _)

-- The parts of two rules read in related ways.
structure RelParts (parts₁ : Parts m₁) (parts₂ : Parts m₂) : Prop where
  expr (limit : Precedence) : R.rel (parts₁.expr limit) (parts₂.expr limit)
  block : R.rel parts₁.block parts₂.block

section Parts

variable {R} {parts₁ : Parts m₁} {parts₂ : Parts m₂} (h : R.RelParts parts₁ parts₂)
include h

theorem RelParts.parenthesised : R.rel parts₁.parenthesised parts₂.parenthesised :=
  R.bind R.advance fun _ => R.bind (h.expr _) fun _ => R.bind (R.expect _) fun _ => R.pure _

theorem RelParts.condition : R.rel parts₁.condition parts₂.condition :=
  R.bind (R.expect _) fun _ => h.parenthesised

theorem RelParts.braced : R.rel parts₁.braced parts₂.braced :=
  R.bind (R.expect _) fun _ => h.block

theorem RelParts.exprList (close : TokenKind) :
    R.rel (parts₁.exprList close) (parts₂.exprList close) := by
  refine R.bind R.peek fun _ => R.ite (R.bind R.advance fun _ => R.pure _) ?_
  refine R.bind R.advance fun _ => R.bind (h.expr _) fun _ => R.bind ?_ fun _ =>
    R.bind (R.expect _) fun _ => R.pure _
  have hnext := R.bind R.advance fun _ => h.expr .lowest
  exact R.collectWhile (fun _ next => next = .comma)
    (R.repeatable_advance (fun _ => rfl) hnext) (R.bind R.advance fun _ => hnext)

-- What is read of a pair behind its colon.
theorem RelParts.pairValue (key : Expr) :
    R.rel (do
        Reader.advance
        let value ← parts₁.expr .lowest
        if (← Parse.peek).kind = .closeCurly then return (key, value)
        else
          Parse.expect .comma
          return (key, value))
      (do
        Reader.advance
        let value ← parts₂.expr .lowest
        if (← Parse.peek).kind = .closeCurly then return (key, value)
        else
          Parse.expect .comma
          return (key, value)) := by
  refine R.bind R.advance fun _ => R.bind (h.expr _) fun _ => R.bind R.peek fun _ => ?_
  exact R.ite (R.pure _) (R.bind (R.expect _) fun _ => R.pure _)

theorem RelParts.pair : R.rel parts₁.pair parts₂.pair :=
  R.bind R.advance fun _ => R.bind (h.expr _) fun key => R.bind (R.expect _) fun _ =>
    h.pairValue key

-- A pair has a colon in it, whatever its key is.
theorem RelParts.repeatable_pair (test : TokenKind → TokenKind → Bool) :
    R.repeatable test parts₁.pair :=
  R.repeatable_bind R.advance fun _ => R.repeatable_bind (h.expr _) fun key =>
    R.repeatable_expect (by decide) (h.pairValue key)

theorem RelParts.pairs : R.rel parts₁.pairs parts₂.pairs :=
  R.bind (R.collectWhile (fun _ next => !decide (next = .closeCurly)) (h.repeatable_pair _) h.pair)
    fun _ => R.bind (R.expect _) fun _ => R.pure _

theorem RelParts.prefixRule (rule : PrefixRule) :
    R.rel (rule.parse parts₁) (rule.parse parts₂) := by
  refine R.bind R.current fun token => ?_
  cases rule with
  | identifier => exact R.pure _
  | integer => exact R.integerLiteral
  | string => exact R.pure _
  | boolean => exact R.pure _
  | operator => exact R.bind R.advance fun _ => R.bind (h.expr _) fun _ => R.pure _
  | grouped => exact h.parenthesised
  | ifElse =>
      refine R.bind h.condition fun _ => R.bind h.braced fun _ => R.bind R.peek fun _ => ?_
      exact R.ite (R.bind R.advance fun _ => R.bind h.braced fun _ => R.pure _) (R.pure _)
  | whileLoop => exact R.bind h.condition fun _ => R.bind h.braced fun _ => R.pure _
  | function =>
      exact R.bind (R.expect _) fun _ => R.bind R.parameters fun _ =>
        R.bind h.braced fun _ => R.pure _
  | array => exact R.bind (h.exprList _) fun _ => R.pure _
  | hash => exact R.bind h.pairs fun _ => R.pure _

theorem RelParts.infixRule (rule : InfixRule) (left : Expr) :
    R.rel (rule.parse parts₁ left) (rule.parse parts₂ left) := by
  refine R.bind R.current fun token => ?_
  cases rule with
  | operator => exact R.bind R.advance fun _ => R.bind (h.expr _) fun _ => R.pure _
  | call => exact R.bind (h.exprList _) fun _ => R.pure _
  | index =>
      exact R.bind R.advance fun _ => R.bind (h.expr _) fun _ => R.bind (R.expect _) fun _ =>
        R.pure _
  | field => exact R.bind R.ident fun _ => R.pure _

theorem RelParts.stmtRule (rule : StmtRule) :
    R.rel (rule.parse parts₁) (rule.parse parts₂) := by
  refine R.bind R.current fun token => ?_
  cases rule with
  | letIn =>
      exact R.bind R.ident fun _ => R.bind (R.expect _) fun _ => R.bind R.advance fun _ =>
        R.bind (h.expr _) fun _ => R.bind R.semicolon fun _ => R.pure _
  | returns =>
      exact R.bind R.advance fun _ => R.bind (h.expr _) fun _ => R.bind R.semicolon fun _ =>
        R.pure _
  | expression => exact R.bind (h.expr _) fun _ => R.bind R.semicolon fun _ => R.pure _
  | block => exact R.bind h.block fun _ => R.pure _

variable (grammar : Grammar)

theorem RelParts.stmt : R.rel (grammar.stmt parts₁) (grammar.stmt parts₂) :=
  R.bind R.current fun _ => h.stmtRule _

-- What is read of an operator once it is current.
theorem RelParts.operator (left : Expr) :
    R.rel (do
        match grammar.infixRule? (← Parse.current).kind with
        | some rule => rule.parse parts₁ left
        | none => return left)
      (do
        match grammar.infixRule? (← Parse.current).kind with
        | some rule => rule.parse parts₂ left
        | none => return left) := by
  refine R.bind R.current fun token => ?_
  cases grammar.infixRule? token.kind with
  | none => exact R.pure _
  | some rule => exact h.infixRule rule left

theorem RelParts.continuation (left : Expr) :
    R.rel (grammar.continuation parts₁ left) (grammar.continuation parts₂ left) :=
  R.bind R.advance fun _ => h.operator grammar left

theorem RelParts.climb (limit : Precedence) (left : Expr) :
    R.rel (grammar.climb parts₁ limit left) (grammar.climb parts₂ limit left) := by
  refine R.iterateWhile (fun _ next => limit < .ofKind next && (grammar.infixRule? next).isSome)
    (fun left => R.repeatable_advance ?_ (h.operator grammar left)) (h.continuation grammar) left
  -- the end of input does not bind
  intro now
  have hlowest : ¬limit < Precedence.ofKind .eof := Nat.not_lt_zero _
  simp [hlowest]

theorem RelParts.nested (limit : Precedence)
    (hmissing : R.rel (blame fun token => .missingPrefix token.kind : m₁ Expr)
      (blame fun token => .missingPrefix token.kind)) :
    R.rel (grammar.nested parts₁ limit) (grammar.nested parts₂ limit) := by
  refine R.bind R.current fun token => ?_
  cases grammar.prefixRule? token.kind with
  | none => exact hmissing
  | some rule => exact R.bind (h.prefixRule rule) fun _ => h.climb grammar limit _

end Parts

-- What is read between the braces of a block.
theorem statements {stmt₁ : m₁ Stmt} {stmt₂ : m₂ Stmt} (h : R.rel stmt₁ stmt₂) :
    R.rel
      (Parse.collectWhile Grammar.inBlock do
        let statement ← stmt₁
        Reader.advance
        return statement)
      (Parse.collectWhile Grammar.inBlock do
        let statement ← stmt₂
        Reader.advance
        return statement) :=
  R.collectWhile (fun now _ => now ≠ .closeCurly && now ≠ .eof)
    (R.repeatable_before_advance (fun _ => rfl) h)
    (R.bind h fun _ => R.bind R.advance fun _ => R.pure _)

theorem blockOf {stmt₁ : m₁ Stmt} {stmt₂ : m₂ Stmt} (h : R.rel stmt₁ stmt₂) :
    R.rel (Grammar.blockOf stmt₁) (Grammar.blockOf stmt₂) :=
  R.bind R.current fun _ => R.bind R.advance fun _ => R.bind (R.statements h) fun _ => R.pure _

theorem blockWithin (grammar : Grammar) {expr₁ : Precedence → m₁ Expr}
    {expr₂ : Precedence → m₂ Expr} (h : ∀ limit, R.rel (expr₁ limit) (expr₂ limit))
    (budget : List Token) :
    R.rel (grammar.blockWithin expr₁ budget) (grammar.blockWithin expr₂ budget) := by
  induction budget with
  | nil => exact R.bind R.current fun _ => R.pure _
  | cons token budget ih =>
      exact R.blockOf (RelParts.stmt ⟨h, ih⟩ grammar)

-- When both readers look at the same window, blocks are related as soon as expressions are.
theorem relParts (grammar : Grammar) {expr₁ : Precedence → m₁ Expr}
    {expr₂ : Precedence → m₂ Expr} (hwindow : R.rel (window : m₁ Window) window)
    (h : ∀ limit, R.rel (expr₁ limit) (expr₂ limit)) :
    R.RelParts (grammar.parts expr₁) (grammar.parts expr₂) :=
  ⟨h, R.bind hwindow fun w => R.blockWithin grammar h w.toList⟩

section Window

variable (rel : {α : Type} → m₁ α → m₂ α → Prop)
  (hpure : ∀ {α : Type} (value : α), rel (Pure.pure value) (Pure.pure value))
  (hbind : ∀ {α β : Type} {x₁ : m₁ α} {x₂ : m₂ α} {f₁ : α → m₁ β} {f₂ : α → m₂ β},
    rel x₁ x₂ → (∀ value, rel (f₁ value) (f₂ value)) → rel (x₁ >>= f₁) (x₂ >>= f₂))
  (hwindow : rel (window : m₁ Window) window)

include hpure hbind hwindow

theorem rel_collect {α : Type} {step₁ : m₁ α} {step₂ : m₂ α} (hstep : rel step₁ step₂)
    (goOn : Window → Bool) (budget : List Token) :
    rel (collect goOn step₁ budget) (collect goOn step₂ budget) := by
  induction budget with
  | nil => exact hpure _
  | cons token budget ih =>
      refine hbind hwindow fun w => ?_
      cases goOn w with
      | true => exact hbind hstep fun _ => hbind ih fun _ => hpure _
      | false => exact hpure _

theorem rel_iterate {α : Type} {step₁ : α → m₁ α} {step₂ : α → m₂ α}
    (hstep : ∀ value, rel (step₁ value) (step₂ value)) (goOn : Window → Bool)
    (budget : List Token) (value : α) :
    rel (iterate goOn step₁ budget value) (iterate goOn step₂ budget value) := by
  induction budget generalizing value with
  | nil => exact hpure _
  | cons token budget ih =>
      refine hbind hwindow fun w => ?_
      cases goOn w with
      | true => exact hbind (hstep value) ih
      | false => exact hpure _

-- The loops look at nothing but the window, so they need no care of their own when it is the same
-- on both sides.
def ofWindow (hadvance : rel (Reader.advance : m₁ Unit) Reader.advance)
    (hexpect : ∀ kind, rel (Parse.expect kind : m₁ Unit) (Parse.expect kind))
    (hinteger : rel (Parse.integerLiteral : m₁ Expr) Parse.integerLiteral) :
    Congruence m₁ m₂ where
  rel := rel
  pure := hpure
  bind := hbind
  current := hbind hwindow fun _ => hpure _
  peek := hbind hwindow fun _ => hpure _
  advance := hadvance
  expect := hexpect
  integerLiteral := hinteger
  repeatable _ _ := True
  repeatable_advance _ _ := trivial
  repeatable_before_advance _ _ := trivial
  repeatable_expect _ _ := trivial
  repeatable_bind _ _ := trivial
  collectWhile _ _ hstep :=
    hbind hwindow fun w => rel_collect rel hpure hbind hwindow hstep _ w.toList
  iterateWhile _ _ hstep value :=
    hbind hwindow fun w => rel_iterate rel hpure hbind hwindow hstep _ w.toList value

end Window

end Congruence

end ScriptFront
