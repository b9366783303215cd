import ScriptFront.Grammar
import ScriptFront.Precedence
import ScriptFront.Text.Integer
import ScriptFront.Tree

namespace ScriptFront

namespace TokenKind

def unaryOperators : List TokenKind := [not, dash]

def binaryOperators : List TokenKind :=
  [equals, notEquals, less, greater, plus, dash, slash, star]

end TokenKind

-- An operator between two expressions binds less tightly than one before an expression.
theorem Precedence.ofKind_lt_operand {kind : TokenKind} (h : kind ∈ TokenKind.binaryOperators) :
    ofKind kind < .operand := by
  revert h
  cases kind <;> decide

theorem Precedence.lowest_lt_ofKind {kind : TokenKind} (h : kind ∈ TokenKind.binaryOperators) :
    .lowest < ofKind kind := by
  revert h
  cases kind <;> decide

-- The kinds of token that call for a rule.
def PrefixRule.kinds : PrefixRule → List TokenKind
  | .identifier => [.identifier]
  | .integer => [.integer]
  | .string => [.string]
  | .boolean => [.kwTrue, .kwFalse]
  | .operator => TokenKind.unaryOperators
  | .grouped => [.openParen]
  | .ifElse => [.kwIf]
  | .whileLoop => [.kwWhile]
  | .function => [.kwFn]
  | .array => [.openBracket]
  | .hash => [.openCurly]

def InfixRule.kinds : InfixRule → List TokenKind
  | .operator => TokenKind.binaryOperators
  | .call => [.openParen]
  | .index => [.openBracket]
  | .field => [.dot]

theorem Grammar.standardPrefix?_eq_some {kind : TokenKind} {rule : PrefixRule} :
    standardPrefix? kind = some rule ↔ kind ∈ rule.kinds := by
  cases kind <;> cases rule <;> decide

theorem Grammar.standardInfix?_eq_some {kind : TokenKind} {rule : InfixRule} :
    standardInfix? kind = some rule ↔ kind ∈ rule.kinds := by
  cases kind <;> cases rule <;> decide

def TokenKind.StartsStmt (kind : TokenKind) : Prop :=
  kind = .kwLet ∨ kind = .kwReturn ∨ (Grammar.standardPrefix? kind).isSome

theorem TokenKind.StartsStmt.notMem {kind : TokenKind} (h : kind.StartsStmt) :
    kind ∉ [eof, closeCurly, semicolon, kwElse] := by
  revert h
  unfold StartsStmt
  cases kind <;> decide

-- Names behind a first one, each with a comma before it.
inductive FurtherNames : List Ident → List Token → Prop where
  | nil : FurtherNames [] []
  | cons {comma name : Token} {names : List Ident} {tokens : List Token}
      (hcomma : comma.kind = .comma) (hname : name.kind = .identifier)
      (hrest : FurtherNames names tokens) :
      FurtherNames (.ofToken name :: names) (comma :: name :: tokens)

inductive Names : List Ident → List Token → Prop where
  | nil : Names [] []
  | cons {name : Token} {names : List Ident} {tokens : List Token}
      (hname : name.kind = .identifier) (hrest : FurtherNames names tokens) :
      Names (.ofToken name :: names) (name :: tokens)

-- The semicolon that a statement may end with.
inductive Ending : Bool → List Token → Prop where
  | none : Ending false []
  | semicolon {token : Token} (hkind : token.kind = .semicolon) : Ending true [token]

theorem FurtherNames.kind_ne_eof {names : List Ident} {tokens : List Token}
    (h : FurtherNames names tokens) : ∀ token ∈ tokens, token.kind ≠ .eof := by
  induction h with
  | nil => simp
  | cons hcomma hname _ ih => simp_all

theorem Names.kind_ne_eof {names : List Ident} {tokens : List Token} (h : Names names tokens) :
    ∀ token ∈ tokens, token.kind ≠ .eof := by
  cases h with
  | nil => simp
  | cons hname hrest => simpa [hname] using hrest.kind_ne_eof

theorem Ending.kind_ne_eof {closed : Bool} {tokens : List Token} (h : Ending closed tokens) :
    ∀ token ∈ tokens, token.kind ≠ .eof := by
  cases h with
  | none => simp
  | semicolon hkind => simp [hkind]

-- What a stretch of tokens can stand for. An expression comes with the precedence of the operator
-- that was applied last in it, which is the highest one if there is none outside parentheses.
inductive Phrase where
  | expr (level : Precedence) (e : Expr)
  | exprs (es : List Expr)
  -- expressions behind a first one, each with a comma before it
  | furtherExprs (es : List Expr)
  | pairs (ps : List (Expr × Expr))
  | block (b : Block)
  -- whether the statement has its semicolon
  | stmt (closed : Bool) (s : Stmt)
  | stmts (ss : List Stmt)

-- The grammar of the language: which tokens spell which tree. No more than a number of levels of
-- expressions stand inside each other. What is left of an operator or of a bracket stands at the
-- level of the whole, everything else one level further in.
inductive Spelled : Nat → Phrase → List Token → Prop where
  | ident {levels : Nat} {token : Token} (hkind : token.kind = .identifier) :
      Spelled (levels + 1) (.expr .index (.ident (.ofToken token))) [token]
  | integer {levels : Nat} {token : Token} {value : Int64} (hkind : token.kind = .integer)
      (hvalue : Text.int64? token.literal = some value) :
      Spelled (levels + 1) (.expr .index (.integer token value)) [token]
  | string {levels : Nat} {token : Token} (hkind : token.kind = .string) :
      Spelled (levels + 1) (.expr .index (.string token token.literal)) [token]
  | boolean {levels : Nat} {token : Token} (hkind : token.kind = .kwTrue ∨ token.kind = .kwFalse) :
      Spelled (levels + 1) (.expr .index (.boolean token (token.kind = .kwTrue))) [token]
  | grouped {levels : Nat} {level : Precedence} {e : Expr} {opening closing : Token}
      {tokens : List Token} (hopening : opening.kind = .openParen)
      (hinner : Spelled levels (.expr level e) tokens) (hclosing : closing.kind = .closeParen) :
      Spelled (levels + 1) (.expr .index e) (opening :: (tokens ++ [closing]))
  | prefixOp {levels : Nat} {level : Precedence} {right : Expr} {token : Token}
      {tokens : List Token} (hkind : token.kind ∈ TokenKind.unaryOperators)
      (hright : Spelled levels (.expr level right) tokens) (hlevel : .operand ≤ level) :
      Spelled (levels + 1) (.expr .operand (.prefixOp token token.literal right)) (token :: tokens)
  -- operators of one precedence group to the left
  | infixOp {levels : Nat} {leftLevel rightLevel : Precedence} {left right : Expr} {token : Token}
      {tokens tokens' : List Token} (hkind : token.kind ∈ TokenKind.binaryOperators)
      (hleft : Spelled (levels + 1) (.expr leftLevel left) tokens)
      (hleftLevel : .ofKind token.kind ≤ leftLevel)
      (hright : Spelled levels (.expr rightLevel right) tokens')
      (hrightLevel : .ofKind token.kind < rightLevel) :
      Spelled (levels + 1) (.expr (.ofKind token.kind) (.infixOp token token.literal left right))
        (tokens ++ token :: tokens')
  | call {levels : Nat} {level : Precedence} {callee : Expr} {arguments : List Expr}
      {opening closing : Token} {tokens tokens' : List Token}
      (hcallee : Spelled (levels + 1) (.expr level callee) tokens) (hlevel : .operand < level)
      (hopening : opening.kind = .openParen)
      (harguments : Spelled levels (.exprs arguments) tokens')
      (hclosing : closing.kind = .closeParen) :
      Spelled (levels + 1) (.expr .index (.call opening callee arguments))
        (tokens ++ opening :: (tokens' ++ [closing]))
  | index {levels : Nat} {level inner : Precedence} {left position : Expr}
      {opening closing : Token} {tokens tokens' : List Token}
      (hleft : Spelled (levels + 1) (.expr level left) tokens) (hlevel : .operand < level)
      (hopening : opening.kind = .openBracket)
      (hposition : Spelled levels (.expr inner position) tokens')
      (hclosing : closing.kind = .closeBracket) :
      Spelled (levels + 1) (.expr .index (.index opening left position))
        (tokens ++ opening :: (tokens' ++ [closing]))
  | field {levels : Nat} {level : Precedence} {object : Expr} {dot name : Token}
      {tokens : List Token} (hobject : Spelled (levels + 1) (.expr level object) tokens)
      (hlevel : .operand < level) (hdot : dot.kind = .dot) (hname : name.kind = .identifier) :
      Spelled (levels + 1) (.expr .index (.field dot object (.ofToken name)))
        (tokens ++ [dot, name])
  | array {levels : Nat} {elements : List Expr} {opening closing : Token} {tokens : List Token}
      (hopening : opening.kind = .openBracket) (helements : Spelled levels (.exprs elements) tokens)
      (hclosing : closing.kind = .closeBracket) :
      Spelled (levels + 1) (.expr .index (.array opening elements))
        (opening :: (tokens ++ [closing]))
  | hash {levels : Nat} {ps : List (Expr × Expr)} {opening closing : Token} {tokens : List Token}
      (hopening : opening.kind = .openCurly) (hpairs : Spelled levels (.pairs ps) tokens)
      (hclosing : closing.kind = .closeCurly) :
      Spelled (levels + 1) (.expr .index (.hash opening ps)) (opening :: (tokens ++ [closing]))
  | ifThen {levels : Nat} {level : Precedence} {condition : Expr} {consequence : Block}
      {token opening closing : Token} {tokens tokens' : List Token} (hkind : token.kind = .kwIf)
      (hopening : opening.kind = .openParen)
      (hcondition : Spelled levels (.expr level condition) tokens)
      (hclosing : closing.kind = .closeParen)
      (hconsequence : Spelled levels (.block consequence) tokens') :
      Spelled (levels + 1) (.expr .index (.ifElse token condition consequence none))
        (token :: opening :: (tokens ++ closing :: tokens'))
  | ifElse {levels : Nat} {level : Precedence} {condition : Expr}
      {consequence alternative : Block} {token opening closing otherwise : Token}
      {tokens tokens' tokens'' : List Token} (hkind : token.kind = .kwIf)
      (hopening : opening.kind = .openParen)
      (hcondition : Spelled levels (.expr level condition) tokens)
      (hclosing : closing.kind = .closeParen)
      (hconsequence : Spelled levels (.block consequence) tokens')
      (hotherwise : otherwise.kind = .kwElse)
      (halternative : Spelled levels (.block alternative) tokens'') :
      Spelled (levels + 1) (.expr .index (.ifElse token condition consequence (some alternative)))
        (token :: opening :: (tokens ++ closing :: (tokens' ++ otherwise :: tokens'')))
  | whileLoop {levels : Nat} {level : Precedence} {condition : Expr} {body : Block}
      {token opening closing : Token} {tokens tokens' : List Token} (hkind : token.kind = .kwWhile)
      (hopening : opening.kind = .openParen)
      (hcondition : Spelled levels (.expr level condition) tokens)
      (hclosing : closing.kind = .closeParen)
      (hbody : Spelled levels (.block body) tokens') :
      Spelled (levels + 1) (.expr .index (.whileLoop token condition body))
        (token :: opening :: (tokens ++ closing :: tokens'))
  | function {levels : Nat} {names : List Ident} {body : Block} {token opening closing : Token}
      {tokens tokens' : List Token} (hkind : token.kind = .kwFn)
      (hopening : opening.kind = .openParen) (hnames : Names names tokens)
      (hclosing : closing.kind = .closeParen)
      (hbody : Spelled levels (.block body) tokens') :
      Spelled (levels + 1) (.expr .index (.function token names body))
        (token :: opening :: (tokens ++ closing :: tokens'))
  | noExprs {levels : Nat} : Spelled levels (.exprs []) []
  | someExprs {levels : Nat} {level : Precedence} {e : Expr} {es : List Expr}
      {tokens tokens' : List Token} (hfirst : Spelled levels (.expr level e) tokens)
      (hrest : Spelled levels (.furtherExprs es) tokens') :
      Spelled levels (.exprs (e :: es)) (tokens ++ tokens')
  | noFurtherExprs {levels : Nat} : Spelled levels (.furtherExprs []) []
  | someFurtherExprs {levels : Nat} {level : Precedence} {e : Expr} {es : List Expr}
      {comma : Token} {tokens tokens' : List Token} (hcomma : comma.kind = .comma)
      (hfirst : Spelled levels (.expr level e) tokens)
      (hrest : Spelled levels (.furtherExprs es) tokens') :
      Spelled levels (.furtherExprs (e :: es)) (comma :: (tokens ++ tokens'))
  | noPairs {levels : Nat} : Spelled levels (.pairs []) []
  | lastPair {levels : Nat} {keyLevel valueLevel : Precedence} {key value : Expr} {colon : Token}
      {tokens tokens' : List Token} (hkey : Spelled levels (.expr keyLevel key) tokens)
      (hcolon : colon.kind = .colon) (hvalue : Spelled levels (.expr valueLevel value) tokens') :
      Spelled levels (.pairs [(key, value)]) (tokens ++ colon :: tokens')
  -- when no pair follows, the comma is a trailing one
  | pairComma {levels : Nat} {keyLevel valueLevel : Precedence} {key value : Expr}
      {ps : List (Expr × Expr)} {colon comma : Token} {tokens tokens' tokens'' : List Token}
      (hkey : Spelled levels (.expr keyLevel key) tokens) (hcolon : colon.kind = .colon)
      (hvalue : Spelled levels (.expr valueLevel value) tokens') (hcomma : comma.kind = .comma)
      (hrest : Spelled levels (.pairs ps) tokens'') :
      Spelled levels (.pairs ((key, value) :: ps))
        (tokens ++ colon :: (tokens' ++ comma :: tokens''))
  | block {levels : Nat} {ss : List Stmt} {opening closing : Token} {tokens : List Token}
      (hopening : opening.kind = .openCurly) (hstmts : Spelled levels (.stmts ss) tokens)
      (hclosing : closing.kind = .closeCurly) :
      Spelled levels (.block ⟨opening, ss⟩) (opening :: (tokens ++ [closing]))
  | letIn {levels : Nat} {level : Precedence} {value : Expr} {token name assignment : Token}
      {closed : Bool} {tokens ending : List Token} (hkind : token.kind = .kwLet)
      (hname : name.kind = .identifier) (hassignment : assignment.kind = .assignment)
      (hvalue : Spelled levels (.expr level value) tokens) (hending : Ending closed ending) :
      Spelled levels (.stmt closed (.letIn token (.ofToken name) value))
        (token :: name :: assignment :: (tokens ++ ending))
  | returns {levels : Nat} {level : Precedence} {value : Expr} {token : Token} {closed : Bool}
      {tokens ending : List Token} (hkind : token.kind = .kwReturn)
      (hvalue : Spelled levels (.expr level value) tokens) (hending : Ending closed ending) :
      Spelled levels (.stmt closed (.returns token value)) (token :: (tokens ++ ending))
  | expr {levels : Nat} {level : Precedence} {value : Expr} {token : Token} {closed : Bool}
      {tokens ending : List Token} (hvalue : Spelled levels (.expr level value) (token :: tokens))
      (hending : Ending closed ending) :
      Spelled levels (.stmt closed (.expr token value)) (token :: (tokens ++ ending))
  | noStmts {levels : Nat} : Spelled levels (.stmts []) []
  -- without its semicolon, a statement would go on with an operator behind it
  | someStmts {levels : Nat} {closed : Bool} {s : Stmt} {ss : List Stmt}
      {tokens tokens' : List Token} (hfirst : Spelled levels (.stmt closed s) tokens)
      (hrest : Spelled levels (.stmts ss) tokens')
      (hseparate : closed = true ∨
        ∀ token ∈ tokens'.head?, Precedence.ofKind token.kind = .lowest) :
      Spelled levels (.stmts (s :: ss)) (tokens ++ tokens')

namespace Spelled

variable {levels levels' : Nat} {phrase : Phrase} {tokens : List Token}

theorem succ (h : Spelled levels phrase tokens) : Spelled (levels + 1) phrase tokens := by
  induction h with
  | ident hkind => exact .ident hkind
  | integer hkind hvalue => exact .integer hkind hvalue
  | string hkind => exact .string hkind
  | boolean hkind => exact .boolean hkind
  | grouped hopening _ hclosing ih => exact .grouped hopening ih hclosing
  | prefixOp hkind _ hlevel ih => exact .prefixOp hkind ih hlevel
  | infixOp hkind _ hleft _ hright ih ih' => exact .infixOp hkind ih hleft ih' hright
  | call _ hlevel hopening _ hclosing ih ih' => exact .call ih hlevel hopening ih' hclosing
  | index _ hlevel hopening _ hclosing ih ih' => exact .index ih hlevel hopening ih' hclosing
  | field _ hlevel hdot hname ih => exact .field ih hlevel hdot hname
  | array hopening _ hclosing ih => exact .array hopening ih hclosing
  | hash hopening _ hclosing ih => exact .hash hopening ih hclosing
  | ifThen hkind hopening _ hclosing _ ih ih' => exact .ifThen hkind hopening ih hclosing ih'
  | ifElse hkind hopening _ hclosing _ hotherwise _ ih ih' ih'' =>
      exact .ifElse hkind hopening ih hclosing ih' hotherwise ih''
  | whileLoop hkind hopening _ hclosing _ ih ih' =>
      exact .whileLoop hkind hopening ih hclosing ih'
  | function hkind hopening hnames hclosing _ ih =>
      exact .function hkind hopening hnames hclosing ih
  | noExprs => exact .noExprs
  | someExprs _ _ ih ih' => exact .someExprs ih ih'
  | noFurtherExprs => exact .noFurtherExprs
  | someFurtherExprs hcomma _ _ ih ih' => exact .someFurtherExprs hcomma ih ih'
  | noPairs => exact .noPairs
  | lastPair _ hcolon _ ih ih' => exact .lastPair ih hcolon ih'
  | pairComma _ hcolon _ hcomma _ ih ih' ih'' => exact .pairComma ih hcolon ih' hcomma ih''
  | block hopening _ hclosing ih => exact .block hopening ih hclosing
  | letIn hkind hname hassignment _ hending ih => exact .letIn hkind hname hassignment ih hending
  | returns hkind _ hending ih => exact .returns hkind ih hending
  | expr _ hending ih => exact .expr ih hending
  | noStmts => exact .noStmts
  | someStmts _ _ hseparate ih ih' => exact .someStmts ih ih' hseparate

-- More levels than are needed do no harm.
theorem mono (h : Spelled levels phrase tokens) (hle : levels ≤ levels') :
    Spelled levels' phrase tokens := by
  induction hle with
  | refl => exact h
  | step _ ih => exact ih.succ

-- The end of input is never part of a spelling.
theorem kind_ne_eof (h : Spelled levels phrase tokens) : ∀ token ∈ tokens, token.kind ≠ .eof := by
  induction h with
  | boolean hkind => obtain hkind | hkind := hkind <;> simp [hkind]
  | prefixOp hkind =>
      have hne := ne_of_mem_of_not_mem hkind (show TokenKind.eof ∉ _ by decide)
      grind
  | infixOp hkind =>
      have hne := ne_of_mem_of_not_mem hkind (show TokenKind.eof ∉ _ by decide)
      grind
  | function _ _ hnames =>
      have hne := hnames.kind_ne_eof
      grind
  | letIn _ _ _ _ hending | returns _ _ hending | expr _ hending =>
      have hne := hending.kind_ne_eof
      grind
  | _ => grind

-- An expression starts with a token that some rule starts with.
theorem exists_head {level : Precedence} {e : Expr} (h : Spelled levels (.expr level e) tokens) :
    ∃ token rest rule, tokens = token :: rest ∧ Grammar.standardPrefix? token.kind = some rule := by
  generalize hphrase : Phrase.expr level e = phrase at h
  induction h generalizing level e with
  | infixOp _ _ _ _ _ ih | call _ _ _ _ _ ih | index _ _ _ _ _ ih | field _ _ _ _ ih =>
      obtain ⟨token, rest, rule, rfl, hrule⟩ := ih rfl
      exact ⟨token, _, rule, rfl, hrule⟩
  | ident hkind | integer hkind | string hkind | grouped hkind | array hkind | hash hkind
  | ifThen hkind | ifElse hkind | whileLoop hkind | function hkind =>
      exact ⟨_, _, _, rfl, by rw [hkind]; rfl⟩
  | boolean hkind =>
      refine ⟨_, _, .boolean, rfl, Grammar.standardPrefix?_eq_some.mpr ?_⟩
      simpa [PrefixRule.kinds] using hkind
  | prefixOp hkind =>
      exact ⟨_, _, .operator, rfl, Grammar.standardPrefix?_eq_some.mpr hkind⟩
  | _ => cases hphrase

-- A statement starts with an expression or with a word of its own.
theorem exists_stmt_head {closed : Bool} {s : Stmt} (h : Spelled levels (.stmt closed s) tokens) :
    ∃ token rest, tokens = token :: rest ∧ token.kind.StartsStmt := by
  cases h with
  | letIn hkind => exact ⟨_, _, rfl, .inl hkind⟩
  | returns hkind => exact ⟨_, _, rfl, .inr (.inl hkind)⟩
  | expr hvalue =>
      obtain ⟨token, rest, rule, htokens, hrule⟩ := hvalue.exists_head
      obtain ⟨rfl, rfl⟩ := List.cons.inj htokens
      exact ⟨_, _, rfl, .inr (.inr (by rw [hrule]; rfl))⟩

theorem stmt_ne_nil {closed : Bool} {s : Stmt} (h : Spelled levels (.stmt closed s) tokens) :
    tokens ≠ [] := by
  obtain ⟨token, rest, rfl, -⟩ := h.exists_stmt_head
  exact List.cons_ne_nil _ _

theorem ne_nil {level : Precedence} {e : Expr} (h : Spelled levels (.expr level e) tokens) :
    tokens ≠ [] := by
  obtain ⟨token, rest, rule, rfl, -⟩ := h.exists_head
  exact List.cons_ne_nil _ _

theorem exists_levels {level : Precedence} {e : Expr} (h : Spelled levels (.expr level e) tokens) :
    ∃ levels', levels = levels' + 1 := by
  cases h <;> exact ⟨_, rfl⟩

theorem lowest_lt {level : Precedence} {e : Expr} (h : Spelled levels (.expr level e) tokens) :
    .lowest < level := by
  cases h with
  | infixOp hkind => exact Precedence.lowest_lt_ofKind hkind
  | _ => decide

-- What is tighter than the operand of a sign is as tight as can be.
theorem eq_index {level : Precedence} {e : Expr} (h : Spelled levels (.expr level e) tokens)
    (hlevel : .operand < level) : level = .index := by
  cases h with
  | infixOp hkind => exact absurd hlevel (Nat.lt_asymm (Precedence.ofKind_lt_operand hkind))
  | prefixOp => exact absurd hlevel (Nat.lt_irrefl _)
  | _ => rfl

end Spelled

end ScriptFront
