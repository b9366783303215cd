import ScriptFront.Parse.Report
import ScriptFront.Proofs.Branches.Basic
import ScriptFront.Proofs.Reading.Gives

namespace ScriptFront

open Reader Parse

-- The expressions that rules call for are within a bound. A block has two more nodes than the
-- expressions in it: its own and that of a statement.
structure Parts.Bounded (parts : Parts Parse) (bound : Nat) : Prop where
  expr (limit : Precedence) : (parts.expr limit).Gives fun e => (Node.expr e).Within bound
  block : parts.block.Gives fun b => (Node.block b).Within (bound + 2)

namespace Parts.Bounded

variable {parts : Parts Parse} {bound : Nat} (h : parts.Bounded bound)
include h

theorem parenthesised : parts.parenthesised.Gives fun e => (Node.expr e).Within bound :=
  .after _ fun _ => (h.expr _).bind fun _ he => .after _ fun _ => .pure he

theorem condition : parts.condition.Gives fun e => (Node.expr e).Within bound :=
  .after _ fun _ => h.parenthesised

theorem braced : parts.braced.Gives fun b => (Node.block b).Within (bound + 2) :=
  .after _ fun _ => h.block

theorem exprList (close : TokenKind) :
    (parts.exprList close).Gives fun es => ∀ e ∈ es, (Node.expr e).Within bound := by
  refine .after _ fun token => .ite (.after _ fun _ => .pure (by simp)) ?_
  have hnext : Gives (fun e => (Node.expr e).Within bound) (do
      Reader.advance
      Reader.advance
      parts.expr .lowest) := .after _ fun _ => .after _ fun _ => h.expr _
  refine .after _ fun _ => (h.expr _).bind fun first hfirst => ?_
  refine (hnext.collectWhile _).bind fun rest hrest => .after _ fun _ => .pure ?_
  exact List.forall_mem_cons.mpr ⟨hfirst, hrest⟩

theorem pair : parts.pair.Gives fun pair =>
    (Node.expr pair.1).Within bound ∧ (Node.expr pair.2).Within bound := by
  refine .after _ fun _ => (h.expr _).bind fun key hkey => .after _ fun _ => .after _ fun _ => ?_
  refine (h.expr _).bind fun value hvalue => .after _ fun token => ?_
  exact .ite (.pure ⟨hkey, hvalue⟩) (.after _ fun _ => .pure ⟨hkey, hvalue⟩)

theorem pairs : parts.pairs.Gives fun ps =>
    ∀ pair ∈ ps, (Node.expr pair.1).Within bound ∧ (Node.expr pair.2).Within bound :=
  (Gives.collectWhile h.pair _).bind fun _ hpairs => .after _ fun _ => .pure hpairs

theorem prefixRule (rule : PrefixRule) :
    (rule.parse parts).Gives fun e => (Node.expr e).Within (bound + 3) := by
  have hleaf {e : Expr} (h : (Node.expr e).children = []) : (Node.expr e).Within (bound + 3) :=
    Node.within_of_children_eq_nil h (Nat.succ_pos _)
  refine .after _ fun token => ?_
  cases rule with
  | identifier => exact .pure (hleaf rfl)
  | integer =>
      refine .after _ fun token => ?_
      split
      · exact .pure (hleaf rfl)
      · exact gives_blame _
  | string => exact .pure (hleaf rfl)
  | boolean => exact .pure (hleaf rfl)
  | operator =>
      refine .after _ fun _ => (h.expr _).bind fun right hright => .pure ?_
      exact Node.within_of_inside rfl (by simp [Node.inside, hright.add 2])
  | grouped => exact h.parenthesised.mono fun e he => he.add 3
  | ifElse =>
      refine h.condition.bind fun condition hcondition => ?_
      have hcondition := hcondition.add 2
      refine h.braced.bind fun consequence hconsequence => .after _ fun token => .ite ?_ ?_
      · refine .after _ fun _ => h.braced.bind fun alternative halternative => .pure ?_
        exact Node.within_of_inside rfl
          (by simp [Node.inside, hcondition, hconsequence, halternative])
      · refine .pure (Node.within_of_inside rfl ?_)
        simp [Node.inside, hcondition, hconsequence]
  | whileLoop =>
      refine h.condition.bind fun condition hcondition => h.braced.bind fun body hbody => .pure ?_
      exact Node.within_of_inside rfl
        (by simp [Node.inside, hcondition.add 2, hbody])
  | function =>
      refine .after _ fun _ => .after _ fun names => h.braced.bind fun body hbody => .pure ?_
      have hname (name : Ident) : (Node.expr (.ident name)).Within (bound + 2) :=
        Node.within_ident name (Nat.succ_pos _)
      exact Node.within_of_inside rfl (by simp [Node.inside, hbody, hname])
  | array =>
      refine (h.exprList _).bind fun elements helements => .pure ?_
      refine Node.within_of_inside rfl fun child hchild => ?_
      obtain ⟨e, hmem, rfl⟩ := List.mem_map.mp hchild
      exact (helements e hmem).add 2
  | hash =>
      refine h.pairs.bind fun ps hpairs => .pure ?_
      refine Node.within_of_inside rfl fun child hchild => ?_
      obtain ⟨pair, hmem, hpair⟩ := List.mem_flatMap.mp hchild
      obtain ⟨hkey, hvalue⟩ := hpairs pair hmem
      simp only [List.mem_cons, List.not_mem_nil, or_false] at hpair
      obtain rfl | rfl := hpair
      · exact hkey.add 2
      · exact hvalue.add 2

-- What is on the left may be as high as the whole.
theorem infixRule (rule : InfixRule) {left : Expr} (hleft : (Node.expr left).Within (bound + 3)) :
    (rule.parse parts left).Gives fun e => (Node.expr e).Within (bound + 3) := by
  refine .after _ fun token => ?_
  cases rule with
  | operator =>
      refine .after _ fun _ => (h.expr _).bind fun right hright => .pure ?_
      exact Node.within_of_left rfl hleft (by simp [Node.inside, hright.add 2])
  | call =>
      refine (h.exprList _).bind fun arguments harguments => .pure ?_
      refine Node.within_of_left rfl hleft fun child hchild => ?_
      obtain ⟨e, hmem, rfl⟩ := List.mem_map.mp hchild
      exact (harguments e hmem).add 2
  | index =>
      refine .after _ fun _ => (h.expr _).bind fun index hindex => .after _ fun _ => .pure ?_
      exact Node.within_of_left rfl hleft (by simp [Node.inside, hindex.add 2])
  | field =>
      refine .after _ fun name => .pure ?_
      have hname := Node.within_ident name (Nat.succ_pos (bound + 1))
      exact Node.within_of_left rfl hleft (by simp [Node.inside, hname])

-- Blocks that stand as statements open no expression, and no bound holds for them.
theorem stmtRule {rule : StmtRule} (hrule : rule ≠ .block) :
    (rule.parse parts).Gives fun s => (Node.stmt s).Within (bound + 1) := by
  refine .after _ fun token => ?_
  cases rule with
  | letIn =>
      refine .after _ fun name => .after _ fun _ => .after _ fun _ => ?_
      refine (h.expr _).bind fun value hvalue => .after _ fun _ => .pure ?_
      have hname := Node.within_ident name hvalue.pos
      exact Node.within_of_inside rfl (by simp [Node.inside, hvalue, hname])
  | returns =>
      refine .after _ fun _ => (h.expr _).bind fun value hvalue => .after _ fun _ => .pure ?_
      exact Node.within_of_inside rfl (by simp [Node.inside, hvalue])
  | expression =>
      refine (h.expr _).bind fun value hvalue => .after _ fun _ => .pure ?_
      exact Node.within_of_inside rfl (by simp [Node.inside, hvalue])
  | block => exact absurd rfl hrule

end Parts.Bounded

namespace Grammar

variable {bound : Nat}

theorem standard_stmtRule_ne_block (kind : TokenKind) :
    (standard.stmtRule? kind).getD .expression ≠ .block := by
  cases kind <;> decide

theorem gives_blockOf {stmt : Parse Stmt}
    (h : stmt.Gives fun s => (Node.stmt s).Within (bound + 1)) :
    (blockOf stmt).Gives fun b => (Node.block b).Within (bound + 2) := by
  have hnext : Gives (fun s => (Node.stmt s).Within (bound + 1)) (do
      let statement ← stmt
      advance
      return statement) := h.bind fun s hs => .after _ fun _ => .pure hs
  refine .after _ fun token => .after _ fun _ => (hnext.collectWhile _).bind fun ss hss => .pure ?_
  refine Node.within_of_inside rfl fun child hchild => ?_
  obtain ⟨s, hmem, rfl⟩ := List.mem_map.mp hchild
  exact hss s hmem

section Standard

variable {parts : Parts Parse}

theorem gives_stmt (h : parts.Bounded bound) :
    (standard.stmt parts).Gives fun s => (Node.stmt s).Within (bound + 1) :=
  .after _ fun token => h.stmtRule (standard_stmtRule_ne_block token.kind)

-- Operators may be taken in any number of times, each on top of what has been read so far.
theorem gives_climb (h : parts.Bounded bound) (limit : Precedence) {left : Expr}
    (hleft : (Node.expr left).Within (bound + 3)) :
    (standard.climb parts limit left).Gives fun e => (Node.expr e).Within (bound + 3) := by
  refine Gives.iterateWhile (fun left hleft => ?_) _ hleft
  refine .after _ fun _ => .after _ fun token => ?_
  split
  · exact h.infixRule _ hleft
  · exact .pure hleft

theorem gives_nested (h : parts.Bounded bound) (limit : Precedence) :
    (standard.nested parts limit).Gives fun e => (Node.expr e).Within (bound + 3) := by
  refine .after _ fun token => ?_
  split
  · exact gives_blame _
  · exact (h.prefixRule _).bind fun left hleft => gives_climb h limit hleft

theorem bounded_parts {expr : Precedence → Parse Expr}
    (h : ∀ limit, (expr limit).Gives fun e => (Node.expr e).Within bound) :
    (standard.parts expr).Bounded bound where
  expr := h
  block := by
    refine .after _ fun w => ?_
    generalize w.toList = budget
    induction budget with
    | nil =>
        exact .after _ fun token => .pure (Node.within_of_children_eq_nil rfl (Nat.succ_pos _))
    | cons token budget ih => exact gives_blockOf (gives_stmt ⟨h, ih⟩)

end Standard

-- A level that is opened is good for three nodes: an expression, a block in it and a statement in
-- the block.
theorem gives_expr (levels : Nat) (limit : Precedence) :
    (standard.expr levels limit).Gives fun e => (Node.expr e).Within (3 * levels) := by
  induction levels generalizing limit with
  | zero => exact gives_blame _
  | succ levels ih => exact gives_nested (bounded_parts ih) limit

theorem bounded_partsAt (levels : Nat) : (standard.partsAt levels).Bounded (3 * levels) :=
  bounded_parts (gives_expr levels)

end Grammar

end ScriptFront
