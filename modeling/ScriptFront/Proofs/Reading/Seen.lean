import ScriptFront.Proofs.Reading.Attempts
import ScriptFront.Proofs.Spelling.Taken

namespace ScriptFront

open Reader Parse

namespace Window

variable {w stop : Window} {tokens : List Token} {seen : TokenKind → Prop}

-- All tokens that are left are of kinds that may be seen.
def Shows (seen : TokenKind → Prop) (w : Window) : Prop :=
  ∀ token ∈ w.toList, seen token.kind

theorem Reads.shows (h : w.Reads tokens stop) (hshows : w.Shows seen) : stop.Shows seen :=
  fun token hmem => hshows token (h.suffix.subset hmem)

theorem Shows.current (h : w.Shows seen) : seen w.current.kind :=
  h _ List.mem_cons_self

theorem Shows.next (h : w.Shows seen) : w.next.Shows seen := by
  obtain ⟨tokens, hread⟩ := w.reads_next
  exact hread.shows h

theorem Shows.peek (h : w.Shows seen) : seen w.peek.kind :=
  w.current_next ▸ h.next.current

end Window

namespace Parse

variable {α β : Type} {seen : TokenKind → Prop} {x y z : Parse α}

-- The second does what the first does as long as no other kinds of token are seen.
def SameOn (seen : TokenKind → Prop) (x y : Parse α) : Prop :=
  x.Forward ∧ ∀ w : Window, w.Shows seen → y w = x w

theorem SameOn.trans_eq (h : SameOn seen x y) (hz : ∀ w : Window, w.Shows seen → z w = y w) :
    SameOn seen x z :=
  ⟨h.1, fun w hw => (hz w hw).trans (h.2 w hw)⟩

theorem SameOn.bind {f g : α → Parse β} (h : SameOn seen x y)
    (hf : ∀ value, SameOn seen (f value) (g value)) : SameOn seen (x >>= f) (y >>= g) := by
  refine ⟨h.1.bind fun value => (hf value).1, fun w hw => ?_⟩
  rw [bind_apply, bind_apply, h.2 w hw]
  cases hrun : x w with
  | error diagnostic stop => rfl
  | ok value stop =>
      obtain ⟨tokens, hread⟩ := h.1.reads hrun
      exact (hf value).2 stop (hread.shows hw)

theorem SameOn.of_forward (h : x.Forward) : SameOn seen x x :=
  ⟨h, fun _ _ => rfl⟩

def sameOn (seen : TokenKind → Prop) : Congruence Parse Parse :=
  .ofWindow (fun x y => SameOn seen x y) (fun value => .of_forward (forward.pure value)) .bind
    (.of_forward fun w => ⟨[], .refl w⟩) (.of_forward forward.advance)
    (fun kind => .of_forward (forward_expect kind)) (.of_forward forward_integerLiteral)

end Parse

namespace Grammar

-- The same rules for all kinds that may be seen. The rule of an operator that does not bind makes
-- no difference.
structure SameOn (seen : TokenKind → Prop) (grammar grammar' : Grammar) : Prop where
  stmtRule {kind : TokenKind} (hkind : seen kind) :
    grammar'.stmtRule? kind = grammar.stmtRule? kind
  prefixRule {kind : TokenKind} (hkind : seen kind) :
    grammar'.prefixRule? kind = grammar.prefixRule? kind
  infixRule {kind : TokenKind} (hkind : seen kind) (hbinds : .lowest < Precedence.ofKind kind) :
    grammar'.infixRule? kind = grammar.infixRule? kind

namespace SameOn

variable {seen : TokenKind → Prop} {grammar grammar' : Grammar} (h : SameOn seen grammar grammar')
  {parts parts' : Parts Parse} {w : Window}
include h

theorem stmt_apply (hw : w.Shows seen) : grammar'.stmt parts w = grammar.stmt parts w := by
  simp only [stmt, bind_apply, current_apply, h.stmtRule hw.current]

-- What does not bind does not continue an expression, whether there is a rule for it or not.
theorem continues_eq (limit : Precedence) (hw : w.Shows seen) :
    grammar'.continues limit w = grammar.continues limit w := by
  unfold continues
  by_cases hlimit : limit < .ofKind w.peek.kind
  · rw [h.infixRule hw.peek (Nat.lt_of_le_of_lt (Nat.zero_le _) hlimit)]
  · simp only [hlimit, decide_false, Bool.false_and]

theorem continuation_apply {limit : Precedence} {left : Expr} (hw : w.Shows seen)
    (hgo : grammar.continues limit w = true) :
    grammar'.continuation parts left w = grammar.continuation parts left w := by
  simp only [continues, Bool.and_eq_true, decide_eq_true_eq] at hgo
  have hbinds : Precedence.lowest < .ofKind w.peek.kind :=
    Nat.lt_of_le_of_lt (Nat.zero_le _) hgo.1
  simp only [continuation, bind_apply, advance_apply, current_apply, w.current_next,
    h.infixRule hw.peek hbinds]

theorem iterate_apply (hparts : (sameOn seen).RelParts parts parts') (limit : Precedence)
    (budget : List Token) (left : Expr) (hw : w.Shows seen) :
    iterate (grammar'.continues limit) (grammar'.continuation parts') budget left w =
      iterate (grammar.continues limit) (grammar.continuation parts) budget left w := by
  induction budget generalizing left w with
  | nil => rfl
  | cons token budget ih =>
      simp only [iterate, bind_apply, window_apply, h.continues_eq limit hw]
      by_cases hgo : grammar.continues limit w = true
      · obtain ⟨hforward, hsame⟩ := hparts.continuation grammar left
        simp only [if_pos hgo, bind_apply, h.continuation_apply hw hgo, hsame w hw]
        cases hrun : grammar.continuation parts left w with
        | error diagnostic stop => rfl
        | ok value stop =>
            obtain ⟨tokens, hread⟩ := hforward.reads hrun
            exact ih value (hread.shows hw)
      · simp only [if_neg hgo]

theorem climb (hparts : (sameOn seen).RelParts parts parts') (limit : Precedence) (left : Expr) :
    Parse.SameOn seen (grammar.climb parts limit left) (grammar'.climb parts' limit left) :=
  ⟨(hparts.climb grammar limit left).1, fun w hw => h.iterate_apply hparts limit w.toList left hw⟩

theorem nested (hparts : (sameOn seen).RelParts parts parts') (limit : Precedence) :
    Parse.SameOn seen (grammar.nested parts limit) (grammar'.nested parts' limit) := by
  have hmissing : (blame fun token => .missingPrefix token.kind : Parse Expr).Forward :=
    fun w => ⟨[], .refl w⟩
  refine ⟨(hparts.nested grammar limit (.of_forward hmissing)).1, fun w hw => ?_⟩
  simp only [Grammar.nested, bind_apply, current_apply, h.prefixRule hw.current]
  cases grammar.prefixRule? w.current.kind with
  | none => rfl
  | some rule =>
      have hrest := (hparts.prefixRule rule).bind fun left => h.climb hparts limit left
      exact hrest.2 w hw

theorem stmt (hparts : (sameOn seen).RelParts parts parts') :
    Parse.SameOn seen (grammar.stmt parts) (grammar'.stmt parts') :=
  .trans_eq (hparts.stmt grammar) fun _ hw => h.stmt_apply hw

theorem blockWithin {expr expr' : Precedence → Parse Expr}
    (hexpr : ∀ limit, Parse.SameOn seen (expr limit) (expr' limit)) (budget : List Token) :
    Parse.SameOn seen (grammar.blockWithin expr budget) (grammar'.blockWithin expr' budget) := by
  induction budget with
  | nil => exact .of_forward (forward.bind forward.current fun _ => forward.pure _)
  | cons token budget ih => exact (sameOn seen).blockOf (h.stmt ⟨hexpr, ih⟩)

theorem relParts {expr expr' : Precedence → Parse Expr}
    (hexpr : ∀ limit, Parse.SameOn seen (expr limit) (expr' limit)) :
    (sameOn seen).RelParts (grammar.parts expr) (grammar'.parts expr') :=
  ⟨hexpr, .bind (.of_forward fun w => ⟨[], .refl w⟩) fun w => h.blockWithin hexpr w.toList⟩

theorem expr (levels : Nat) (limit : Precedence) :
    Parse.SameOn seen (grammar.expr levels limit) (grammar'.expr levels limit) := by
  induction levels generalizing limit with
  | zero => exact .of_forward fun w => ⟨[], .refl w⟩
  | succ levels ih => exact h.nested (h.relParts ih) limit

theorem partsAt (levels : Nat) :
    (sameOn seen).RelParts (grammar.partsAt levels) (grammar'.partsAt levels) :=
  h.relParts (h.expr levels)

end SameOn

end Grammar

theorem Attempt.runAll_sameOn {seen : TokenKind → Prop} {stmt stmt' : Parse Stmt}
    (h : SameOn seen stmt stmt') (budget : List Token) {w : Window} (hw : w.Shows seen) :
    runAll stmt' budget w = runAll stmt budget w := by
  induction budget generalizing w with
  | nil => rfl
  | cons token budget ih =>
      have hrun : run stmt' w = run stmt w := by
        unfold run
        rw [h.2 w hw]
      obtain ⟨tokens, hread⟩ := reads_resume h.1 w
      simp only [runAll, hrun, ih (hread.shows hw)]

-- So the tries at statements are the same.
theorem Grammar.SameOn.attempts_eq {seen : TokenKind → Prop} {grammar grammar' : Grammar}
    (h : SameOn seen grammar grammar') (levels : Nat) {w : Window} (hw : w.Shows seen) :
    grammar'.attempts levels w = grammar.attempts levels w :=
  Attempt.runAll_sameOn (h.stmt (h.partsAt levels)) w.toList hw

end ScriptFront
