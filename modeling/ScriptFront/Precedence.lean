import ScriptFront.Token

namespace ScriptFront

-- How tightly an operator binds, loosest first.
inductive Precedence where
  | lowest
  -- == !=
  | equals
  -- < >
  | lessGreater
  -- + -
  | sum
  -- * /
  | product
  -- the operand of a sign or a negation
  | operand
  -- f(x)
  | call
  -- a[i] and a.b
  | index
deriving DecidableEq, Repr, Inhabited

namespace Precedence

def rank : Precedence → Nat
  | .lowest => 0
  | .equals => 1
  | .lessGreater => 2
  | .sum => 3
  | .product => 4
  | .operand => 5
  | .call => 6
  | .index => 7

instance : LT Precedence := ⟨fun a b => a.rank < b.rank⟩

instance : LE Precedence := ⟨fun a b => a.rank ≤ b.rank⟩

instance (a b : Precedence) : Decidable (a < b) :=
  inferInstanceAs (Decidable (a.rank < b.rank))

instance (a b : Precedence) : Decidable (a ≤ b) :=
  inferInstanceAs (Decidable (a.rank ≤ b.rank))

theorem lt_iff_rank {a b : Precedence} : a < b ↔ a.rank < b.rank := Iff.rfl

theorem eq_lowest_of_le {p : Precedence} (h : p ≤ .lowest) : p = .lowest := by
  cases p with
  | lowest => rfl
  | _ => exact absurd h (by decide)

theorem le_index (p : Precedence) : p ≤ .index := by
  cases p <;> decide

instance : Ord Precedence := ⟨fun a b => compare a.rank b.rank⟩

-- How tightly a token binds what stands before it. A kind that is no operator does not bind.
def ofKind : TokenKind → Precedence
  | .equals | .notEquals => .equals
  | .less | .greater => .lessGreater
  | .plus | .dash => .sum
  | .slash | .star => .product
  | .openParen => .call
  | .openBracket | .dot => .index
  | _ => .lowest

end Precedence

end ScriptFront
