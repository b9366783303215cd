import ScriptFront.Tree

namespace ScriptFront

-- Whatever has a place of its own in a tree. A block that stands as a statement is one node.
inductive Node where
  | stmt (s : Stmt)
  | block (b : Block)
  | expr (e : Expr)

namespace Node

-- The expression in front of the operator or bracket that the node was made for.
def left? : Node → Option Node
  | .expr (.infixOp _ _ left _) => some (.expr left)
  | .expr (.call _ callee _) => some (.expr callee)
  | .expr (.index _ left _) => some (.expr left)
  | .expr (.field _ object _) => some (.expr object)
  | _ => none

-- All other nodes right below.
def inside : Node → List Node
  | .stmt (.letIn _ name value) => [.expr (.ident name), .expr value]
  | .stmt (.returns _ value) => [.expr value]
  | .stmt (.expr _ value) => [.expr value]
  | .stmt (.block body) => body.statements.map .stmt
  | .block body => body.statements.map .stmt
  | .expr (.ident _) => []
  | .expr (.integer _ _) => []
  | .expr (.boolean _ _) => []
  | .expr (.string _ _) => []
  | .expr (.prefixOp _ _ right) => [.expr right]
  | .expr (.infixOp _ _ _ right) => [.expr right]
  | .expr (.ifElse _ condition consequence alternative) =>
    .expr condition :: .block consequence :: alternative.toList.map .block
  | .expr (.whileLoop _ condition body) => [.expr condition, .block body]
  | .expr (.function _ parameters body) =>
    .block body :: parameters.map fun name => .expr (.ident name)
  | .expr (.call _ _ arguments) => arguments.map .expr
  | .expr (.array _ elements) => elements.map .expr
  | .expr (.index _ _ index) => [.expr index]
  | .expr (.field _ _ name) => [.expr (.ident name)]
  | .expr (.hash _ pairs) => pairs.flatMap fun pair => [.expr pair.1, .expr pair.2]

def children (node : Node) : List Node :=
  node.left?.toList ++ node.inside

-- A branch from a node down to a leaf: how many nodes are on it, both ends included, and how many
-- of them it leaves for what is on their left.
inductive Branch : Node → Nat → Nat → Prop where
  | leaf {node : Node} (hleaf : node.children = []) : Branch node 1 0
  | left {node child : Node} {nodes lefts : Nat} (hchild : node.left? = some child)
      (hrest : Branch child nodes lefts) : Branch node (nodes + 1) (lefts + 1)
  | inside {node child : Node} {nodes lefts : Nat} (hchild : child ∈ node.inside)
      (hrest : Branch child nodes lefts) : Branch node (nodes + 1) lefts

-- No branch has more nodes than a bound, apart from those that it leaves to the left.
structure Within (bound : Nat) (node : Node) : Prop where
  pos : 0 < bound
  nodes_le {nodes lefts : Nat} (hbranch : Branch node nodes lefts) : nodes ≤ bound + lefts

variable {bound : Nat} {node : Node}

theorem Within.add (h : node.Within bound) (extra : Nat) : node.Within (bound + extra) where
  pos := Nat.add_pos_left h.pos extra
  nodes_le hbranch := by
    have hnodes := h.nodes_le hbranch
    omega

-- A step to the left costs nothing, any other one is paid for with one of the bound.
theorem within_succ (hleft : ∀ child ∈ node.left?, child.Within (bound + 1))
    (hinside : ∀ child ∈ node.inside, child.Within bound) : node.Within (bound + 1) where
  pos := Nat.succ_pos bound
  nodes_le hbranch := by
    cases hbranch with
    | leaf => omega
    | left hchild hrest =>
        have hnodes := (hleft _ hchild).nodes_le hrest
        omega
    | inside hchild hrest =>
        have hnodes := (hinside _ hchild).nodes_le hrest
        omega

theorem within_of_inside (hleft : node.left? = none)
    (hinside : ∀ child ∈ node.inside, child.Within bound) : node.Within (bound + 1) :=
  within_succ (by simp [hleft]) hinside

theorem within_of_left {left : Node} (hleft : node.left? = some left)
    (hwithin : left.Within (bound + 1)) (hinside : ∀ child ∈ node.inside, child.Within bound) :
    node.Within (bound + 1) :=
  within_succ (by simpa [hleft] using hwithin) hinside

theorem within_of_children_eq_nil (hleaf : node.children = []) (hpos : 0 < bound) :
    node.Within bound := by
  obtain ⟨hleft, hinside⟩ := List.append_eq_nil_iff.mp hleaf
  obtain ⟨bound, rfl⟩ := Nat.exists_eq_add_of_lt hpos
  exact within_of_inside (Option.toList_eq_nil_iff.mp hleft) (by simp [hinside])

theorem within_ident (name : Ident) (hpos : 0 < bound) : (Node.expr (.ident name)).Within bound :=
  within_of_children_eq_nil rfl hpos

end Node

end ScriptFront
