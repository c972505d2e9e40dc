import KaleidoscopeFrontEnd.Tree.Operator

namespace KaleidoscopeFrontEnd

variable {α β : Type}

structure OperandRun (α : Type) where
  first : α
  others : List (BinaryOperator × α)

-- Leaves are opaque: an operand in parentheses is a leaf even if it is itself an operation.
inductive OperatorTree (α : Type) where
  | leaf (operand : α)
  | node (left : OperatorTree α) (operator : BinaryOperator) (right : OperatorTree α)

-- A new operator joins on the right edge. Equal precedence goes above, which is association to the left.
def OperatorTree.graft (operator : BinaryOperator) (operand : α) :
    OperatorTree α → OperatorTree α
  | .leaf only => .node (.leaf only) operator (.leaf operand)
  | .node left root right =>
      if root.precedence < operator.precedence then .node left root (graft operator operand right)
      else .node (.node left root right) operator (.leaf operand)

namespace OperandRun

def single (operand : α) : OperandRun α := ⟨operand,[]⟩

def add (run : OperandRun α) (operator : BinaryOperator) (operand : α) : OperandRun α :=
  { run with others := run.others ++ [(operator,operand)] }

def tree (run : OperandRun α) : OperatorTree α :=
  run.others.foldl (fun grouped next => grouped.graft next.1 next.2) (.leaf run.first)

end OperandRun

end KaleidoscopeFrontEnd
