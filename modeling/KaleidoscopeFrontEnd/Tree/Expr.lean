import KaleidoscopeFrontEnd.Tree.OperandRun

namespace KaleidoscopeFrontEnd

inductive Expr where
  | number (value : Binary64) (span : Option Span)
  | reference (name : String) (span : Option Span)
  | binary (left : Expr) (operator : BinaryOperator) (right : Expr) (span : Option Span)
  | call (callee : String) (arguments : List Expr) (span : Option Span)

namespace Expr

def span : Expr → Option Span
  | .number _ s => s
  | .reference _ s => s
  | .binary _ _ _ s => s
  | .call _ _ s => s

def arguments : Expr → List Expr
  | .call _ arguments _ => arguments
  | _ => []

-- Parentheses around an operand leave no trace, so they lie outside the span of the operation.
def ofTree : OperatorTree Expr → Expr
  | .leaf operand => operand
  | .node left operator right =>
      let l := ofTree left
      let r := ofTree right
      .binary l operator r (Span.join l.span r.span)

end Expr

def OperandRun.expr (run : OperandRun Expr) : Expr := .ofTree run.tree

end KaleidoscopeFrontEnd
