import KaleidoscopeFrontEnd.Tree.Item

namespace KaleidoscopeFrontEnd

-- Trees put together by hand: any node may stand anywhere, and there may be gaps. A node that has the fields of its
-- class goes by the name of that class, whoever made it. A foreign node has none, whatever its class is called.
inductive Node where
  | number (value : Binary64) (span : Option Span)
  | reference (name : String) (span : Option Span)
  | binary (left : Node) (operator : String) (right : Node) (span : Option Span)
  | call (callee : String) (arguments : List Node) (span : Option Span)
  | header (name : String) (parameters : List String) (span : Option Span)
  | item (heading body : Node) (span : Option Span)
  | foreign (kind : String)
  | absent

inductive NodeFault where
  | unprintable (kind : String)
  | lacking (kind : String) (part : String)
  deriving DecidableEq

def NodeFault.message : NodeFault → String
  | .unprintable kind => "Cannot print " ++ kind
  | .lacking kind part => "'" ++ kind ++ "' object has no attribute '" ++ part ++ "'"

namespace Node

def kind : Node → String
  | .number .. => "Number"
  | .reference .. => "Variable"
  | .binary .. => "BinaryOp"
  | .call .. => "Call"
  | .header .. => "Prototype"
  | .item .. => "FunctionDef"
  | .foreign kind => kind
  | .absent => "NoneType"

def span : Node → Option Span
  | .number _ s => s
  | .reference _ s => s
  | .binary _ _ _ s => s
  | .call _ _ s => s
  | .header _ _ s => s
  | .item _ _ s => s
  | .foreign _ => none
  | .absent => none

def hasSpan : Node → Bool
  | .foreign _ => false
  | .absent => false
  | _ => true

def isAbsent : Node → Bool
  | .absent => true
  | _ => false

-- Children in reading order. A body that is absent is no child, any other gap is one.
def children : Node → List Node
  | .binary left _ right _ => [left,right]
  | .call _ arguments _ => arguments
  | .item heading body _ => if body.isAbsent then [heading] else [heading,body]
  | _ => []

def isExternal : Node → Bool
  | .item _ body _ => body.isAbsent
  | _ => false

mutual

-- Spans do not count, a NaN equals nothing, a node of unknown kind equals no other and a gap equals a gap.
def same : Node → Node → Bool
  | .number x _, .number y _ => x == y
  | .reference a _, .reference b _ => a == b
  | .binary l o r _, .binary l' o' r' _ => same l l' && o == o' && same r r'
  | .call a xs _, .call b ys _ => a == b && sameAll xs ys
  | .header a xs _, .header b ys _ => a == b && xs == ys
  | .item h b _, .item h' b' _ => same h h' && same b b'
  | .absent, .absent => true
  | _, _ => false

def sameAll : List Node → List Node → Bool
  | [], [] => true
  | x :: xs, y :: ys => same x y && sameAll xs ys
  | _, _ => false

end

def ofTree : OperatorTree Node → Node
  | .leaf operand => operand
  | .node left operator right =>
      let l := ofTree left
      let r := ofTree right
      .binary l operator.symbol r (Span.join l.span r.span)

end Node

mutual

def Expr.toNode : Expr → Node
  | .number x s => .number x s
  | .reference name s => .reference name s
  | .binary left operator right s => .binary left.toNode operator.symbol right.toNode s
  | .call callee arguments s => .call callee (Expr.toNodes arguments) s

def Expr.toNodes : List Expr → List Node
  | [] => []
  | e :: later => e.toNode :: Expr.toNodes later

end

def Prototype.toNode (p : Prototype) : Node := .header p.name p.parameters p.span

def Item.toNode (i : Item) : Node :=
  .item i.prototype.toNode ((i.body.map Expr.toNode).getD .absent) i.span

def Node.join (left : Node) (others : List (BinaryOperator × Expr)) : Node :=
  .ofTree (OperandRun.tree ⟨left,others.map fun next => (next.1,next.2.toNode)⟩)

end KaleidoscopeFrontEnd
