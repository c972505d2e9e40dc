import KaleidoscopeFrontEnd.Node.Sexpr

namespace KaleidoscopeFrontEnd.Node

mutual

def walk : Node → List Node
  | .number x s => [.number x s]
  | .reference name s => [.reference name s]
  | .header name parameters s => [.header name parameters s]
  | .foreign kind => [.foreign kind]
  | .absent => [.absent]
  | .binary left operator right s => .binary left operator right s :: (walk left ++ walk right)
  | .call callee arguments s => .call callee arguments s :: walkAll arguments
  | .item heading body s =>
      .item heading body s :: (walk heading ++ if body.isAbsent then [] else walk body)

def walkAll : List Node → List Node
  | [] => []
  | n :: later => walk n ++ walkAll later

end

def visitLine (handled : List String) (n : Node) : String :=
  (if handled.contains n.kind then "visit_" ++ n.kind else "generic_visit") ++ " " ++ n.kind

-- One line per node visited. A visit fails at the first gap, which accepts no visitor.
def visit (handled : List String) (n : Node) : Except NodeFault (List String) :=
  n.walk.mapM fun m =>
    if m.isAbsent then .error (.lacking m.kind "accept") else .ok (visitLine handled m)

end KaleidoscopeFrontEnd.Node
