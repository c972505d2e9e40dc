import KaleidoscopeFrontEnd.Node.Basic
import KaleidoscopeFrontEnd.Tree.Sexpr

namespace KaleidoscopeFrontEnd

namespace Node

-- A method is chosen by the name of the class alone, and each of them begins by asking for a field. A kind that has no
-- method is refused.
def bareFault : String → NodeFault
  | "Number" => .lacking "Number" "value"
  | "Variable" => .lacking "Variable" "name"
  | "BinaryOp" => .lacking "BinaryOp" "operator"
  | "Call" => .lacking "Call" "callee"
  | "Prototype" => .lacking "Prototype" "name"
  | "FunctionDef" => .lacking "FunctionDef" "is_extern"
  | kind => .unprintable kind

mutual

def sexpr : Node → Except NodeFault String
  | .number x _ => .ok (Form.number x)
  | .reference name _ => .ok name
  | .binary left operator right _ => do
      let l ← sexpr left
      let r ← sexpr right
      return Form.binary operator l r
  | .call callee arguments _ => do return Form.call callee (← sexprs arguments)
  | .header name parameters _ => .ok (Form.header name parameters)
  | .item heading body _ => do
      let h ← sexpr heading
      if body.isAbsent then return Form.external h else return Form.definition h (← sexpr body)
  | .foreign kind => .error (bareFault kind)
  | .absent => .error (bareFault (kind .absent))

def sexprs : List Node → Except NodeFault (List String)
  | [] => .ok []
  | n :: later => do
      let s ← sexpr n
      return s :: (← sexprs later)

end

def listed (parts : List String) : String := "[" ++ ", ".intercalate parts ++ "]"

mutual

def display : Node → String
  | .number x _ => "Number(value=" ++ x.text ++ ")"
  | .reference name _ => "Variable(name=" ++ quoted name ++ ")"
  | .binary left operator right _ =>
      "BinaryOp(left=" ++ display left ++ ", operator=" ++ quoted operator ++ ", right=" ++
        display right ++ ")"
  | .call callee arguments _ =>
      "Call(callee=" ++ quoted callee ++ ", args=" ++ listed (displays arguments) ++ ")"
  | .header name parameters _ =>
      "Prototype(name=" ++ quoted name ++ ", params=" ++ listed (parameters.map quoted) ++ ")"
  | .item heading body _ =>
      "FunctionDef(proto=" ++ display heading ++ ", body=" ++ display body ++ ")"
  | .foreign kind => kind ++ "()"
  | .absent => "None"

def displays : List Node → List String
  | [] => []
  | n :: later => display n :: displays later

end

def name : Node → Except NodeFault String
  | .reference name _ => .ok name
  | .header name _ _ => .ok name
  | .item heading _ _ => name heading
  | other => .error (.lacking other.kind "name")

end Node

end KaleidoscopeFrontEnd
