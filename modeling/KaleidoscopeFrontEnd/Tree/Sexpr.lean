import KaleidoscopeFrontEnd.Tree.Item

namespace KaleidoscopeFrontEnd

namespace Form

def spaced (parts : List String) : String := " ".intercalate parts

-- An integral number is shown without its fraction, a large one keeps its exponent.
def number (x : Binary64) : String :=
  let chars := x.chars
  if ['.','0'].isSuffixOf chars then String.ofList (chars.take (chars.length - 2)) else x.text

def binary (operator left right : String) : String :=
  "(" ++ operator ++ " " ++ left ++ " " ++ right ++ ")"

def call (callee : String) (arguments : List String) : String :=
  "(call " ++ spaced (callee :: arguments) ++ ")"

def header (name : String) (parameters : List String) : String :=
  name ++ " (" ++ spaced parameters ++ ")"

def external (header : String) : String := "(extern " ++ header ++ ")"

def definition (header body : String) : String := "(def " ++ header ++ " " ++ body ++ ")"

end Form

mutual

def Expr.sexpr : Expr → String
  | .number x _ => Form.number x
  | .reference name _ => name
  | .binary left operator right _ => Form.binary operator.symbol left.sexpr right.sexpr
  | .call callee arguments _ => Form.call callee (Expr.sexprs arguments)

def Expr.sexprs : List Expr → List String
  | [] => []
  | e :: later => e.sexpr :: Expr.sexprs later

end

def Prototype.sexpr (p : Prototype) : String := Form.header p.name p.parameters

def Item.sexpr (i : Item) : String :=
  match i.body with
  | none => Form.external i.prototype.sexpr
  | some body => Form.definition i.prototype.sexpr body.sexpr

end KaleidoscopeFrontEnd
