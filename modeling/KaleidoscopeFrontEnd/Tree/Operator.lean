import KaleidoscopeFrontEnd.Token

namespace KaleidoscopeFrontEnd

inductive BinaryOperator where
  | less
  | plus
  | minus
  | times
  deriving DecidableEq

namespace BinaryOperator

def all : List BinaryOperator := [.less,.plus,.minus,.times]

def symbol : BinaryOperator → String
  | .less => "<"
  | .plus => "+"
  | .minus => "-"
  | .times => "*"

def precedence : BinaryOperator → Nat
  | .less => 10
  | .plus => 20
  | .minus => 20
  | .times => 40

def ofSymbol? (symbol : String) : Option BinaryOperator :=
  all.find? fun o => o.symbol == symbol

end BinaryOperator

-- Only the value decides, whatever the lexeme.
def Token.binaryOperator? (t : Token) : Option BinaryOperator :=
  match t.kind, t.value with
  | .operator, some (.text symbol) => BinaryOperator.ofSymbol? symbol
  | _, _ => none

end KaleidoscopeFrontEnd
