import KaleidoscopeFrontEnd.Binary64.Written
import KaleidoscopeFrontEnd.Source.Location

namespace KaleidoscopeFrontEnd

inductive TokenKind where
  | endOfInput
  | definition
  | external
  | identifier
  | number
  | openParen
  | closeParen
  | comma
  | operator
  deriving DecidableEq

namespace TokenKind

def name : TokenKind → String
  | .endOfInput => "EOF"
  | .definition => "DEF"
  | .external => "EXTERN"
  | .identifier => "IDENTIFIER"
  | .number => "NUMBER"
  | .openParen => "LEFT_PAREN"
  | .closeParen => "RIGHT_PAREN"
  | .comma => "COMMA"
  | .operator => "OPERATOR"

def description : TokenKind → String
  | .endOfInput => "end of input"
  | .definition => "'def'"
  | .external => "'extern'"
  | .identifier => "identifier"
  | .number => "number"
  | .openParen => "'('"
  | .closeParen => "')'"
  | .comma => "','"
  | .operator => "operator"

def showsLexeme : TokenKind → Bool
  | .identifier => true
  | .number => true
  | .operator => true
  | _ => false

end TokenKind

inductive TokenValue where
  | text (s : String)
  | number (x : Binary64)
  deriving DecidableEq

namespace TokenValue

def same : TokenValue → TokenValue → Bool
  | .text s, .text t => decide (s = t)
  | .number x, .number y => x == y
  | _, _ => false

instance : BEq TokenValue := ⟨same⟩

def display : TokenValue → String
  | .text s => quoted s
  | .number x => x.text

end TokenValue

-- The value is what the lexeme means. A hand-made token may combine the two freely.
structure Token where
  kind : TokenKind
  lexeme : String
  value : Option TokenValue
  location : Option Location
  deriving DecidableEq

namespace Token

-- Where a token came from takes no part in equality.
def same (t u : Token) : Bool := decide (t.kind = u.kind) && t.value == u.value

instance : BEq Token := ⟨same⟩

def endOfInput (location : Option Location) : Token := ⟨.endOfInput,"",none,location⟩

def spanTo (first last : Token) : Option Span := Span.between first.location last.location

def isEnd (t : Token) : Bool := decide (t.kind = .endOfInput)

def word (t : Token) : String :=
  match t.value with
  | some (.text s) => s
  | _ => ""

def amount (t : Token) : Binary64 :=
  match t.value with
  | some (.number x) => x
  | _ => .zero

def isOperator (t : Token) (symbol : String) : Bool :=
  decide (t.kind = .operator) && t.value == some (.text symbol)

def terminator : String := ";"

def isTerminator (t : Token) : Bool := t.isOperator terminator

def text (t : Token) : String :=
  match t.value with
  | none => t.kind.name
  | some value =>
      if value == .text t.lexeme then t.kind.name ++ "(" ++ quoted t.lexeme ++ ")"
      else t.kind.name ++ "(" ++ quoted t.lexeme ++ " -> " ++ value.display ++ ")"

def display (t : Token) : String :=
  "Token(" ++ t.kind.name ++ ", " ++ quoted t.lexeme ++ ", " ++
    (t.value.map TokenValue.display).getD "None" ++ ")"

def describe (t : Token) : String :=
  if t.kind.showsLexeme then t.kind.description ++ " '" ++ t.lexeme ++ "'" else t.kind.description

end Token

end KaleidoscopeFrontEnd
