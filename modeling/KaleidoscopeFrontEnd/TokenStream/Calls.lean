import KaleidoscopeFrontEnd.TokenStream

namespace KaleidoscopeFrontEnd.TokenStream

variable {α : Type}

inductive Call where
  | item
  | definition
  | external
  | bareExpression
  | program
  | header
  | expression
  | primary
  | number
  | group
  | name
  | arguments
  | operands (least : Int) (left : Node)
  | precedence
  | peek
  | previous
  | isAtEnd
  | check (kind : TokenKind)
  | advance
  | expect (kind : TokenKind) (expected : Expectation)

inductive Value where
  | item (i : Item)
  | items (all : List Item)
  | header (p : Prototype)
  | expr (e : Expr)
  | exprs (all : List Expr)
  | node (n : Node)
  | token (t : Token)
  | number (n : Int)
  | truth (b : Bool)

abbrev Answer := Except OperandFault Value

def answered (value : α → Value) (asked : Except SyntaxFault α × TokenStream) : Answer × TokenStream :=
  ((asked.1.map value).mapError .reading,asked.2)

def call (s : TokenStream) : Call → Answer × TokenStream
  | .item => answered .item (s.apply TopLevel.read)
  | .definition => answered .item (s.apply TopLevel.readDefinition)
  | .external => answered .item (s.apply TopLevel.readExternal)
  | .bareExpression => answered .item (s.apply TopLevel.readExpression)
  | .program => answered .items (s.apply Program.read)
  | .header => answered .header (s.apply Header.read)
  | .expression => answered .expr (s.apply Expression.read)
  | .primary => answered .expr (s.apply Primary.read)
  | .number => answered .expr (s.apply Primary.readNumber)
  | .group => answered .expr (s.apply Primary.readGroup)
  | .name => answered .expr (s.apply Primary.readName)
  | .arguments => answered .exprs (s.apply Primary.readArguments)
  | .operands least left =>
      let joined := s.operands least left
      (joined.1.map .node,joined.2)
  | .precedence => (.ok (.number s.precedence),s)
  | .peek => (.ok (.token s.peek),s)
  | .previous => (.ok (.token s.previous),s)
  | .isAtEnd => (.ok (.truth s.isAtEnd),s)
  | .check kind => (.ok (.truth (s.check kind)),s)
  | .advance => answered .token s.advance
  | .expect kind expected => answered .token (s.expect kind expected)

-- Calls one after another, whether those before them succeeded or not.
def calls (s : TokenStream) : List Call → List Answer × TokenStream
  | [] => ([],s)
  | call :: later =>
      let first := s.call call
      let rest := first.2.calls later
      (first.1 :: rest.1,rest.2)

end KaleidoscopeFrontEnd.TokenStream
