import KaleidoscopeFrontEnd.Grammar.Program
import KaleidoscopeFrontEnd.Node.Basic

namespace KaleidoscopeFrontEnd

variable {α : Type}

def Refusal.fault (found : Token) : Refusal → SyntaxFault
  | .unexpected expected => .unexpected expected found
  | .notExpression => .notExpression found
  | .commaInParameters => .commaInParameters found

def Reply.result (stop : Token) : Reply α → Except SyntaxFault α
  | .accepted value _ => .ok value
  | .refused reason found _ => .error (reason.fault found)
  | .exhausted expected => .error (.incomplete expected stop)

inductive OperandFault where
  | reading (fault : SyntaxFault)
  | node (fault : NodeFault)
  deriving DecidableEq

-- `place` counts the tokens consumed. It only grows, also when a reading fails, and never passes an end token.
structure TokenStream where
  tokens : List Token
  place : Nat

namespace TokenStream

-- A list that does not end with an end token gets one, at the place of its last token.
def ofTokens (tokens : List Token) : TokenStream :=
  match tokens.getLast? with
  | none => ⟨[.endOfInput none],0⟩
  | some last =>
      if last.isEnd then ⟨tokens,0⟩ else ⟨tokens ++ [.endOfInput last.location],0⟩

def ahead (s : TokenStream) : List Token := s.tokens.drop s.place

def unread (s : TokenStream) : List Token := s.ahead.takeWhile fun t => !t.isEnd

def stop (s : TokenStream) : Token :=
  (s.ahead.find? Token.isEnd).getD (.endOfInput none)

def body (s : TokenStream) : List Token := s.tokens.take s.place ++ s.unread

def peek (s : TokenStream) : Token := s.unread.headD s.stop

def previous (s : TokenStream) : Token := (s.tokens[s.place - 1]?).getD s.stop

def isAtEnd (s : TokenStream) : Bool := s.peek.isEnd

def check (s : TokenStream) (kind : TokenKind) : Bool := decide (s.peek.kind = kind)

def operator? (s : TokenStream) : Option BinaryOperator := s.peek.binaryOperator?

def precedence (s : TokenStream) : Int :=
  match s.operator? with
  | some operator => operator.precedence
  | none => -1

def apply (s : TokenStream) (reading : List Token → Reply α) :
    Except SyntaxFault α × TokenStream :=
  let reply := reading s.unread
  (reply.result s.stop,{ s with place := s.body.length - reply.rest.length })

def takeToken : List Token → Reply Token
  | [] => .exhausted .moreInput
  | t :: later => .accepted t later

def advance (s : TokenStream) : Except SyntaxFault Token × TokenStream := s.apply takeToken

def expect (s : TokenStream) (kind : TokenKind) (expected : Expectation) :
    Except SyntaxFault Token × TokenStream :=
  s.apply (demand kind expected takeToken)

-- An operand without a place for a span cannot be joined, which shows at the first operation; nothing behind is read.
def operands (s : TokenStream) (least : Int) (left : Node) :
    Except OperandFault Node × TokenStream :=
  if left.hasSpan then
    let joined := s.apply fun tokens => (Operands.read least tokens).map left.join
    (joined.1.mapError .reading,joined.2)
  else
    let first := s.apply (Operands.readFirst least)
    let joined := (first.1.mapError OperandFault.reading).bind fun taken =>
      if taken.isEmpty then .ok left else .error (.node (.lacking left.kind "span"))
    (joined,first.2)

end TokenStream

end KaleidoscopeFrontEnd
