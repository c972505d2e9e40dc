import KaleidoscopeFrontEnd.Fault

namespace KaleidoscopeFrontEnd

variable {σ α β γ : Type}

inductive Refusal where
  | unexpected (expected : Expectation)
  | notExpression
  | commaInParameters
  deriving DecidableEq

-- A token is consumed, or shows that the reading was complete in front of it, or fits nowhere.
inductive Move (σ α : Type) where
  | shift (next : σ)
  | done (value : α)
  | refuse (reason : Refusal)

namespace Move

def map (next : σ → β) : Move σ α → Move β α
  | .shift s => .shift (next s)
  | .done value => .done value
  | .refuse reason => .refuse reason

def andThen (shifted : σ → β) (after : α → Move β γ) : Move σ α → Move β γ
  | .shift s => .shift (shifted s)
  | .done value => after value
  | .refuse reason => .refuse reason

def ofBegin : Except Refusal σ → Move σ α
  | .ok next => .shift next
  | .error reason => .refuse reason

end Move

structure Machine (σ α : Type) where
  step : σ → Token → Move σ α
  finish : σ → Except Expectation α

-- `rest` is unread in every case. An exhausted reading has read all there was.
inductive Reply (α : Type) where
  | accepted (value : α) (rest : List Token)
  | refused (reason : Refusal) (found : Token) (later : List Token)
  | exhausted (expected : Expectation)

namespace Reply

def map (f : α → β) : Reply α → Reply β
  | .accepted value rest => .accepted (f value) rest
  | .refused reason found later => .refused reason found later
  | .exhausted expected => .exhausted expected

def rest : Reply α → List Token
  | .accepted _ rest => rest
  | .refused _ found later => found :: later
  | .exhausted _ => []

end Reply

namespace Machine

def halt (m : Machine σ α) : σ → List Token → σ × List Token
  | s, [] => (s,[])
  | s, t :: later =>
      match m.step s t with
      | .shift next => m.halt next later
      | _ => (s,t :: later)

def run (m : Machine σ α) : σ → List Token → Reply α
  | s, [] =>
      match m.finish s with
      | .ok value => .accepted value []
      | .error expected => .exhausted expected
  | s, t :: later =>
      match m.step s t with
      | .shift next => m.run next later
      | .done value => .accepted value (t :: later)
      | .refuse reason => .refused reason t later

end Machine

-- The end of input can be demanded, and then it is found, but like every reading this one must consume a token.
def demand (kind : TokenKind) (expected : Expectation) (reading : List Token → Reply α) :
    List Token → Reply α
  | [] => .exhausted (if kind = .endOfInput then .moreInput else expected)
  | t :: later =>
      if t.kind = kind then reading (t :: later) else .refused (.unexpected expected) t later

end KaleidoscopeFrontEnd
