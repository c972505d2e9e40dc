import KaleidoscopeFrontEnd.Grammar.Machine
import KaleidoscopeFrontEnd.Tree.Item

namespace KaleidoscopeFrontEnd.Primary

inductive Bracket where
  | group
  | arguments (name : Token) (read : List Expr)

structure Level where
  bracket : Bracket
  before : Option (OperandRun Expr × BinaryOperator)

def Level.ofBracket (bracket : Bracket) : Level := ⟨bracket,none⟩

def Level.run (level : Level) (operand : Expr) : OperandRun Expr :=
  match level.before with
  | none => .single operand
  | some (run,operator) => run.add operator operand

inductive Focus where
  | operand
  | arguments (name : Token)
  | name (name : Token)
  | value (e : Expr)

-- The open brackets, innermost first, and the focus inside them.
structure State where
  focus : Focus
  levels : List Level

def State.start : State := ⟨.operand,[]⟩

def numberOf (t : Token) : Expr := .number t.amount (t.spanTo t)

def referenceTo (t : Token) : Expr := .reference t.word (t.spanTo t)

def callOf (name closing : Token) (arguments : List Expr) : Expr :=
  .call name.word arguments (name.spanTo closing)

def begin (levels : List Level) (t : Token) : Except Refusal State :=
  match t.kind with
  | .number => .ok ⟨.value (numberOf t),levels⟩
  | .openParen => .ok ⟨.operand,.ofBracket .group :: levels⟩
  | .identifier => .ok ⟨.name t,levels⟩
  | _ => .error .notExpression

def close (e : Expr) (level : Level) (outer : List Level) (t : Token) : Move State Expr :=
  let run := level.run e
  match t.binaryOperator? with
  | some operator => .shift ⟨.operand,{ level with before := some (run,operator) } :: outer⟩
  | none =>
      match level.bracket, t.kind with
      | .group, .closeParen => .shift ⟨.value run.expr,outer⟩
      | .group, _ => .refuse (.unexpected .groupClosing)
      | .arguments name read, .comma =>
          .shift ⟨.operand,.ofBracket (.arguments name (read ++ [run.expr])) :: outer⟩
      | .arguments name read, .closeParen =>
          .shift ⟨.value (callOf name t (read ++ [run.expr])),outer⟩
      | .arguments .., _ => .refuse (.unexpected .argumentsContinuation)

def after (e : Expr) (levels : List Level) (t : Token) : Move State Expr :=
  match levels with
  | [] => .done e
  | level :: outer => close e level outer t

-- A name is a call exactly when a parenthesis follows it directly.
def step (s : State) (t : Token) : Move State Expr :=
  match s.focus with
  | .operand => Move.ofBegin (begin s.levels t)
  | .arguments name =>
      if t.kind = .closeParen then .shift ⟨.value (callOf name t []),s.levels⟩
      else Move.ofBegin (begin (.ofBracket (.arguments name []) :: s.levels) t)
  | .name name =>
      if t.kind = .openParen then .shift ⟨.arguments name,s.levels⟩
      else after (referenceTo name) s.levels t
  | .value e => after e s.levels t

def finishInside (e : Expr) : List Level → Except Expectation Expr
  | [] => .ok e
  | level :: _ =>
      match level.bracket with
      | .group => .error .groupClosing
      | .arguments .. => .error .argumentsContinuation

def finish (s : State) : Except Expectation Expr :=
  match s.focus with
  | .operand => .error .expression
  | .arguments _ => .error .expression
  | .name name => finishInside (referenceTo name) s.levels
  | .value e => finishInside e s.levels

def machine : Machine State Expr := ⟨step,finish⟩

def read (tokens : List Token) : Reply Expr := machine.run .start tokens

def readNumber : List Token → Reply Expr := demand .number .number read

def readGroup : List Token → Reply Expr := demand .openParen .openParen read

def readName : List Token → Reply Expr := demand .identifier .identifier read

def readArguments : List Token → Reply (List Expr) :=
  demand .openParen .argumentsOpening fun tokens =>
    (machine.run ⟨.name (.endOfInput none),[]⟩ tokens).map Expr.arguments

end KaleidoscopeFrontEnd.Primary
