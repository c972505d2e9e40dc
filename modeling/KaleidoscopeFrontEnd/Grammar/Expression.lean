import KaleidoscopeFrontEnd.Grammar.Primary

namespace KaleidoscopeFrontEnd

namespace Operands

inductive State where
  | between (read : List (BinaryOperator × Expr))
  | operand (read : List (BinaryOperator × Expr)) (operator : BinaryOperator) (p : Primary.State)

def between (least : Int) (read : List (BinaryOperator × Expr)) (t : Token) :
    Move State (List (BinaryOperator × Expr)) :=
  match t.binaryOperator? with
  | some operator =>
      if least ≤ operator.precedence then .shift (.operand read operator .start) else .done read
  | none => .done read

def step (least : Int) : State → Token → Move State (List (BinaryOperator × Expr))
  | .between read, t => between least read t
  | .operand read operator p, t =>
      (Primary.step p t).andThen (.operand read operator) fun e =>
        between least (read ++ [(operator,e)]) t

def finish : State → Except Expectation (List (BinaryOperator × Expr))
  | .between read => .ok read
  | .operand read operator p => (Primary.finish p).map fun e => read ++ [(operator,e)]

def machine (least : Int) : Machine State (List (BinaryOperator × Expr)) := ⟨step least,finish⟩

def read (least : Int) (tokens : List Token) : Reply (List (BinaryOperator × Expr)) :=
  (machine least).run (.between []) tokens

-- The first operator alone, with its operand and every operator behind that which binds more tightly.
def readFirst (least : Int) : List Token → Reply (List (BinaryOperator × Expr))
  | [] => .accepted [] []
  | t :: later =>
      match t.binaryOperator? with
      | some operator =>
          if least ≤ operator.precedence then
            (machine (operator.precedence + 1)).run (.operand [] operator .start) later
          else .accepted [] (t :: later)
      | none => .accepted [] (t :: later)

end Operands

namespace Expression

inductive State where
  | first (p : Primary.State)
  | operands (first : Expr) (o : Operands.State)

def start : State := .first .start

def begin (t : Token) : Except Refusal State := (Primary.begin [] t).map .first

def join (first : Expr) (others : List (BinaryOperator × Expr)) : Expr :=
  OperandRun.expr ⟨first,others⟩

-- Every binary operator takes part: precedence groups the operands but never ends the run.
def behind (first : Expr) (m : Move Operands.State (List (BinaryOperator × Expr))) :
    Move State Expr :=
  m.andThen (.operands first) fun others => .done (join first others)

def step : State → Token → Move State Expr
  | .first p, t =>
      (Primary.step p t).andThen .first fun e => behind e (Operands.between 0 [] t)
  | .operands first o, t => behind first (Operands.step 0 o t)

def finish : State → Except Expectation Expr
  | .first p => Primary.finish p
  | .operands first o => (Operands.finish o).map (join first)

def machine : Machine State Expr := ⟨step,finish⟩

def read (tokens : List Token) : Reply Expr := machine.run start tokens

end Expression

end KaleidoscopeFrontEnd
