import KaleidoscopeFrontEnd.Grammar.Expression
import KaleidoscopeFrontEnd.Grammar.Header

namespace KaleidoscopeFrontEnd.TopLevel

-- The span of an item ends at the last token consumed, which may be a parenthesis that no node remembers.
inductive State where
  | start
  | definition (keyword : Token) (header : Header.State) (last : Token)
  | external (keyword : Token) (header : Header.State) (last : Token)
  | body (keyword : Token) (prototype : Prototype) (e : Expression.State) (last : Token)
  | expression (first : Token) (e : Expression.State) (last : Token)

def beginExpression (t : Token) : Except Refusal State :=
  (Expression.begin t).map fun e => .expression t e t

def begin (t : Token) : Except Refusal State :=
  match t.kind with
  | .definition => .ok (.definition t .name t)
  | .external => .ok (.external t .name t)
  | _ => beginExpression t

def external (keyword last : Token) (prototype : Prototype) : Item :=
  ⟨prototype,none,keyword.spanTo last⟩

def definition (keyword last : Token) (prototype : Prototype) (body : Expr) : Item :=
  ⟨prototype,some body,keyword.spanTo last⟩

def step : State → Token → Move State Item
  | .start, t => Move.ofBegin (begin t)
  | .definition keyword header _, t =>
      (Header.step header t).andThen (.definition keyword · t) fun prototype =>
        Move.ofBegin ((Expression.begin t).map fun e => .body keyword prototype e t)
  | .external keyword header last, t =>
      (Header.step header t).andThen (.external keyword · t) fun prototype =>
        .done (external keyword last prototype)
  | .body keyword prototype e last, t =>
      (Expression.step e t).andThen (.body keyword prototype · t) fun body =>
        .done (definition keyword last prototype body)
  | .expression first e last, t =>
      (Expression.step e t).andThen (.expression first · t) fun body =>
        .done (.ofExpr body (first.spanTo last))

def finish : State → Except Expectation Item
  | .start => .error .item
  | .definition _ header _ => (Header.finish header).bind fun _ => .error .expression
  | .external keyword header last => (Header.finish header).map (external keyword last)
  | .body keyword prototype e last =>
      (Expression.finish e).map (definition keyword last prototype)
  | .expression first e last =>
      (Expression.finish e).map fun body => .ofExpr body (first.spanTo last)

def machine : Machine State Item := ⟨step,finish⟩

def read (tokens : List Token) : Reply Item := machine.run .start tokens

def readDefinition : List Token → Reply Item := demand .definition .definitionKeyword read

def readExternal : List Token → Reply Item := demand .external .externalKeyword read

def readExpression : List Token → Reply Item
  | [] => .exhausted .expression
  | t :: later =>
      match beginExpression t with
      | .ok s => machine.run s later
      | .error reason => .refused reason t later

end KaleidoscopeFrontEnd.TopLevel
