import KaleidoscopeFrontEnd.Grammar.Machine
import KaleidoscopeFrontEnd.Tree.Item

namespace KaleidoscopeFrontEnd.Header

inductive State where
  | name
  | opening (name : Token)
  | parameters (name : Token) (read : List String)
  | closed (prototype : Prototype)

def close (name closing : Token) (read : List String) : Prototype :=
  ⟨name.word,read,name.spanTo closing⟩

def step : State → Token → Move State Prototype
  | .name, t =>
      if t.kind = .identifier then .shift (.opening t) else .refuse (.unexpected .functionName)
  | .opening name, t =>
      if t.kind = .openParen then .shift (.parameters name [])
      else .refuse (.unexpected .parametersOpening)
  | .parameters name read, t =>
      match t.kind with
      | .identifier => .shift (.parameters name (read ++ [t.word]))
      | .closeParen => .shift (.closed (close name t read))
      | .comma => .refuse .commaInParameters
      | _ => .refuse (.unexpected .parameter)
  | .closed prototype, _ => .done prototype

def finish : State → Except Expectation Prototype
  | .name => .error .functionName
  | .opening _ => .error .parametersOpening
  | .parameters .. => .error .parameter
  | .closed prototype => .ok prototype

def machine : Machine State Prototype := ⟨step,finish⟩

def read (tokens : List Token) : Reply Prototype := machine.run .name tokens

end KaleidoscopeFrontEnd.Header
