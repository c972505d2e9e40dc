import KaleidoscopeFrontEnd.Grammar.TopLevel

namespace KaleidoscopeFrontEnd.Program

-- Any number of terminators may stand around items. Two items need none between them where the first cannot go on.
structure State where
  items : List Item
  current : TopLevel.State

def State.between (items : List Item) : State := ⟨items,.start⟩

def begin (items : List Item) (t : Token) : Move State (List Item) :=
  if t.isTerminator then .shift (.between items)
  else Move.ofBegin ((TopLevel.begin t).map fun current => ⟨items,current⟩)

def step (s : State) (t : Token) : Move State (List Item) :=
  match s.current with
  | .start => begin s.items t
  | current =>
      (TopLevel.step current t).andThen (⟨s.items,·⟩) fun item => begin (s.items ++ [item]) t

def finish (s : State) : Except Expectation (List Item) :=
  match s.current with
  | .start => .ok s.items
  | current => (TopLevel.finish current).map fun item => s.items ++ [item]

def machine : Machine State (List Item) := ⟨step,finish⟩

def read (tokens : List Token) : Reply (List Item) := machine.run (.between []) tokens

def completed (tokens : List Token) : List Item :=
  match machine.halt (.between []) tokens with
  | (s,[]) =>
      match finish s with
      | .ok items => items
      | .error _ => s.items
  | (s,t :: _) =>
      match TopLevel.step s.current t with
      | .done item => s.items ++ [item]
      | _ => s.items

end KaleidoscopeFrontEnd.Program
