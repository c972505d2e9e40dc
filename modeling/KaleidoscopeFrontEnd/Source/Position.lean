import KaleidoscopeFrontEnd.Source.Location

namespace KaleidoscopeFrontEnd

structure Position where
  line : Nat
  column : Nat
  offset : Nat
  deriving DecidableEq

def Position.origin : Position := ⟨1,1,0⟩

-- Only the line feed starts a new line; every other character takes one column.
def Position.after (p : Position) (c : Char) : Position :=
  if c = '\n' then ⟨p.line + 1,1,p.offset + 1⟩ else ⟨p.line,p.column + 1,p.offset + 1⟩

def Position.past (p : Position) (text : List Char) : Position := text.foldl Position.after p

def Position.inFile (p : Position) (file : String) : Location :=
  ⟨file,p.line,p.column,p.offset⟩

end KaleidoscopeFrontEnd
