import KaleidoscopeFrontEnd.Text.Quoted

namespace KaleidoscopeFrontEnd

-- Integers, because a location may also be supplied from outside, where nothing bounds its numbers.
structure Location where
  file : String
  line : Int
  column : Int
  offset : Int
  deriving DecidableEq

def Location.text (l : Location) : String :=
  l.file ++ ":" ++ toString l.line ++ ":" ++ toString l.column

def Location.display (l : Location) : String :=
  "SourceLocation(" ++ quoted l.file ++ ", " ++ toString l.line ++ ", " ++ toString l.column ++
    ", " ++ toString l.offset ++ ")"

-- A span names its first and its last token by where they start.
structure Span where
  first : Location
  last : Location
  deriving DecidableEq

def Span.text (s : Span) : String :=
  if s.first.file = s.last.file then
    s.first.text ++ "-" ++ toString s.last.line ++ ":" ++ toString s.last.column
  else s.first.text ++ "-" ++ s.last.text

def Span.display (s : Span) : String :=
  "SourceSpan(start=" ++ s.first.display ++ ", end=" ++ s.last.display ++ ")"

def Span.between : Option Location → Option Location → Option Span
  | some first, some last => some ⟨first,last⟩
  | _, _ => none

def Span.join : Option Span → Option Span → Option Span
  | some earlier, some later => some ⟨earlier.first,later.last⟩
  | _, _ => none

end KaleidoscopeFrontEnd
