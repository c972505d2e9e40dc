import KaleidoscopeFrontEnd.Cursor

namespace KaleidoscopeFrontEnd

-- A run of pulls stops at its first fault: tokens, the end token or the fault, and where the cursor was left.
structure Lexing where
  tokens : List Token
  ending : Except LexicalFault Token
  cursor : Cursor

namespace Lexing

def ofPulls (stop : Cursor) : List (LexicalEvent × Cursor) → Lexing
  | [] => ⟨[],.ok stop.endToken,stop⟩
  | (.error fault,cursor) :: _ => ⟨[],.error fault,cursor⟩
  | (.ok token,cursor) :: later =>
      if token.isEnd then ⟨[],.ok token,cursor⟩
      else
        let rest := ofPulls cursor later
        { rest with tokens := token :: rest.tokens }

def ofCursor (c : Cursor) : Lexing := ofPulls c c.pulls

def ofText (file : String) (source : List Char) : Lexing := .ofCursor (.start file source)

def complete (l : Lexing) : Except LexicalFault (List Token) :=
  l.ending.map fun last => l.tokens ++ [last]

end Lexing

end KaleidoscopeFrontEnd
