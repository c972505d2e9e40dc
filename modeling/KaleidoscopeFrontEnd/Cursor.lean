import KaleidoscopeFrontEnd.Fault
import KaleidoscopeFrontEnd.Lexeme
import KaleidoscopeFrontEnd.Source.Position

namespace KaleidoscopeFrontEnd

abbrev LexicalEvent := Except LexicalFault Token

-- A reading place in one source: everything before it is settled, `rest` is unread.
structure Cursor where
  file : String
  position : Position
  rest : List Char
  deriving DecidableEq

namespace Cursor

def start (file : String) (source : List Char) : Cursor := ⟨file,.origin,source⟩

def location (c : Cursor) : Location := c.position.inFile c.file

def past (c : Cursor) (consumed rest : List Char) : Cursor :=
  { c with position := c.position.past consumed, rest := rest }

def peek (c : Cursor) : Option Char := c.rest.head?

def skipBlanks (c : Cursor) : Nat × Cursor :=
  let blanks := c.rest.takeWhile isBlank
  (blanks.length,c.past blanks (c.rest.dropWhile isBlank))

def skipLayout (c : Cursor) : Cursor :=
  let parts := splitLayout false c.rest
  c.past parts.1 parts.2

def endToken (c : Cursor) : Token := .endOfInput (some c.location)

def lexemeAt (c : Cursor) (first : Char) (later : List Char) : LexicalEvent × Cursor :=
  let lexeme := first :: later.takeWhile (prolongs first)
  let event := match classify first lexeme with
    | some (kind,value) => .ok ⟨kind,String.ofList lexeme,value,some c.location⟩
    | none => .error ⟨String.ofList lexeme,some c.location⟩
  (event,c.past lexeme (later.dropWhile (prolongs first)))

-- One pull. At the end of the source it delivers the end token, however often it is repeated.
def next (c : Cursor) : LexicalEvent × Cursor :=
  let there := c.skipLayout
  match there.rest with
  | [] => (.ok there.endToken,there)
  | first :: later => there.lexemeAt first later

theorem lexeme_at_shorter (c : Cursor) (first : Char) (later : List Char)
    (found : c.skipLayout.rest = first :: later) :
    (c.skipLayout.lexemeAt first later).2.rest.length < c.rest.length := by
  have kept : c.skipLayout.rest.length ≤ c.rest.length := split_layout_length false c.rest
  rw [found] at kept
  exact Nat.lt_of_le_of_lt (List.dropWhile_suffix _).length_le kept

def pulls (c : Cursor) : List (LexicalEvent × Cursor) :=
  let there := c.skipLayout
  match _ : there.rest with
  | [] => [(.ok there.endToken,there)]
  | first :: later =>
      there.lexemeAt first later :: pulls (there.lexemeAt first later).2
termination_by c.rest.length
decreasing_by exact lexeme_at_shorter c first later (by assumption)

def events (c : Cursor) : List LexicalEvent := c.pulls.map Prod.fst

end Cursor

end KaleidoscopeFrontEnd
