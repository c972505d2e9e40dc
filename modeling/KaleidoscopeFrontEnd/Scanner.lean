import KaleidoscopeFrontEnd.Lexing

namespace KaleidoscopeFrontEnd

-- A source that is read call by call. The whole of it is kept because tokenizing starts over.
structure Scanner where
  source : List Char
  cursor : Cursor

namespace Scanner

inductive Call where
  | pull
  | iterate
  | peek
  | skipBlanks
  deriving DecidableEq

inductive Answer where
  | event (e : LexicalEvent)
  | finished
  | character (c : Option Char)
  | count (n : Nat)

def start (file : String) (source : List Char) : Scanner := ⟨source,.start file source⟩

def iterated : LexicalEvent → Answer
  | .ok t => if t.isEnd then .finished else .event (.ok t)
  | .error fault => .event (.error fault)

def call (s : Scanner) : Call → Answer × Scanner
  | .pull =>
      let pulled := s.cursor.next
      (.event pulled.1,{ s with cursor := pulled.2 })
  | .iterate =>
      let pulled := s.cursor.next
      (iterated pulled.1,{ s with cursor := pulled.2 })
  | .peek => (.character s.cursor.peek,s)
  | .skipBlanks =>
      let skipped := s.cursor.skipBlanks
      (.count skipped.1,{ s with cursor := skipped.2 })

def calls (s : Scanner) : List Call → List Answer × Scanner
  | [] => ([],s)
  | call :: later =>
      let first := s.call call
      let rest := first.2.calls later
      (first.1 :: rest.1,rest.2)

def tokenize (s : Scanner) : Except LexicalFault (List Token) × Scanner :=
  let lexing := Lexing.ofText s.cursor.file s.source
  (lexing.complete,{ s with cursor := lexing.cursor })

end Scanner

end KaleidoscopeFrontEnd
