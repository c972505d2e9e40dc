import KaleidoscopeFrontEnd.Session

namespace KaleidoscopeFrontEnd

inductive Record where
  | verbose
  | token (t : Token)
  | lexed (count : Nat) (file : String)
  | parsed (item : Item)
  | rejected (source : String) (message : String)
  | unreadable (path : String) (reason : String)

namespace Record

def isFailure : Record → Bool
  | .unreadable .. => true
  | _ => false

def level (r : Record) : String := if r.isFailure then "ERROR" else "DEBUG"

def channel : Record → String
  | .token _ => "kaleidoscope.lexer.lexer"
  | .lexed .. => "kaleidoscope.lexer.lexer"
  | .parsed _ => "kaleidoscope.parser.parser"
  | _ => "kaleidoscope.repl"

def message : Record → String
  | .verbose => "Verbose mode enabled"
  | .token t => "token " ++ t.text ++ " at " ++ (t.location.map Location.text).getD "None"
  | .lexed count file => "Lexed " ++ toString count ++ " tokens from " ++ file
  | .parsed item =>
      "Parsed " ++ (if item.isExternal then "extern" else "function") ++ " '" ++ item.name ++ "'"
  | .rejected source message => "Rejected input " ++ quoted source ++ ": " ++ message
  | .unreadable path reason => "Cannot read " ++ path ++ ": " ++ reason

def text (r : Record) : String := r.level ++ " " ++ r.channel ++ " " ++ r.message

end Record

namespace Journal

-- The end token is made twice, once where the scanning finds the end and once for the list.
def ofLexing (file : String) (lexing : Lexing) : List Record :=
  lexing.tokens.map .token ++
    match lexing.ending with
    | .ok last => [.token last,.token last,.lexed (lexing.tokens.length + 1) file]
    | .error _ => []

def ofItems (tokens : List Token) : List Record := (Program.completed tokens).map .parsed

def ofText (file : String) (source : List Char) : List Record :=
  let lexing := Lexing.ofText file source
  ofLexing file lexing ++
    match lexing.ending with
    | .ok _ => ofItems lexing.tokens
    | .error _ => []

def ofEvaluation (source : List Char) : List Record :=
  ofText inputName source ++
    match Analysis.ofText inputName source with
    | .ok _ => []
    | .error fault => [.rejected (String.ofList source) fault.diagnostic.message]

-- Every statement is scanned once to see whether it is empty, and again to evaluate it.
def ofEmptinessTest (statement : List Char) : List Record :=
  ofLexing inputName (.ofText inputName statement)

def ofTranscript (t : Session.Transcript) : List Record :=
  (t.evaluated.flatMap fun statement => ofEmptinessTest statement ++ ofEvaluation statement) ++
    (t.last.map ofEmptinessTest).getD []

end Journal

end KaleidoscopeFrontEnd
