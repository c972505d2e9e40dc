import KaleidoscopeFrontEnd.Lexing
import KaleidoscopeFrontEnd.Tree.Sexpr
import KaleidoscopeFrontEnd.TokenStream

namespace KaleidoscopeFrontEnd

structure Analysis where
  tokens : List Token
  items : List Item

def Analysis.ofText (file : String) (source : List Char) : Except Fault Analysis := do
  let tokens ← (Lexing.ofText file source).complete.mapError .lexical
  let items ← ((TokenStream.ofTokens tokens).apply Program.read).1.mapError .syntactic
  return ⟨tokens,items⟩

-- A statement ends with the first line that contains the terminator character, wherever in the line it stands.
def splitStatement : Bool → List Char → List Char × List Char
  | _, [] => ([],[])
  | seen, c :: later =>
      if c == '\n' && seen then ([c],later)
      else
        let rest := splitStatement (seen || c == ';') later
        (c :: rest.1,rest.2)

theorem split_statement_length (seen : Bool) (text : List Char) :
    (splitStatement seen text).2.length ≤ text.length - 1 := by
  induction text generalizing seen with
  | nil => simp [splitStatement]
  | cons c later ih =>
      unfold splitStatement
      split
      · simp
      · exact Nat.le_trans (ih _) (Nat.sub_le _ _)

def statements : List Char → List (List Char)
  | [] => []
  | c :: later =>
      let parts := splitStatement false (c :: later)
      parts.1 :: statements parts.2
termination_by text => text.length
decreasing_by
  have shorter := split_statement_length false (c :: later)
  exact Nat.lt_succ_of_le shorter

def inputName : String := "<stdin>"

structure Session where
  prompt : String
  showTokens : Bool

namespace Session

def defaultPrompt : String := "ready> "

def tokenLine (tokens : List Token) : String :=
  "Lexed: [" ++ ", ".intercalate (tokens.dropLast.map Token.text) ++ "]"

def itemLine (i : Item) : String := "Parsed: " ++ i.sexpr

-- A text that has any fault yields no line at all, also if items in front of it are sound.
def render (s : Session) (file : String) (source : List Char) : Except Fault (List String) := do
  let analysis ← Analysis.ofText file source
  return (if s.showTokens then [tokenLine analysis.tokens] else []) ++ analysis.items.map itemLine

def faultLine (d : Diagnostic) : String :=
  match d.location with
  | some l => "Error: " ++ d.message ++ " (at " ++ l.text ++ ")"
  | none => "Error: " ++ d.message

def evaluate (s : Session) (source : List Char) : String :=
  match s.render inputName source with
  | .ok lines => "\n".intercalate lines
  | .error fault => faultLine fault.diagnostic

-- A statement that does not lex is not empty.
def isEmptyStatement (statement : List Char) : Bool :=
  let lexing := Lexing.ofText inputName statement
  match lexing.ending with
  | .ok _ => lexing.tokens.all Token.isTerminator
  | .error _ => false

def readStatement (input : List Char) : Option (List Char) × List Char :=
  match input with
  | [] => (none,[])
  | c :: later =>
      let parts := splitStatement false (c :: later)
      (some parts.1,parts.2)

def answer (s : Session) (statement : List Char) : String :=
  let result := s.evaluate statement
  if result = "" then "" else result ++ "\n"

-- A session ends at the first empty statement, which is consumed, or with the input.
structure Transcript where
  output : String
  evaluated : List (List Char)
  last : Option (List Char)
  rest : List Char

def run (s : Session) (input : List Char) : Transcript :=
  let parts := (statements input).span fun statement => !isEmptyStatement statement
  { output := String.join (parts.1.map fun statement => s.prompt ++ s.answer statement) ++
      s.prompt ++ "\n"
    evaluated := parts.1
    last := parts.2.head?
    rest := (parts.2.drop 1).flatten }

end Session

end KaleidoscopeFrontEnd
