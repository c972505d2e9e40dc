import KaleidoscopeFrontEnd.CommandLine.Options
import KaleidoscopeFrontEnd.Folder
import KaleidoscopeFrontEnd.Journal

namespace KaleidoscopeFrontEnd.CommandLine

def usage : String :=
  "usage: kaleidoscope-repl [-h] [--tokens] [--prompt PROMPT] [--verbose] [file]\n"

def helpText : String :=
  usage ++ "\n" ++
  "Kaleidoscope front end: parse source and print the AST\n\n" ++
  "positional arguments:\n" ++
  "  file             Source file to parse. Starts the interactive loop if\n" ++
  "                   omitted\n\n" ++
  "options:\n" ++
  "  -h, --help       show this help message and exit\n" ++
  "  --tokens         Print the lexed tokens before each AST\n" ++
  "  --prompt PROMPT  Interactive prompt\n" ++
  "  --verbose, -v    Verbose logging\n"

def usageReport (fault : UsageFault) : String :=
  usage ++ "kaleidoscope-repl: error: " ++ fault.message ++ "\n"

inductive RunFault where
  | read (fault : ReadFault)
  | noPrompt
  deriving DecidableEq

def RunFault.message : RunFault → String
  | .read fault => fault.message
  | .noPrompt => "string argument expected, got 'list'"

inductive Ending where
  | returned (status : Nat)
  | exited (status : Nat)
  | unhandled (fault : RunFault)

structure Outcome where
  ending : Ending
  output : String
  errors : String
  records : List Record

def Settings.session (s : Settings) (prompt : String) : Session := ⟨prompt,s.showTokens⟩

def runText (s : Settings) (path : String) (source : List Char) : Outcome :=
  let records := Journal.ofText path source
  match (s.session "").render path source with
  | .ok lines => ⟨.returned 0,String.join (lines.map (· ++ "\n")),"",records⟩
  | .error fault => ⟨.returned 1,"",fault.diagnostic.report,records⟩

-- A file that the system does not hand over is noted down; any other fault ends the run unhandled.
def runFile (s : Settings) (path : String) (content : Except ReadFault ByteArray) : Outcome :=
  match textOfContent content with
  | .ok source => runText s path source
  | .error fault =>
      if fault.isRefusal then ⟨.returned 1,"","",[.unreadable path fault.message]⟩
      else ⟨.unhandled (.read fault),"","",[]⟩

def runInteractive (s : Settings) (input : List Char) : Outcome :=
  match s.prompt with
  | none => ⟨.unhandled .noPrompt,"","",[]⟩
  | some prompt =>
      let transcript := (s.session prompt).run input
      ⟨.returned 0,transcript.output,"",Journal.ofTranscript transcript⟩

def runSettings (s : Settings) (files : String → Except ReadFault ByteArray)
    (input : List Char) : Outcome :=
  let outcome := match s.file with
    | some path => runFile s path (files path)
    | none => runInteractive s input
  { outcome with
    records := if s.verbose then .verbose :: outcome.records
      else outcome.records.filter Record.isFailure }

def run (arguments : List String) (files : String → Except ReadFault ByteArray)
    (input : List Char) : Outcome :=
  match invocation arguments with
  | .help => ⟨.exited 0,helpText,"",[]⟩
  | .fault fault => ⟨.exited 2,"",usageReport fault,[]⟩
  | .run s => runSettings s files input

end KaleidoscopeFrontEnd.CommandLine
