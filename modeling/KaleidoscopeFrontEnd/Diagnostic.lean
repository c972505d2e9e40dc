import KaleidoscopeFrontEnd.Source.Location
import KaleidoscopeFrontEnd.Text.Uppercase

namespace KaleidoscopeFrontEnd

-- One report. Absent and empty parts read the same when it is printed, but are kept apart.
structure Diagnostic where
  message : String
  location : Option Location
  severity : String
  code : Option String
  help : Option String
  suggestions : Option (List String)
  deriving DecidableEq

namespace Diagnostic

def heading (d : Diagnostic) : String :=
  let code := d.code.getD ""
  capitalized d.severity ++ (if code = "" then "" else "[" ++ code ++ "]")

def locationLine (d : Diagnostic) : String :=
  match d.location with
  | none => ""
  | some l => "  --> " ++ l.text ++ "\n"

def helpLine (d : Diagnostic) : String :=
  let help := d.help.getD ""
  if help = "" then "" else "  help: " ++ help ++ "\n"

def suggestionLines (d : Diagnostic) : String :=
  match d.suggestions.getD [] with
  | [] => ""
  | all => "  suggestions:\n" ++ String.join (all.map fun s => "    - " ++ s ++ "\n")

def report (d : Diagnostic) : String :=
  d.heading ++ ": " ++ d.message ++ "\n" ++ d.locationLine ++ d.helpLine ++ d.suggestionLines

end Diagnostic

end KaleidoscopeFrontEnd
