import KaleidoscopeFrontEnd.Session
import KaleidoscopeFrontEnd.Text.Digit

namespace KaleidoscopeFrontEnd.CommandLine

inductive CommandOption where
  | help
  | tokens
  | prompt
  | verbose
  deriving DecidableEq

namespace CommandOption

def spellings : List (String × CommandOption) :=
  [("-h",.help),("--help",.help),("--tokens",.tokens),("--prompt",.prompt),
    ("--verbose",.verbose),("-v",.verbose)]

def label : CommandOption → String
  | .help => "-h/--help"
  | .tokens => "--tokens"
  | .prompt => "--prompt"
  | .verbose => "--verbose/-v"

def ofLetter? (letter : Char) : Option CommandOption :=
  spellings.lookup (String.ofList ['-',letter])

end CommandOption

inductive UsageFault where
  | ambiguous (argument : String) (candidates : List String)
  | ignoredValue (option : CommandOption) (value : String)
  | missingValue (option : CommandOption)
  | unrecognized (arguments : List String)
  deriving DecidableEq

def UsageFault.message : UsageFault → String
  | .ambiguous argument candidates =>
      "ambiguous option: " ++ argument ++ " could match " ++ ", ".intercalate candidates
  | .ignoredValue option value =>
      "argument " ++ option.label ++ ": ignored explicit argument " ++ quoted value
  | .missingValue option => "argument " ++ option.label ++ ": expected one argument"
  | .unrecognized arguments => "unrecognized arguments: " ++ " ".intercalate arguments

inductive Argument where
  | plain (text : String)
  | separator
  | long (option : CommandOption) (value : Option String)
  | letters (option : CommandOption) (attached : Option (List Char))
  | unknown (text : String)

-- A minus sign and a number is a plain argument, since no option looks like one.
def looksNegative (argument : List Char) : Bool :=
  match argument with
  | '-' :: later =>
      let body := if later.getLast? == some '\n' then later.dropLast else later
      let behind := (body.dropWhile isDigit)
      (body != [] && behind == []) ||
        match behind with
        | '.' :: fraction => fraction != [] && fraction.all isDigit
        | _ => false
  | _ => false

def unmatched (argument : String) : Argument :=
  if looksNegative argument.toList || argument.toList.contains ' ' then .plain argument
  else .unknown argument

def isLong (spelling : String) : Bool := "--".isPrefixOf spelling

def splitEquals (argument : List Char) : List Char × Option (List Char) :=
  match argument.dropWhile (· != '=') with
  | [] => (argument,none)
  | _ :: value => (argument.takeWhile (· != '='),some value)

def ofSpelling (spelling : String) (option : CommandOption) (value : Option (List Char)) :
    Argument :=
  if isLong spelling then .long option (value.map String.ofList)
  else .letters option value

def abbreviation (argument : String) : Except UsageFault Argument :=
  let parts := splitEquals argument.toList
  let candidates := CommandOption.spellings.filter fun entry => parts.1.isPrefixOf entry.1.toList
  match candidates with
  | [] => .ok (unmatched argument)
  | [only] => .ok (ofSpelling only.1 only.2 parts.2)
  | several => .error (.ambiguous argument (several.map Prod.fst))

def classify (argument : String) : Except UsageFault Argument :=
  match CommandOption.spellings.lookup argument with
  | some option => .ok (ofSpelling argument option none)
  | none =>
      match argument.toList with
      | '-' :: second :: later =>
          let parts := splitEquals argument.toList
          match parts.2, CommandOption.spellings.lookup (String.ofList parts.1) with
          | some value, some option => .ok (ofSpelling (String.ofList parts.1) option (some value))
          | _, _ =>
              if second = '-' then abbreviation argument
              else
                match CommandOption.ofLetter? second with
                | some option => .ok (.letters option (some later))
                | none => .ok (unmatched argument)
      | _ => .ok (.plain argument)

def separator : String := "--"

def classifyAll : List String → Except UsageFault (List Argument)
  | [] => .ok []
  | argument :: later =>
      if argument = separator then .ok (.separator :: later.map .plain)
      else do
        let first ← classify argument
        return first :: (← classifyAll later)

-- A prompt that was given as nothing but the separator is lost.
structure Settings where
  file : Option String
  fileTaken : Bool
  showTokens : Bool
  prompt : Option String
  verbose : Bool

def Settings.initial : Settings := ⟨none,false,false,some Session.defaultPrompt,false⟩

-- One-letter options may be run together. An equals sign in front of the second letter is passed over.
def cluster (option : CommandOption) : List Char → Except UsageFault (List CommandOption)
  | [] => .error (.ignoredValue option "")
  | letter :: later =>
      match CommandOption.ofLetter? letter with
      | none => .error (.ignoredValue option (String.ofList (letter :: later)))
      | some next =>
          if later.isEmpty then .ok [option,next] else (cluster next later).map (option :: ·)

inductive Invocation where
  | run (settings : Settings)
  | help
  | fault (fault : UsageFault)

def Settings.set (s : Settings) : CommandOption → Settings
  | .tokens => { s with showTokens := true }
  | .verbose => { s with verbose := true }
  | _ => s

-- Flags take effect in order, and help stops everything behind it, so that a later mistake goes unnoticed.
def Settings.setAll (s : Settings) (options : List CommandOption) : Option Settings :=
  if options.contains .help then none else some (options.foldl Settings.set s)

def interpret (s : Settings) (left : List String) : List Argument → Invocation
  | [] => if left.isEmpty then .run s else .fault (.unrecognized left)
  | .plain text :: later =>
      if s.fileTaken then interpret s (left ++ [text]) later
      else
        let taken := { s with file := some text, fileTaken := true }
        match later with
        | .separator :: rest => interpret taken left rest
        | rest => interpret taken left rest
  | .separator :: later =>
      if s.fileTaken then interpret s (left ++ [separator]) later else interpret s left later
  | .unknown text :: later => interpret s (left ++ [text]) later
  | .long .prompt (some value) :: later =>
      interpret { s with prompt := if value = separator then none else some value } left later
  | .long .prompt none :: .plain value :: later =>
      interpret { s with prompt := some value } left later
  | .long .prompt none :: _ => .fault (.missingValue .prompt)
  | .long option (some value) :: _ => .fault (.ignoredValue option value)
  | .long option none :: later =>
      match s.setAll [option] with
      | none => .help
      | some next => interpret next left later
  | .letters option none :: later =>
      match s.setAll [option] with
      | none => .help
      | some next => interpret next left later
  | .letters option (some attached) :: later =>
      match cluster option attached with
      | .error fault => .fault fault
      | .ok options =>
          match s.setAll options with
          | none => .help
          | some next => interpret next left later

-- Arguments are classified before any takes effect: an ambiguous one hides all other mistakes.
def invocation (arguments : List String) : Invocation :=
  match classifyAll arguments with
  | .error fault => .fault fault
  | .ok all => interpret .initial [] all

end KaleidoscopeFrontEnd.CommandLine
