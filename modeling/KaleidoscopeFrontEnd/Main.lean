import KaleidoscopeFrontEnd.CommandLine.Run

namespace KaleidoscopeFrontEnd.CommandLine

def systemFile (path : String) : IO (Except ReadFault ByteArray) := do
  if path.isEmpty then return .error (.missing path)
  match ← (IO.FS.readBinFile path).toBaseIO with
  | .ok bytes => return .ok bytes
  | .error (.inappropriateType ..) => return .error (.isDirectory path)
  | .error _ => return .error (.missing path)

def note (s : Settings) (records : List Record) : IO Unit := do
  for r in records do
    if s.verbose || r.isFailure then IO.eprintln r.text

def finish (s : Settings) (outcome : Outcome) : IO UInt32 := do
  IO.print outcome.output
  IO.eprint outcome.errors
  note s outcome.records
  match outcome.ending with
  | .returned status => return UInt32.ofNat status
  | .exited status => return UInt32.ofNat status
  | .unhandled fault => IO.eprintln fault.message; return 1

partial def statementFrom (input : IO.FS.Stream) (read : String) : IO String := do
  let line ← input.getLine
  if line.isEmpty || line.toList.contains ';' then return read ++ line
  statementFrom input (read ++ line)

-- The same session as `Session.run`, statement by statement while the input is still coming.
partial def converse (s : Settings) (session : Session) (input output : IO.FS.Stream) :
    IO Unit := do
  output.putStr session.prompt
  output.flush
  let statement := (← statementFrom input "").toList
  unless statement.isEmpty do note s (Journal.ofEmptinessTest statement)
  if statement.isEmpty || Session.isEmptyStatement statement then output.putStr "\n"
  else
    output.putStr (session.answer statement)
    note s (Journal.ofEvaluation statement)
    converse s session input output

end KaleidoscopeFrontEnd.CommandLine

open KaleidoscopeFrontEnd KaleidoscopeFrontEnd.CommandLine

def main (arguments : List String) : IO UInt32 := do
  match invocation arguments with
  | .run s =>
      match s.file with
      | some path =>
          let content ← systemFile path
          finish s (runSettings s (fun _ => content) [])
      | none =>
          match s.prompt with
          | none => finish s (runSettings s (fun path => .error (.missing path)) [])
          | some prompt =>
              if s.verbose then note s [.verbose]
              converse s (s.session prompt) (← IO.getStdin) (← IO.getStdout)
              return 0
  | _ => finish .initial (run arguments (fun path => .error (.missing path)) [])
