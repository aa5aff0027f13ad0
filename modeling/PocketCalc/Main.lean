import PocketCalc.Cli.Run

/-!
# The program

The outer layer: it fetches what `Cli.run` asks for and prints what it answers. On a terminal the
text loop runs line by line behind a prompt.
-/

namespace PocketCalc

/-- The bytes of a stream, behind those already read. -/
partial def readAll (stream : IO.FS.Stream) (bytes : ByteArray) : IO ByteArray := do
  let more ← stream.read 65536
  if more.isEmpty then return bytes else readAll stream (bytes ++ more)

/-- The place of the configuration where no path is given. -/
def defaultConfigPath : IO (Option String) := do
  match ← IO.getEnv "XDG_CONFIG_HOME" with
  | some dir =>
    if dir.startsWith "/" then return some (dir ++ "/padcalc/config.toml")
  | none => pure ()
  return (← IO.getEnv "HOME").map (· ++ "/.config/padcalc/config.toml")

/-- What is found at a path. -/
def fetchConfig (path : Option String) : IO Cli.ConfigFile := do
  match path with
  | none => return .missing
  | some path =>
    try
      let bytes ← IO.FS.readBinFile path
      match String.fromUTF8? bytes with
      | some text => return .text text.toList
      | none => return .unreadable
    catch
      | .noFileOrDirectory .. => return .missing
      | _ => return .unreadable

/-- The text loop on a terminal. -/
partial def interact (calculator : Calculator) : IO Unit := do
  let stdout ← IO.getStdout
  stdout.putStr "> "
  stdout.flush
  let line ← (← IO.getStdin).getLine
  if line.isEmpty then return
  match Line.written (calculator.answer line.toList) with
  | none => return
  | some output =>
    stdout.putStr output
    interact calculator

/-- Prints how a run ended. -/
def finish (outcome : Cli.Outcome) : IO UInt32 := do
  let stdout ← IO.getStdout
  stdout.putStr outcome.output
  stdout.flush
  match outcome.failure with
  | some message => IO.eprintln message
  | none => pure ()
  return outcome.status.toUInt32

/-- Whether a request reads the input. -/
def readsInput : Cli.Reading → Bool
  | .run ⟨.repl, _⟩ | .run ⟨.keys [], _⟩ => true
  | _ => false

/-- Runs the program on its arguments. -/
def runProgram (args : List String) : IO UInt32 := do
  let reading := Cli.Reading.ofArgs args
  let given := match reading with
    | .run arguments => arguments.config
    | _ => none
  let file ← fetchConfig (given <|> (← defaultConfigPath))
  let stdin ← IO.getStdin
  match reading, file.load with
  | .usage, _ =>
    IO.eprintln "error: unexpected or missing arguments; for more information, try '--help'."
    return 2
  | .run ⟨.repl, _⟩, some config =>
    if ← stdin.isTty then
      interact config.calculator
      return 0
  | _, _ => pure ()
  let input ← if readsInput reading then readAll stdin .empty else pure .empty
  finish (Cli.run reading (fun _ => file) input.toList)

end PocketCalc

/-- The program. -/
def main (args : List String) : IO UInt32 := PocketCalc.runProgram args
