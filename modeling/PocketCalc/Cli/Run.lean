import PocketCalc.Cli.Help
import PocketCalc.Config
import PocketCalc.Keypad
import PocketCalc.Line.Session

/-!
# Running the program

The program as a function: from its arguments, what is found where the configuration should be,
and the bytes of its input, to what it prints and how it ends.
-/

namespace PocketCalc.Cli

/-- What is found where a configuration should be. -/
inductive ConfigFile where
  /-- Nothing, which stands for the defaults. -/
  | missing
  /-- Something that is no text. -/
  | unreadable
  | text (cs : List Char)

/-- The settings in a configuration file, if they are accepted. -/
def ConfigFile.load : ConfigFile → Option Config
  | .missing => some {}
  | .unreadable => none
  | .text cs => (Config.parse cs).toOption

/-- How a run of the program ends. -/
structure Outcome where
  /-- The exit status. -/
  status : Nat
  /-- What was printed. -/
  output : String
  /-- The error that ended the run. -/
  failure : Option String := none
  deriving DecidableEq

/-- A run that ends well. -/
def Outcome.success (output : String) : Outcome := ⟨0, output, none⟩

/-- A run that an error ends, after some output. -/
def Outcome.failed (output message : String) : Outcome := ⟨1, output, some ("Error: " ++ message)⟩

/-- Some texts as lines. -/
def lines (texts : List String) : String := String.join (texts.map (· ++ "\n"))

/-- The text loop over the input. -/
def runRepl (calculator : Calculator) (input : List UInt8) : Outcome :=
  let transcript := calculator.runSession none input
  if transcript.unreadable then .failed transcript.output "Text loop I/O failed"
  else .success transcript.output

/-- Keys pressed one after another; the display after each is a line. -/
def runKeys (calculator : Calculator) (labels : List (List Char)) : Outcome :=
  .success (lines (({} : Keypad).pressAll calculator labels).1)

/-- Keys pressed line by line as they stand in the input, until a line that is not UTF-8. The
displays after each key, and whether there was such a line. -/
def pressLines (calculator : Calculator) (pad : Keypad) :
    List (List UInt8) → List String × Bool
  | [] => ([], false)
  | line :: rest =>
    match Line.decode? line with
    | none => ([], true)
    | some text =>
      let (displays, pad) := pad.pressAll calculator (Text.words text)
      let (more, unreadable) := pressLines calculator pad rest
      (displays ++ more, unreadable)

/-- Keys that come from the input. -/
def runKeyInput (calculator : Calculator) (input : List UInt8) : Outcome :=
  let (displays, unreadable) := pressLines calculator {} (Line.split input)
  if unreadable then .failed (lines displays) "Failed to read keys from stdin"
  else .success (lines displays)

/-- One expression. As JSON an error is a report like any other. -/
def runEval (calculator : Calculator) (expression : String) (json : Bool) : Outcome :=
  let report := calculator.report expression.toList
  if json then .success (report.toJson ++ "\n")
  else match report with
    | .success _ _ display => .success (display ++ "\n")
    | .failure _ error => .failed "" error.message

/-- A request under the settings. -/
def runRequest (config : Config) (input : List UInt8) : Request → Outcome
  | .repl => runRepl config.calculator input
  | .keys [] => runKeyInput config.calculator input
  | .keys labels => runKeys config.calculator (labels.map String.toList)
  | .eval expression json => runEval config.calculator expression json

/-- A run of the program. `files` tells what is found at a path, or at the default place. -/
def run (reading : Reading) (files : Option String → ConfigFile) (input : List UInt8) : Outcome :=
  match reading with
  | .usage => ⟨2, "", none⟩
  | .version => .success versionText
  | .help topic => .success topic.text
  | .run arguments =>
    match (files arguments.config).load with
    | none => .failed "" "Failed to load configuration"
    | some config => runRequest config input arguments.request

end PocketCalc.Cli
