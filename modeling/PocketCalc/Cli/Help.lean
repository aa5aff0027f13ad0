import PocketCalc.Cli.Arguments

/-!
# Help and version texts
-/

namespace PocketCalc.Cli

/-- What `--version` prints. -/
def versionText : String := "padcalc 0.1.0\n"

/-- The line for the configuration option. -/
def configLine : String :=
  "      --config <CONFIG>  Path to config.toml (default: <config dir>/padcalc/config.toml)"

/-- The line for the help option. -/
def helpLine : String := "  -h, --help             Print help"

/-- The lines of the help of the program. -/
def programHelp : List String :=
  ["A keypad-style calculator with a text command loop",
   "",
   "Usage: padcalc [OPTIONS] [COMMAND]",
   "",
   "Commands:",
   "  repl  Read `<number> <op> <number>` or `<function> <number>` lines (default)",
   "  keys  Feed keypad labels to the engine, printing the display after each",
   "  eval  Evaluate a single expression",
   "  help  Print this message or the help of the given subcommand(s)",
   "",
   "Options:",
   configLine,
   helpLine,
   "  -V, --version          Print version"]

/-- The lines of the help of a subcommand. -/
def subcommandHelp : Subcommand → List String
  | .repl =>
    ["Read `<number> <op> <number>` or `<function> <number>` lines (default)",
     "",
     "Usage: padcalc repl [OPTIONS]",
     "",
     "Options:",
     configLine,
     helpLine]
  | .keys =>
    ["Feed keypad labels to the engine, printing the display after each",
     "",
     "Usage: padcalc keys [OPTIONS] [LABELS]...",
     "",
     "Arguments:",
     "  [LABELS]...  Labels such as `7`, `×`, `sqrt`, `=`, `MS`; read from stdin when omitted",
     "",
     "Options:",
     configLine,
     helpLine]
  | .eval =>
    ["Evaluate a single expression",
     "",
     "Usage: padcalc eval [OPTIONS] <EXPRESSION>",
     "",
     "Arguments:",
     "  <EXPRESSION>  ",
     "",
     "Options:",
     configLine,
     "      --json             Print the result as JSON",
     helpLine]

/-- The lines of the help on help, which takes no options. -/
def helpHelp : List String :=
  ["Print this message or the help of the given subcommand(s)",
   "",
   "Usage: padcalc help [COMMAND]...",
   "",
   "Arguments:",
   "  [COMMAND]...  Print help for the subcommand(s)"]

/-- The help text on a topic. -/
def Topic.text (topic : Topic) : String :=
  let lines := match topic with
    | .program => programHelp
    | .subcommand sub => subcommandHelp sub
    | .help => helpHelp
  "\n".intercalate lines ++ "\n"

end PocketCalc.Cli
