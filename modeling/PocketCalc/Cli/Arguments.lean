/-!
# Command line arguments

The program takes one option of its own, the path of the configuration, and one subcommand.
Arguments are read from left to right; a request for help or for the version is honoured where it
stands, and the first argument that fits nowhere is an error.
-/

namespace PocketCalc.Cli

/-- The subcommands. -/
inductive Subcommand where
  | repl
  | keys
  | eval
  deriving DecidableEq

/-- What the program is asked to do. -/
inductive Request where
  /-- The text loop over the input. -/
  | repl
  /-- Keys to press; without any, they come from the input. -/
  | keys (labels : List String)
  /-- An expression to evaluate, and whether the report is wanted as JSON. -/
  | eval (expression : String) (json : Bool)
  deriving DecidableEq

/-- A request and the path of the configuration, where one is given. -/
structure Arguments where
  request : Request
  config : Option String := none
  deriving DecidableEq

/-- What help is asked for. -/
inductive Topic where
  | program
  | subcommand (sub : Subcommand)
  | help
  deriving DecidableEq

/-- What the arguments ask for. -/
inductive Reading where
  | run (arguments : Arguments)
  | help (topic : Topic)
  | version
  /-- Arguments that fit nowhere, or that are missing. -/
  | usage
  deriving DecidableEq

/-- The subcommand of a name. -/
def Subcommand.ofName? : String → Option Subcommand
  | "repl" => some .repl
  | "keys" => some .keys
  | "eval" => some .eval
  | _ => none

/-- What an argument looks like. -/
inductive Argument where
  /-- Two dashes: every later argument is a value. -/
  | escape
  /-- A long option and the value attached to it behind an equals sign. -/
  | long (name : String) (value : Option String)
  /-- Short options, by their first letter. -/
  | short (letter : Char)
  | value (text : String)

/-- Reads an argument by its dashes. One dash alone is a value. -/
def Argument.ofString (s : String) : Argument :=
  match s.toList with
  | ['-', '-'] => .escape
  | '-' :: '-' :: cs =>
    let name := String.ofList (cs.takeWhile (· != '='))
    match cs.dropWhile (· != '=') with
    | _ :: attached => .long name (some (String.ofList attached))
    | [] => .long name none
  | '-' :: c :: _ => .short c
  | _ => .value s

/-- Takes the value of the configuration option, which may be given once at each place and is not
empty: the value and the arguments behind it. -/
def takeConfig (given attached : Option String) (rest : List String) :
    Option (String × List String) :=
  if given.isSome then none
  else match attached, rest with
    | some path, rest => if path.isEmpty then none else some (path, rest)
    | none, path :: rest =>
      match Argument.ofString path with
      | .value path => if path.isEmpty then none else some (path, rest)
      | _ => none
    | none, [] => none

theorem length_takeConfig {given attached : Option String} {rest rest' : List String}
    {path : String} (h : takeConfig given attached rest = some (path, rest')) :
    rest'.length ≤ rest.length := by
  unfold takeConfig at h
  split at h
  · cases h
  split at h
  · split at h
    · cases h
    · cases h
      exact Nat.le_refl _
  · split at h
    · split at h
      · cases h
      · cases h
        exact Nat.le_succ _
    · cases h
  · cases h

/-- What a subcommand has been given so far. -/
structure Given where
  values : List String := []
  json : Bool := false
  config : Option String := none

/-- How many values a subcommand takes. -/
def Subcommand.room : Subcommand → Option Nat
  | .repl => some 0
  | .keys => none
  | .eval => some 1

/-- Adds a value, where the subcommand has room for it. -/
def Given.add? (sub : Subcommand) (given : Given) (value : String) : Option Given :=
  if sub.room.all (given.values.length < ·) then
    some { given with values := given.values ++ [value] }
  else none

/-- The request of a subcommand with what it was given. -/
def Given.request? (sub : Subcommand) (given : Given) : Option Request :=
  match sub, given.values with
  | .repl, _ => some .repl
  | .keys, labels => some (.keys labels)
  | .eval, [expression] => some (.eval expression given.json)
  | .eval, _ => none

/-- The reading of a subcommand that is through its arguments. A configuration behind the
subcommand wins over one in front of it. -/
def Given.finish (sub : Subcommand) (config : Option String) (given : Given) : Reading :=
  match given.request? sub with
  | some request => .run ⟨request, given.config <|> config⟩
  | none => .usage

/-- Reads the arguments behind a subcommand. -/
def readSubcommand (sub : Subcommand) (config : Option String) (given : Given)
    (args : List String) : Reading :=
  match args with
  | [] => given.finish sub config
  | arg :: args =>
    match Argument.ofString arg with
    | .escape =>
      match args.foldlM (Given.add? sub) given with
      | some given => given.finish sub config
      | none => .usage
    | .value value =>
      match given.add? sub value with
      | some given => readSubcommand sub config given args
      | none => .usage
    | .long "help" none => .help (.subcommand sub)
    | .long "json" none =>
      if sub = .eval ∧ !given.json then
        readSubcommand sub config { given with json := true } args
      else .usage
    | .long "config" attached =>
      match h : takeConfig given.config attached args with
      | some (path, rest) =>
        have := length_takeConfig h
        readSubcommand sub config { given with config := some path } rest
      | none => .usage
    | .short 'h' => .help (.subcommand sub)
    | _ => .usage
termination_by args.length

/-- Reads the arguments behind a request for help, which name the subcommand that it is for. -/
def readHelp : List String → Reading
  | [] => .help .program
  | ["help"] => .help .help
  | [name] =>
    match Subcommand.ofName? name with
    | some sub => .help (.subcommand sub)
    | none => .usage
  | _ => .usage

/-- Reads the arguments of the program. Without a subcommand the text loop runs. -/
def readProgram (config : Option String) (args : List String) : Reading :=
  match args with
  | [] => .run ⟨.repl, config⟩
  | arg :: args =>
    match Argument.ofString arg with
    | .escape => if args.isEmpty then .run ⟨.repl, config⟩ else .usage
    | .value "help" => readHelp args
    | .value name =>
      match Subcommand.ofName? name with
      | some sub => readSubcommand sub config {} args
      | none => .usage
    | .long "help" none => .help .program
    | .long "version" none => .version
    | .long "config" attached =>
      match h : takeConfig config attached args with
      | some (path, rest) =>
        have := length_takeConfig h
        readProgram (some path) rest
      | none => .usage
    | .short 'h' => .help .program
    | .short 'V' => .version
    | _ => .usage
termination_by args.length

/-- Reads the arguments of the program. -/
def Reading.ofArgs (args : List String) : Reading := readProgram none args

end PocketCalc.Cli
