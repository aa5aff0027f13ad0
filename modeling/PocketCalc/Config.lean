import PocketCalc.Calculator
import PocketCalc.Config.Document

/-!
# Configuration

Three settings, each with a default: how many digits are shown, where the tangent is undefined,
and whether physical constants are bound.
-/

namespace PocketCalc

/-- The settings. -/
structure Config where
  precision : Nat := Number.defaultPrecision
  tangentTolerance : Float := defaultTangentTolerance
  physicalConstants : Bool := false
  deriving DecidableEq

/-- Why a configuration is refused. -/
inductive ConfigError where
  /-- No settings document, an unknown or repeated setting, or a value of the wrong kind. -/
  | malformed
  /-- A tangent tolerance that is no number from zero upwards. -/
  | tolerance (value : Float)
  deriving DecidableEq

/-- The wording for a configuration that is refused. -/
def ConfigError.message : ConfigError → String
  | .malformed => "malformed configuration"
  | .tolerance x =>
    "tangent_tolerance must be a non-negative number, got " ++
      String.ofList (Number.fullStyle.write x)

namespace Config

/-- The settings with one of them set. A value of the wrong kind sets nothing; a tolerance may be
given as an integer. -/
def set? (config : Config) (entry : Entry) : Option Config :=
  match entry.key, entry.value with
  | "precision", .integer n => if 0 ≤ n then some { config with precision := n.toNat } else none
  | "tangent_tolerance", .decimal x => some { config with tangentTolerance := x }
  | "tangent_tolerance", .integer n => some { config with tangentTolerance := Number.ofInt n }
  | "physical_constants", .truth b => some { config with physicalConstants := b }
  | _, _ => none

/-- The settings of some entries, each of which may be set once. -/
def ofEntries? (entries : List Entry) : Option Config :=
  if (entries.map (·.key)).Nodup then entries.foldlM set? {} else none

/-- The settings of a document. The precision is brought into its range; a tolerance outside its
range is an error. -/
def parse (cs : List Char) : Except ConfigError Config :=
  match Document.entries? cs >>= ofEntries? with
  | none => .error .malformed
  | some config =>
    if config.tangentTolerance.isFinite && 0 ≤ config.tangentTolerance then
      .ok { config with precision := Number.clampPrecision config.precision }
    else .error (.tolerance config.tangentTolerance)

/-- The environment under the settings. -/
def env (config : Config) : Environment := ⟨config.tangentTolerance, config.physicalConstants⟩

/-- The calculator under the settings. -/
def calculator (config : Config) : Calculator := ⟨config.env, config.precision⟩

end Config

end PocketCalc
