import PocketCalc.Operation.Apply

/-!
# Environments

An environment fixes what names mean and where the tangent is defined. Functions, `pi` and `e` are
always bound; five physical constants are bound on request.
-/

namespace PocketCalc

open PocketCalc.Number

/-- What a name stands for. -/
inductive Binding where
  | function (op : UnaryOperation)
  | constant (value : Float)
  deriving DecidableEq

/-- The choices that an evaluation depends on. -/
structure Environment where
  /-- The tangent is undefined where the cosine is at most this large. -/
  tangentTolerance : Float := defaultTangentTolerance
  /-- Whether the physical constants are bound. -/
  physicalConstants : Bool := false
  deriving DecidableEq

/-- The circle constant and the base of the natural logarithm. -/
def mathConstants : List (String × Float) :=
  [("pi", Decimal.toFloat false ⟨3141592653589793, -15⟩),
   ("e", Decimal.toFloat false ⟨2718281828459045, -15⟩)]

/-- The speed of light, standard gravity and the constants of Planck, Avogadro and Boltzmann, in
the base units of the International System. -/
def physicalConstants : List (String × Float) :=
  [("c", Decimal.toFloat false ⟨299792458, 0⟩),
   ("g", Decimal.toFloat false ⟨980665, -5⟩),
   ("h", Decimal.toFloat false ⟨662607015, -42⟩),
   ("na", Decimal.toFloat false ⟨602214076, 15⟩),
   ("kb", Decimal.toFloat false ⟨1380649, -29⟩)]

namespace Environment

/-- The constants that are bound. -/
def constants (env : Environment) : List (String × Float) :=
  if env.physicalConstants then mathConstants ++ PocketCalc.physicalConstants else mathConstants

/-- What a name is bound to. -/
def lookup (env : Environment) (name : String) : Option Binding :=
  match UnaryOperation.ofName? name with
  | some op => some (.function op)
  | none => (env.constants.lookup name).map .constant

/-- Every name that can be bound. -/
def names : List String :=
  UnaryOperation.all.flatMap (·.names) ++ (mathConstants ++ PocketCalc.physicalConstants).map (·.1)

/-- Whether a name is bound to a function. -/
def isFunction (env : Environment) (name : String) : Bool :=
  match env.lookup name with
  | some (.function _) => true
  | _ => false

/-- Whether a name is bound to a constant. -/
def isConstant (env : Environment) (name : String) : Bool :=
  match env.lookup name with
  | some (.constant _) => true
  | _ => false

/-- Applies an operation under the environment's tangent tolerance. -/
def call (env : Environment) (op : Operation) (args : List Operand) : Except Error Float :=
  op.apply env.tangentTolerance args

/-! ## Bound names -/

theorem mem_constants {env : Environment} {entry : String × Float} (h : entry ∈ env.constants) :
    entry ∈ mathConstants ++ PocketCalc.physicalConstants := by
  unfold constants at h
  split at h
  · exact h
  · exact List.mem_append_left _ h

theorem mem_names_of_lookup {env : Environment} {name : String} {binding : Binding}
    (h : env.lookup name = some binding) : name ∈ names := by
  unfold lookup at h
  split at h
  · rename_i op ho
    unfold UnaryOperation.ofName? at ho
    have hop := List.find?_some ho
    exact List.mem_append_left _
      (List.mem_flatMap.mpr ⟨op, List.mem_of_find?_eq_some ho, by simpa using hop⟩)
  · obtain ⟨value, hv, -⟩ := Option.map_eq_some_iff.mp h
    obtain ⟨front, back, hl, -⟩ := List.lookup_eq_some_iff.mp hv
    have hm : (name, value) ∈ env.constants := by rw [hl]; simp
    exact List.mem_append_right _ (List.mem_map.mpr ⟨_, mem_constants hm, rfl⟩)

end Environment

end PocketCalc
