import PocketCalc.Config
import PocketCalc.Proofs.FloatOrder

/-!
# Wider settings

Settings are wider than others if they leave out no constant and if their tangent is undefined
nowhere else. Two errors can go away under wider settings: a physical constant that was not bound,
and the pole of the tangent. Everything else that a text comes to, it comes to under wider settings
as well.

Two evaluations of one text, under both settings, run alike as long as no such error comes up; and
where one does, the first evaluation is over. `Kept` says so of their outcomes, and it is enough
that each step of an evaluation keeps it.
-/

namespace PocketCalc

/-- The names of the physical constants. -/
def constantNames : List String := ["c", "g", "h", "na", "kb"]

/-- The errors that wider settings can lift. -/
inductive Error.Liftable : Error → Prop where
  | constant {name : String} (h : name ∈ constantNames) : Liftable (.unboundName name)
  | tangent : Liftable (.domain .tangentPole)

/-- The second environment allows whatever the first one does. -/
structure Environment.Wider (env wider : Environment) : Prop where
  tolerance : wider.tangentTolerance ≤ env.tangentTolerance
  constants : env.physicalConstants = true → wider.physicalConstants = true

/-- The second outcome is the first one, unless that is an error that can be lifted. -/
def Kept {α : Type} (r r' : Except Error α) : Prop :=
  r' = r ∨ ∃ error, r = .error error ∧ error.Liftable

namespace Kept

variable {α β : Type} {r r' : Except Error α}

theorem refl (r : Except Error α) : Kept r r := .inl rfl

theorem lifted {error : Error} (h : error.Liftable) (r' : Except Error α) :
    Kept (.error error) r' := .inr ⟨error, rfl, h⟩

/-- Behind an error nothing more is done, so what would be done there does not matter. -/
theorem bind {f f' : α → Except Error β} (h : Kept r r') (hf : ∀ x, Kept (f x) (f' x)) :
    Kept (r >>= f) (r' >>= f') := by
  rcases h with rfl | ⟨error, rfl, herror⟩
  · cases r' with
    | error error => exact refl _
    | ok x => exact hf x
  · exact lifted herror _

end Kept

/-! ## What depends on the settings -/

theorem mem_constantNames_of_lookup {name : String} {x : Float}
    (h : physicalConstants.lookup name = some x) : name ∈ constantNames := by
  obtain ⟨front, back, hsplit, -⟩ := List.lookup_eq_some_iff.mp h
  have hmem : name ∈ physicalConstants.map (·.1) := by
    rw [hsplit]
    simp
  exact hmem

namespace Environment.Wider

open Number

variable {env wider : Environment} (h : env.Wider wider)
include h

/-- A name that only the wider environment binds is that of a physical constant. -/
theorem lookup_cases (name : String) :
    wider.lookup name = env.lookup name ∨ env.lookup name = none ∧ name ∈ constantNames := by
  have hsame (hflags : wider.physicalConstants = env.physicalConstants) :
      wider.lookup name = env.lookup name := by
    rw [Environment.lookup, Environment.lookup, Environment.constants, Environment.constants,
      hflags]
  cases henv : env.physicalConstants with
  | true => exact .inl (hsame ((h.constants henv).trans henv.symm))
  | false =>
      cases hwider : wider.physicalConstants with
      | false => exact .inl (hsame (hwider.trans henv.symm))
      | true =>
          -- the constants stand behind everything that is bound in any case
          rw [Environment.lookup, Environment.lookup, Environment.constants,
            Environment.constants, henv, hwider, if_pos rfl, if_neg Bool.false_ne_true,
            List.lookup_append]
          cases UnaryOperation.ofName? name with
          | some op => exact .inl rfl
          | none =>
              cases mathConstants.lookup name with
              | some x => exact .inl rfl
              | none =>
                  cases hphysical : PocketCalc.physicalConstants.lookup name with
                  | none => exact .inl rfl
                  | some x => exact .inr ⟨rfl, mem_constantNames_of_lookup hphysical⟩

theorem kept_apply (op : UnaryOperation) (x : Float) :
    Kept (op.apply env.tangentTolerance x) (op.apply wider.tangentTolerance x) := by
  cases op with
  | tangent =>
      unfold UnaryOperation.apply
      by_cases hx : env.tangentTolerance < x.cos.abs
      · have hx' : wider.tangentTolerance < x.cos.abs := lt_of_le_lt h.tolerance hx
        simp only [UnaryOperation.isDefined, hx, hx']
        exact .refl _
      · simp only [UnaryOperation.isDefined, hx]
        exact .lifted .tangent _
  | _ => exact .refl _

theorem kept_call (op : UnaryOperation) (args : List Operand) :
    Kept (env.call (.unary op) args) (wider.call (.unary op) args) := by
  match args with
  | [a] => exact (Kept.refl a.value).bind fun x => kept_apply h op x
  | [] => exact .refl _
  | _ :: _ :: _ => exact .refl _

end Environment.Wider

/-! ## Evaluating under both settings -/

namespace Expr

variable {env wider : Environment}

mutual

/-- **What a tree evaluates to is kept.** -/
theorem kept_eval (h : env.Wider wider) (e : Expr) : Kept (e.eval env) (e.eval wider) := by
  cases e with
  | number x => simp only [eval]; exact .refl _
  | name id =>
      simp only [eval]
      rcases h.lookup_cases id with hsame | ⟨hnone, hid⟩
      · rw [hsame]
        exact .refl _
      · rw [hnone]
        exact .lifted (.constant hid) _
  | negate operand =>
      simp only [eval]
      exact (kept_eval h operand).bind fun v => .refl _
  | plus operand =>
      simp only [eval]
      exact (kept_eval h operand).bind fun v => .refl _
  | chain first links =>
      simp only [eval]
      exact (kept_eval h first).bind fun v => (Kept.refl v.asNumber).bind fun x =>
        (kept_evalLinks h x links).bind fun y => .refl _
  | power base exponent =>
      simp only [eval]
      exact (kept_eval h base).bind fun v => (Kept.refl v.asNumber).bind fun x =>
        (kept_eval h exponent).bind fun w => .refl _
  | call callee args =>
      simp only [eval]
      exact (kept_eval h callee).bind fun v => (Kept.refl v.asFunction).bind fun op =>
        (kept_evalArgs h args).bind fun xs => (h.kept_call op _).bind fun y => .refl _

theorem kept_evalLinks (h : env.Wider wider) (x : Float) (links : List (ChainOperator × Expr)) :
    Kept (evalLinks env x links) (evalLinks wider x links) := by
  match links with
  | [] => simp only [evalLinks]; exact .refl _
  | (op, operand) :: links =>
      simp only [evalLinks]
      exact (kept_eval h operand).bind fun v => (Kept.refl v.asNumber).bind fun y =>
        (Kept.refl (op.operation.apply x y)).bind fun z => kept_evalLinks h z links

theorem kept_evalArgs (h : env.Wider wider) (args : List Expr) :
    Kept (evalArgs env args) (evalArgs wider args) := by
  match args with
  | [] => simp only [evalArgs]; exact .refl _
  | arg :: args =>
      simp only [evalArgs]
      exact (kept_eval h arg).bind fun v => (Kept.refl v.asNumber).bind fun x =>
        (kept_evalArgs h args).bind fun xs => .refl _

end

end Expr

/-! ## Texts -/

/-- A text is parsed without looking at the settings, so what it evaluates to is kept. -/
theorem Environment.Wider.kept_evaluate {env wider : Environment} (h : env.Wider wider)
    (cs : List Char) : Kept (evaluate env cs) (evaluate wider cs) := by
  unfold evaluate
  exact (Kept.refl _).bind fun tree => (tree.kept_eval h).bind fun v => .refl _

/-- **Wider settings change no result.** Whatever a text comes to, value or error, it comes to under
settings with no larger tolerance and no fewer constants, unless it fails over the name of a
physical constant or over a pole of the tangent. -/
theorem evaluate_of_wider (narrow wide : Config)
    (htolerance : wide.tangentTolerance ≤ narrow.tangentTolerance)
    (hconstants : narrow.physicalConstants = true → wide.physicalConstants = true)
    (cs : List Char)
    (hname : ∀ name ∈ ["c", "g", "h", "na", "kb"],
      evaluate narrow.env cs ≠ .error (.unboundName name))
    (htangent : evaluate narrow.env cs ≠ .error (.domain .tangentPole)) :
    evaluate wide.env cs = evaluate narrow.env cs := by
  have hwider : narrow.env.Wider wide.env := ⟨htolerance, hconstants⟩
  rcases hwider.kept_evaluate cs with hsame | ⟨error, herror, hlift⟩
  · exact hsame
  cases hlift with
  | constant hmem => exact absurd herror (hname _ hmem)
  | tangent => exact absurd herror htangent

/-- A quotient fails before the constant behind it is looked up, which only the second settings
have. -/
theorem evaluate_of_wider_quotient :
    evaluate ({ tangentTolerance := 1e-3 } : Config).env "1 / 0 + c".toList =
        .error .divisionByZero ∧
      evaluate ({ physicalConstants := true } : Config).env "1 / 0 + c".toList =
        .error .divisionByZero := by
  have hnarrow : evaluate ({ tangentTolerance := 1e-3 } : Config).env "1 / 0 + c".toList =
      .error .divisionByZero := by decide +kernel
  have hwide := evaluate_of_wider { tangentTolerance := 1e-3 } { physicalConstants := true }
    (by decide +kernel) nofun "1 / 0 + c".toList
    (by rw [hnarrow]; exact fun _ _ => nofun) (by rw [hnarrow]; exact nofun)
  exact ⟨hnarrow, hwide.trans hnarrow⟩

end PocketCalc
