import PocketCalc.Proofs.Display
import PocketCalc.Proofs.ShownText

/-!
# What a shown result is read back as

A result takes the place of the text it was evaluated from, so that it can be carried on. A finite
one is read back as a finite number. The texts of the others are spelled like names, and these names
are bound to nothing: whoever carries on an overflow is told of an unbound name.
-/

namespace PocketCalc

open Number Precedence Grammar

/-- What kind of number a double is. -/
inductive NumberClass where
  | finite
  | infinite (negative : Bool)
  | nan
  deriving DecidableEq, Repr

/-- The class of a double. -/
def Number.classOf (x : Float) : NumberClass :=
  match denotation x with
  | .finite _ _ => .finite
  | .infinite negative => .infinite negative
  | .nan => .nan

variable {env : Environment}

/-! ## Names that are bound to nothing -/

theorem Environment.lookup_eq_none {name : String} (h : name ∉ names) : env.lookup name = none :=
  Option.eq_none_iff_forall_ne_some.mpr fun _ hbound => h (mem_names_of_lookup hbound)

/-- A name under a sign has no value where the name has none. -/
theorem evaluate_signed_name (env : Environment) (negative : Bool) (name : String)
    (hname : isName name.toList = true) (hw : 'w' ∉ name.toList)
    (hbound : name ∉ Environment.names) :
    evaluate env (signed negative name.toList) = .error (.unboundName name) := by
  let operand : Derivation .call := .called (.name name) .noTrailers
  have hscan : ScansTo name.toList [.identifier name] := by
    have h : ScansTo (name.toList ++ []) [.identifier name] :=
      scansTo_name hname nofun scansTo_nil
    rwa [List.append_nil] at h
  have htokens : (derivation negative (group operand [])).tokens =
      signTokens negative ++ [.identifier name] := by
    rw [tokens_group]
    rfl
  have hsigned : ScansTo (signed negative name.toList)
      (derivation negative (group operand [])).tokens := by
    rw [htokens]
    cases negative with
    | false => exact hscan
    | true => exact scansTo_symbol (l := ⟨.minus, ['-'], name.toList⟩) (by decide) rfl hscan
  have hdepth : (derivation negative (group operand [])).depth ≤ 1 := by
    cases negative with
    | false => exact Nat.zero_le 1
    | true => exact Nat.le_refl 1
  have hwsigned : 'w' ∉ signed negative name.toList := by
    cases negative <;> simp [signed, hw]
  have hvalue : numeric env operand.tree = .error (.unboundName name) := by
    show numeric env (.name name) = _
    simp only [numeric, Expr.eval, Environment.lookup_eq_none hbound]
    rfl
  rw [evaluate_of_scansTo hwsigned hsigned (hdepth.trans (by decide)), numeric_group, hvalue]
  cases negative <;> rfl

/-! ## Shown numbers -/

/-- What the text of a number of each class is read back as. -/
inductive ReadsBack (env : Environment) (cs : List Char) : NumberClass → Prop where
  | finite (w : Float) (value : evaluate env cs = .ok w) (finite : classOf w = .finite) :
      ReadsBack env cs .finite
  | infinite (negative : Bool) (text : cs = signed negative "inf".toList)
      (unbound : evaluate env cs = .error (.unboundName "inf")) :
      ReadsBack env cs (.infinite negative)
  | nan (text : cs = "nan".toList) (unbound : evaluate env cs = .error (.unboundName "nan")) :
      ReadsBack env cs .nan

theorem classOf_eq_finite {x : Float} (h : rank x < infiniteRank) : classOf x = .finite := by
  simp [classOf, denotation, h]

/-- **The shown form of a double is read back as a finite number if it is one**, and as an unbound
name otherwise. -/
theorem readsBack_shown (env : Environment) (precision : ℕ) (x : Float) :
    ReadsBack env (shown precision x) (classOf x) := by
  by_cases hfinite : rank x < infiniteRank
  · obtain ⟨q, w, -, hw, hnearest⟩ := exists_isNearestDouble env precision hfinite
    rw [classOf_eq_finite hfinite]
    exact .finite w hw (classOf_eq_finite hnearest.finite)
  by_cases hinfinite : rank x = infiniteRank
  · have hdenotation : denotation x = .infinite (isNegative x) := by
      simp [hinfinite, denotation]
    have hshown : shown precision x = signed (isNegative x) "inf".toList := by
      rw [shown, hdenotation]
    rw [show classOf x = .infinite (isNegative x) by rw [classOf, hdenotation]]
    refine .infinite (isNegative x) hshown ?_
    rw [hshown]
    exact evaluate_signed_name env _ "inf" (by decide) (by decide) (by decide)
  · have hdenotation : denotation x = .nan := by
      simp [hfinite, hinfinite, denotation]
    have hshown : shown precision x = "nan".toList := by
      rw [shown, hdenotation]
    rw [show classOf x = .nan by rw [classOf, hdenotation]]
    refine .nan hshown ?_
    rw [hshown]
    exact evaluate_signed_name env false "nan" (by decide) (by decide) (by decide)

/-- **A finite result is read back as a finite number, and no other result is read back.** In every
state that keys lead to and that still has its result, the text evaluates to a finite number if the
result is finite. If it is infinite or no number, the text is the name `inf`, under its sign, or the
name `nan`, which no environment binds. -/
theorem readsBack_result (calculator : Calculator) (keys : List Key) (value : Float)
    (h : (({} : Keypad).run calculator keys).lastValue = some value) :
    ReadsBack calculator.env (({} : Keypad).run calculator keys).buffer.chars (classOf value) := by
  obtain ⟨-, -, hchars⟩ := (Keypad.coherent_run calculator keys).result value h
  rw [hchars]
  exact readsBack_shown calculator.env calculator.precision value

/-- The keys `1 ÷ 3 =`. -/
def thirdKeys : List Key := [.digit '1', .operator .divide, .digit '3', .evaluate]

theorem readsBack_result_third :
    (({} : Keypad).run {} thirdKeys).lastValue = some (1 / 3) ∧
      ReadsBack {} (({} : Keypad).run {} thirdKeys).buffer.chars (classOf (1 / 3)) ∧
      classOf (1 / 3) = .finite := by
  have h : (({} : Keypad).run {} thirdKeys).lastValue = some (1 / 3) := by decide +kernel
  exact ⟨h, readsBack_result {} thirdKeys (1 / 3) h, by decide +kernel⟩

/-- As many nines as it takes to overflow, and `=`. -/
def overflowKeys : List Key := List.replicate 309 (.digit '9') ++ [.evaluate]

/-- An overflow is a result, and its text has no value of its class, nor any other. -/
theorem not_readsBack_overflow :
    ¬ ∀ (calculator : Calculator) (keys : List Key) (value : Float),
      (({} : Keypad).run calculator keys).lastValue = some value →
      ∃ w, evaluate calculator.env (({} : Keypad).run calculator keys).buffer.chars = .ok w ∧
        classOf w = classOf value := by
  intro hclass
  have hresult : (({} : Keypad).run {} overflowKeys).lastValue =
      some (ofRank false infiniteRank) := by decide +kernel
  have hunbound : evaluate {} (({} : Keypad).run {} overflowKeys).buffer.chars =
      .error (.unboundName "inf") := by decide +kernel
  obtain ⟨w, hw, -⟩ := hclass {} overflowKeys _ hresult
  rw [hunbound] at hw
  cases hw

end PocketCalc
