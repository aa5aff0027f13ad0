import PocketCalc.Proofs.Display
import PocketCalc.Proofs.KeyResult

/-!
# Memory keys work with the result

`=` and the memory keys `MS`, `M+` and `M−` look for a number in the same place: in the last result
before rounding, or else in the text, which they evaluate. So a memory key fails where `=` would
fail, with the same keypad left behind, and otherwise works with the number that `=` would keep.

Once a result is shown, neither `=` nor a memory key lets go of it. However many of them follow, all
that changes is the memory, and what they store and add is the result before rounding.
-/

namespace PocketCalc

/-- What a memory key makes of the number in memory and of the value that it works with. -/
def MemoryAction.updated : MemoryAction → (memory value : Float) → Float
  | .clear, _, _ => 0
  | .recall, memory, _ => memory
  | .store, _, value => value
  | .add, memory, value => memory + value
  | .subtract, memory, value => memory - value

/-- Whether the key works with a value. -/
def MemoryAction.takesValue : MemoryAction → Bool
  | .store | .add | .subtract => true
  | .clear | .recall => false

/-- Whether the key may change the number in memory. -/
def Key.writesMemory : Key → Bool
  | .memory action => action != .recall
  | _ => false

/-- Whether the key leaves a shown result where it is. -/
def Key.sparesResult : Key → Bool
  | .evaluate => true
  | key => key.writesMemory

/-- The number in memory after a key that works with `value`. -/
def Key.recorded (value memory : Float) : Key → Float
  | .memory action => action.updated memory value
  | _ => memory

namespace Keypad

variable {calculator : Calculator} {pad : Keypad} {action : MemoryAction} {value : Float}

/-! ## Where `=` and the memory keys look -/

/-- A result that is kept can be used, because it was just evaluated. -/
theorem filter_lastValue (h : Coherent calculator pad) :
    (pad.lastValue.filter fun _ => pad.justEvaluated) = pad.lastValue := by
  cases hv : pad.lastValue with
  | none => rfl
  | some value => simp [(h.result value hv).1]

/-- **`=` and the memory keys find the same number**, or the same error. -/
theorem memoryOperand_cases (h : Coherent calculator pad) (hne : pad.buffer.isEmpty = false) :
    (∃ value, pad.memoryOperand calculator = .ok value ∧
      (pad.pressEvaluate calculator).lastValue = some value ∧
      (pad.pressEvaluate calculator).isError = false) ∨
    ∃ error, pad.memoryOperand calculator = .error error ∧
      pad.pressEvaluate calculator = pad.fail error := by
  unfold memoryOperand pressEvaluate
  rw [filter_lastValue h, hne]
  cases hv : pad.lastValue with
  | some value =>
      -- the result is at hand, and `=` only shows it again
      have hj := (h.result value hv).1
      exact .inl ⟨value, rfl, by simp [hj, refreshed, hv], by simp [hj, refreshed]⟩
  | none =>
      simp only [Option.isSome_none, Bool.and_false, Bool.or_false, Bool.not_false, if_true,
        Bool.false_eq_true, if_false]
      cases calculator.report pad.buffer.chars with
      | success expression value display => exact .inl ⟨value, rfl, rfl, rfl⟩
      | failure expression error => exact .inr ⟨error, rfl, rfl⟩

/-- The text of a result is not empty. -/
theorem isEmpty_of_lastValue (h : Coherent calculator pad) (hv : pad.lastValue = some value) :
    pad.buffer.isEmpty = false := by
  rw [Buffer.isEmpty, (h.result value hv).2.2, List.isEmpty_eq_false_iff]
  exact Number.shown_ne_nil _ _

/-- So an empty text leaves no result to work with. -/
theorem lastValue_of_isEmpty (h : Coherent calculator pad) (he : pad.buffer.isEmpty = true) :
    pad.lastValue = none := by
  cases hv : pad.lastValue with
  | none => rfl
  | some value =>
      rw [isEmpty_of_lastValue h hv] at he
      cases he

/-- The zero on the display of an empty keypad, as a phrase. -/
def zero (env : Environment) : Typing.Phrase env .expression :=
  .expression false (.number (.ofDigit '0' rfl)) .noLinks

theorem result_report_zero (calculator : Calculator) :
    (calculator.report "0".toList).result = .ok 0 := by
  have hvalue : evaluate calculator.env "0".toList = .ok 0 :=
    Typing.evaluate_text (zero calculator.env) (Nat.zero_le _)
  exact (Report.result_ofText (Typing.trim_text (zero calculator.env)) (List.cons_ne_nil _ _)).trans
    hvalue

theorem memoryOperand_of_isEmpty (h : Coherent calculator pad) (he : pad.buffer.isEmpty = true) :
    pad.memoryOperand calculator = if pad.isError then .error .emptyInput else .ok 0 := by
  unfold memoryOperand
  rw [lastValue_of_isEmpty h he, he]
  cases hs : pad.isError with
  | true => rfl
  | false =>
      -- the display shows the zero of an empty text
      have hdisplay := h.text hs
      rw [he] at hdisplay
      simp only [Option.filter_none, hdisplay, Bool.not_true, Bool.false_eq_true, if_false, if_true]
      exact result_report_zero calculator

/-! ## What a memory key does with it -/

theorem pressMemory_eq (pad : Keypad) (ha : action.takesValue = true) :
    pad.pressMemory calculator action =
      pad.updateMemory calculator fun value => .ok (action.updated pad.memory value) := by
  match action, ha with
  | .store, _ => rfl
  | .add, _ => rfl
  | .subtract, _ => rfl

theorem pressMemory_of_ok (ha : action.takesValue = true)
    (h : pad.memoryOperand calculator = .ok value) :
    pad.pressMemory calculator action =
      refreshed { pad with memory := action.updated pad.memory value, justEvaluated := true } := by
  rw [pressMemory_eq pad ha, updateMemory, h]
  rfl

theorem pressMemory_of_error {error : Error} (ha : action.takesValue = true)
    (h : pad.memoryOperand calculator = .error error) :
    pad.pressMemory calculator action = pad.fail error := by
  rw [pressMemory_eq pad ha, updateMemory, h]
  rfl

/-- How a memory key acts on a keypad, told by what `=` does to the same one. -/
structure FollowsEvaluate (calculator : Calculator) (pad : Keypad) (action : MemoryAction) :
    Prop where
  /-- Where `=` gives the text up over an error, the memory key does the same. -/
  failing : pad.buffer.isEmpty = false → (pad.press calculator .evaluate).isError = true →
    pad.press calculator (.memory action) = pad.press calculator .evaluate ∧
      ∃ error, pad.press calculator .evaluate = pad.fail error
  /-- Where `=` keeps a value, the memory key works with that value, and the text stays. -/
  working : pad.buffer.isEmpty = false → (pad.press calculator .evaluate).isError = false →
    ∃ value, (pad.press calculator .evaluate).lastValue = some value ∧
      pad.press calculator (.memory action) =
        { pad with
          memory := action.updated pad.memory value, justEvaluated := true,
          display := pad.buffer.text, isError := false }
  /-- Without a text the value is the zero on the display. -/
  blank : pad.buffer.isEmpty = true → pad.isError = false →
    pad.press calculator (.memory action) =
      { pad with
        memory := action.updated pad.memory 0, justEvaluated := true, display := "0",
        isError := false }
  /-- An error on the display has no value. -/
  errorShown : pad.buffer.isEmpty = true → pad.isError = true →
    pad.press calculator (.memory action) = pad.fail .emptyInput

theorem followsEvaluate (h : Coherent calculator pad) (ha : action.takesValue = true) :
    FollowsEvaluate calculator pad action where
  failing hne he := by
    rcases memoryOperand_cases h hne with ⟨value, -, -, hs⟩ | ⟨error, ho, hp⟩
    · rw [show pad.press calculator .evaluate = pad.pressEvaluate calculator from rfl, hs] at he
      cases he
    · exact ⟨(pressMemory_of_error ha ho).trans hp.symm, error, hp⟩
  working hne hs := by
    rcases memoryOperand_cases h hne with ⟨value, ho, hv, -⟩ | ⟨error, -, hp⟩
    · refine ⟨value, hv, (pressMemory_of_ok ha ho).trans ?_⟩
      simp [refreshed, hne]
    · rw [show pad.press calculator .evaluate = _ from hp] at hs
      cases hs
  blank he hs := by
    have ho := memoryOperand_of_isEmpty h he
    rw [hs] at ho
    refine (pressMemory_of_ok ha ho).trans ?_
    simp [refreshed, he]
  errorShown he hs := by
    have ho := memoryOperand_of_isEmpty h he
    rw [hs] at ho
    exact pressMemory_of_error ha ho

/-- Typing leaves the memory as it is, and so does `=`, whatever comes out. -/
theorem memory_press {key : Key} (pad : Keypad) (hk : key.writesMemory = false) :
    (pad.press calculator key).memory = pad.memory := by
  cases key with
  | evaluate =>
      show (pad.pressEvaluate calculator).memory = pad.memory
      unfold pressEvaluate
      split
      · rfl
      · split <;> rfl
  | memory action =>
      match action, hk with
      | .recall, _ => rfl
  | _ => rfl

theorem memory_run (pad : Keypad) (keys : List Key) (hk : ∀ key ∈ keys, key.writesMemory = false) :
    (pad.run calculator keys).memory = pad.memory := by
  induction keys generalizing pad with
  | nil => rfl
  | cons key keys ih =>
      exact (ih _ fun k hm => hk k (List.mem_cons_of_mem _ hm)).trans
        (memory_press pad (hk key List.mem_cons_self))

/-- **The memory keys agree with `=`** in every state that keys lead to, and no other key changes
the memory. -/
theorem memory_agrees (calculator : Calculator) (keys : List Key) :
    (∀ action : MemoryAction, action.takesValue = true →
      FollowsEvaluate calculator (({} : Keypad).run calculator keys) action) ∧
    ∀ (pad : Keypad) (key : Key), key.writesMemory = false →
      (pad.press calculator key).memory = pad.memory :=
  ⟨fun _ ha => followsEvaluate (coherent_run_of coherent_init keys) ha,
    fun pad _ hk => memory_press pad hk⟩

/-- The keys `1 ÷ 0`. -/
def zeroDivisor : List Key := [.digit '1', .operator .divide, .digit '0']

/-- `M+` fails behind `1 ÷ 0` as `=` does, and once more while the error is shown. Behind `1 ÷ 4` it
adds what `=` would keep. -/
theorem memory_agrees_zeroDivisor :
    let failing := ({} : Keypad).run {} zeroDivisor
    let failed := failing.press {} .evaluate
    let working := ({} : Keypad).run {} [.digit '1', .operator .divide, .digit '4']
    (failing.buffer.isEmpty = false ∧ failed.isError = true ∧
      failing.press {} (.memory .add) = failed) ∧
    (failed.buffer.isEmpty = true ∧ failed.press {} (.memory .add) = failed.fail .emptyInput) ∧
    working.buffer.isEmpty = false ∧ (working.press {} .evaluate).isError = false ∧
      (working.press {} (.memory .add)).memory = 0.25 := by
  intro failing failed working
  have hfailing : failing.buffer.isEmpty = false ∧ failed.isError = true := by decide +kernel
  have hfailed : failed.buffer.isEmpty = true := by decide +kernel
  have hworking : working.buffer.isEmpty = false ∧
      (working.press {} .evaluate).isError = false := by decide +kernel
  have hbefore := (memory_agrees {} zeroDivisor).1 .add rfl
  have hbehind := (memory_agrees {} (zeroDivisor ++ [Key.evaluate])).1 .add rfl
  have hquarter := (memory_agrees {} [.digit '1', .operator .divide, .digit '4']).1 .add rfl
  obtain ⟨hadd, -⟩ := hbefore.failing hfailing.1 hfailing.2
  have hagain : failed.press {} (.memory .add) = failed.fail .emptyInput :=
    hbehind.errorShown hfailed hfailing.2
  obtain ⟨value, hvalue, hadded⟩ := hquarter.working hworking.1 hworking.2
  have hkept : (working.press {} .evaluate).lastValue = some 0.25 := by decide +kernel
  obtain rfl : 0.25 = value := Option.some.inj (hkept.symm.trans hvalue)
  have hmemory : working.memory + 0.25 = 0.25 := by decide +kernel
  exact ⟨⟨hfailing.1, hfailing.2, hadd⟩, ⟨hfailed, hagain⟩, hworking.1, hworking.2,
    (congrArg Keypad.memory hadded).trans hmemory⟩

/-! ## Memory work on a result -/

/-- `=` evaluates the text of the keypad, and the value is `value`. -/
structure Evaluates (calculator : Calculator) (pad : Keypad) (value : Float) : Prop where
  /-- There is no result yet that `=` would leave as it is. -/
  pending : (pad.justEvaluated && pad.lastValue.isSome) = false
  result : (calculator.report pad.buffer.chars).result = .ok value

theorem lastValue_of_evaluates (h : Evaluates calculator pad value) :
    (pad.pressEvaluate calculator).lastValue = some value := by
  have hr := h.result
  have hne : pad.buffer.isEmpty = false := by
    rw [Bool.eq_false_iff]
    intro he
    rw [List.isEmpty_iff.mp he] at hr
    cases hr
  unfold pressEvaluate
  rw [hne, h.pending]
  cases hreport : calculator.report pad.buffer.chars with
  | success expression x display =>
      rw [hreport] at hr
      cases hr
      rfl
  | failure expression error =>
      rw [hreport] at hr
      cases hr

/-- A result that is shown is shown again, whatever the number in memory. -/
theorem refreshed_of_result (h : Coherent calculator pad) (hv : pad.lastValue = some value)
    (memory : Float) :
    refreshed { pad with memory, justEvaluated := true } = { pad with memory } := by
  obtain ⟨hj, hs, -⟩ := h.result value hv
  have htext := h.text hs
  rw [refreshed, ← htext, ← hj, ← hs]

/-- **A key that spares the result changes nothing but the memory.** -/
theorem press_of_result (h : Coherent calculator pad) (hv : pad.lastValue = some value)
    {key : Key} (hk : key.sparesResult = true) :
    pad.press calculator key = { pad with memory := key.recorded value pad.memory } := by
  obtain ⟨hj, -, -⟩ := h.result value hv
  have hoperand : pad.memoryOperand calculator = .ok value := by
    rw [memoryOperand, filter_lastValue h, hv]
  have hshown := refreshed_of_result h hv
  have htakes : ∀ action : MemoryAction, action.takesValue = true →
      pad.pressMemory calculator action = { pad with memory := action.updated pad.memory value } :=
    fun _ ha => (pressMemory_of_ok ha hoperand).trans (hshown _)
  cases key with
  | evaluate =>
      show pad.pressEvaluate calculator = pad
      rw [pressEvaluate, hj, hv, Option.isSome_some, Bool.and_true, Bool.or_true, if_pos rfl]
      have hsame := hshown pad.memory
      rw [← hj] at hsame
      exact hsame
  | memory action =>
      match action, hk with
      | .clear, _ => rfl
      | .store, _ => exact htakes .store rfl
      | .add, _ => exact htakes .add rfl
      | .subtract, _ => exact htakes .subtract rfl
  | _ => cases hk

/-- So do any number of them, one after another. -/
theorem run_of_result (h : Coherent calculator pad) (hv : pad.lastValue = some value)
    (work : List Key) (hw : ∀ key ∈ work, key.sparesResult = true) :
    pad.run calculator work =
      { pad with memory := work.foldl (Key.recorded value) pad.memory } := by
  induction work generalizing pad with
  | nil => rfl
  | cons key work ih =>
      have hpress := press_of_result h hv (hw key List.mem_cons_self)
      have hcoherent := coherent_press h key
      rw [hpress] at hcoherent
      have hrun := ih hcoherent hv fun key hk => hw key (List.mem_cons_of_mem _ hk)
      show (pad.press calculator key).run calculator work = _
      rw [hpress, hrun]
      rfl

/-- **The result before rounding survives any memory work.** Behind an `=` that evaluates the text
to a value, the keys `=`, `MC`, `MS`, `M+` and `M−` leave the text, the display and the flags alone,
none of them fails, and the memory is what they make of it with that value, one after another. -/
theorem result_survives (calculator : Calculator) (keys work : List Key) (value : Float)
    (h : (({} : Keypad).run calculator keys).Evaluates calculator value)
    (hw : ∀ key ∈ work, key.sparesResult = true) :
    let shown := (({} : Keypad).run calculator keys).press calculator .evaluate
    shown.justEvaluated = true ∧ shown.isError = false ∧
      shown.memory = (({} : Keypad).run calculator keys).memory ∧
      shown.run calculator work =
        { shown with memory := work.foldl (Key.recorded value) shown.memory } := by
  intro shown
  have hbefore : Coherent calculator _ := coherent_run_of coherent_init keys
  have hcoherent : Coherent calculator shown := coherent_press hbefore .evaluate
  have hv : shown.lastValue = some value := lastValue_of_evaluates h
  obtain ⟨hj, hs, -⟩ := hcoherent.result value hv
  exact ⟨hj, hs, memory_press _ rfl, run_of_result hcoherent hv work hw⟩

/-- A phrase that is typed is evaluated by `=`. -/
theorem evaluates_of_typed (calculator : Calculator) (e : Typing.Phrase calculator.env .expression)
    (hd : Grammar.Derivation.depth e.derivation ≤ maxNesting) (hv : e.value = .ok value) :
    (({} : Keypad).run calculator e.keys).Evaluates calculator value := by
  have htyped : Typing.Types calculator {} e.keys (({} : Buffer).append e.text) :=
    Typing.typesText e (.inl rfl)
  obtain ⟨hbuffer, hj⟩ := htyped {} rfl rfl
  refine ⟨by rw [hj, Bool.false_and], ?_⟩
  rw [hbuffer]
  exact (Report.result_ofText (Typing.trim_text e) (Typing.text_ne_nil e)).trans
    ((Typing.evaluate_text e hd).trans hv)

/-- The phrase `1 ÷ 3`. -/
def third : Typing.Phrase {} .expression :=
  .expression false (.number (.ofDigit '1' rfl))
    (.link .divide (.number (.ofDigit '3' rfl)) .noLinks)

theorem value_third : third.value = .ok (1 / 3) := by
  let one : Typing.Numeral := .ofDigit '1' rfl
  let three : Typing.Numeral := .ofDigit '3' rfl
  have hone : one.value = 1 := by decide +kernel
  have hthree : three.value = 3 := by decide +kernel
  have hdefined : ((3 : Float) != 0) = true := by decide +kernel
  have hrow : third.value = Precedence.value false
      (Precedence.group (.ok one.value) [(.divide, .ok three.value)]) := rfl
  rw [hrow, Precedence.value_pair, hone, hthree, if_neg (by decide), if_neg (by decide)]
  exact if_pos hdefined

/-- A third is added twice, with `=` in between, and taken away again. -/
theorem result_survives_third :
    (({} : Keypad).run {} third.keys).Evaluates {} (1 / 3) ∧
      (∀ key ∈ ([.memory .add, .evaluate, .memory .add, .memory .subtract] : List Key),
        key.sparesResult = true) ∧
      (((({} : Keypad).run {} third.keys).press {} .evaluate).run {}
        [.memory .add, .evaluate, .memory .add, .memory .subtract]).memory =
          0 + 1 / 3 + 1 / 3 - 1 / 3 := by
  have hthird := evaluates_of_typed {} third (by decide) value_third
  have hwork : ∀ key ∈ ([.memory .add, .evaluate, .memory .add, .memory .subtract] : List Key),
      key.sparesResult = true := by decide
  obtain ⟨-, -, hmemory, hrun⟩ := result_survives {} third.keys _ (1 / 3) hthird hwork
  have hbefore : (({} : Keypad).run {} third.keys).memory = 0 :=
    memory_run {} third.keys (by decide)
  refine ⟨hthird, hwork, ?_⟩
  rw [hrun, hmemory, hbefore]
  rfl

end Keypad

end PocketCalc
