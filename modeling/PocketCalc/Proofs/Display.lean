import PocketCalc.Keypad

/-!
# The display never falls out of step

The display, the error flag and the last result are fields of their own, and each key updates those
it has a use for. `Coherent` says how they hang together, and every key keeps it.

All keys but `MC` end in one of two ways: the display is refreshed from the text, or the text is
given up over an error. A refreshed keypad is coherent as soon as its last result still belongs to
its text, and a failed one is coherent whatever came before it.
-/

namespace PocketCalc

namespace Keypad

/-- The last result, where there is one, was just evaluated and its shown form is the text. -/
def ResultShown (calculator : Calculator) (pad : Keypad) : Prop :=
  ∀ value, pad.lastValue = some value →
    pad.justEvaluated = true ∧ pad.buffer.chars = calculator.shown value

/-- What the display, the flags and the last result say of each other. -/
structure Coherent (calculator : Calculator) (pad : Keypad) : Prop where
  /-- Without an error the display shows the text, or a zero where there is none. -/
  text : pad.isError = false →
    pad.display = if pad.buffer.isEmpty then "0" else pad.buffer.text
  /-- An error on the display leaves neither a text nor a result. -/
  error : pad.isError = true →
    pad.buffer.isEmpty = true ∧ pad.justEvaluated = true ∧ pad.lastValue = none ∧
      ∃ error : Error, pad.display = error.shortMessage
  /-- A result is kept only as long as the text is its shown form. -/
  result : ∀ value, pad.lastValue = some value →
    pad.justEvaluated = true ∧ pad.isError = false ∧ pad.buffer.chars = calculator.shown value

variable {calculator : Calculator} {pad : Keypad}

theorem Coherent.resultShown (h : Coherent calculator pad) : ResultShown calculator pad :=
  fun value hv => ⟨(h.result value hv).1, (h.result value hv).2.2⟩

/-! ## The two ways in which a key ends -/

theorem coherent_refreshed (h : ResultShown calculator pad) :
    Coherent calculator pad.refreshed where
  text _ := rfl
  error he := by cases he
  result value hv := ⟨(h value hv).1, rfl, (h value hv).2⟩

theorem coherent_fail (error : Error) : Coherent calculator (pad.fail error) where
  text he := by cases he
  error _ := ⟨rfl, rfl, rfl, error, rfl⟩
  result value hv := by cases hv

/-- What is typed leaves no result behind. -/
theorem coherent_enter (h : pad.lastValue = none) (buffer : Buffer) :
    Coherent calculator (pad.enter buffer) := by
  refine coherent_refreshed fun value hv => ?_
  have hn : pad.lastValue = some value := hv
  rw [h] at hn
  cases hn

/-! ## Each key -/

theorem coherent_insertTerm (h : pad.lastValue = none) (term : List Char) (fresh : Bool) :
    Coherent calculator (pad.insertTerm term fresh) :=
  coherent_enter h _

theorem coherent_evaluate (h : Coherent calculator pad) :
    Coherent calculator (pad.pressEvaluate calculator) := by
  unfold pressEvaluate
  split
  · -- a result that is on the display already stays there
    exact coherent_refreshed h.resultShown
  · split
    · rename_i hr
      refine coherent_refreshed fun value hv => ?_
      cases hv
      exact ⟨rfl, Report.display_of_success hr⟩
    · exact coherent_fail _

/-- A memory key leaves the text alone, and so the result that is shown. -/
theorem coherent_updateMemory (h : Coherent calculator pad)
    (update : Float → Except Error Float) :
    Coherent calculator (pad.updateMemory calculator update) := by
  unfold updateMemory
  split
  · exact coherent_refreshed fun value hv => ⟨rfl, (h.resultShown value hv).2⟩
  · exact coherent_fail _

theorem coherent_memory (h : Coherent calculator pad) (action : MemoryAction) :
    Coherent calculator (pad.pressMemory calculator action) := by
  match action with
  -- `MC` refreshes nothing, and nothing that it changes is shown
  | .clear => exact ⟨h.text, h.error, h.result⟩
  | .recall => exact coherent_insertTerm rfl _ _
  | .store => exact coherent_updateMemory h _
  | .add => exact coherent_updateMemory h _
  | .subtract => exact coherent_updateMemory h _

/-- **Every key keeps the keypad coherent.** -/
theorem coherent_press (h : Coherent calculator pad) (key : Key) :
    Coherent calculator (pad.press calculator key) := by
  cases key with
  | digit c => exact coherent_enter rfl _
  | point => exact coherent_enter rfl _
  | operator op => exact coherent_enter rfl _
  | function name => exact coherent_insertTerm rfl _ _
  | constant name => exact coherent_insertTerm rfl _ _
  | openParen => exact coherent_enter rfl _
  | closeParen => exact coherent_enter rfl _
  | clearAll => exact coherent_enter rfl _
  | clearLast => exact coherent_enter rfl _
  | evaluate => exact coherent_evaluate h
  | memory action => exact coherent_memory h action

theorem coherent_init : Coherent calculator {} where
  text _ := rfl
  error he := by cases he
  result value hv := by cases hv

theorem coherent_run_of (h : Coherent calculator pad) (keys : List Key) :
    Coherent calculator (pad.run calculator keys) := by
  induction keys generalizing pad with
  | nil => exact h
  | cons key keys ih => exact ih (coherent_press h key)

/-- **The display is coherent in every state that keys lead to**: without an error it shows the
text, an error leaves neither text nor result, and a result that is kept is the one whose shown
form is the text. -/
theorem coherent_run (calculator : Calculator) (keys : List Key) :
    Coherent calculator (({} : Keypad).run calculator keys) :=
  coherent_run_of coherent_init keys

end Keypad

end PocketCalc
