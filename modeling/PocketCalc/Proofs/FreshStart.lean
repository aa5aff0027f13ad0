import PocketCalc.Proofs.MemoryKeys

/-!
# A new expression starts afresh

Behind a result or an error, a key that types an operand or a parenthesis starts a new text, as if
everything had been cleared first. An error leaves no text, so from there any run of keys shows what
it would show on a cleared keypad.

The flag that marks a text as evaluated is all in which two such runs can differ, and only as long
as there is no text: `=` takes an error off the display and leaves the flag. `Alike` is the relation
that the two runs keep.
-/

namespace PocketCalc

/-- Whether the key types an operand or a parenthesis: a digit, a point, a name, a parenthesis, or
the number in memory. -/
def Key.startsText : Key → Bool
  | .digit _ | .point | .function _ | .constant _ | .openParen | .closeParen => true
  | .memory action => action == .recall
  | .operator _ | .clearAll | .clearLast | .evaluate => false

namespace Keypad

variable {calculator : Calculator} {pad pad' : Keypad} {key : Key}

/-! ## Behind a result -/

/-- **Behind a result, a new text starts as on a cleared keypad.** -/
theorem press_of_justEvaluated (pad : Keypad) (hj : pad.justEvaluated = true)
    (hk : key.startsText = true) :
    pad.press calculator key = (pad.press calculator .clearAll).press calculator key := by
  obtain ⟨buffer, memory, justEvaluated, display, isError, lastValue⟩ := pad
  cases hj
  cases key with
  | memory action =>
      match action, hk with
      | .recall, _ => rfl
  | operator _ | clearAll | clearLast | evaluate => cases hk
  | _ => rfl

/-! ## Behind an error -/

/-- The same keypad, but for the flag that marks an evaluated text where there is no text. -/
inductive Alike : Keypad → Keypad → Prop where
  | same (pad : Keypad) : Alike pad pad
  /-- Neither keypad has a text, a result or an error to show. -/
  | blank (memory : Float) (justEvaluated justEvaluated' : Bool) :
    Alike { memory, justEvaluated } { memory, justEvaluated := justEvaluated' }

/-- Without a text, a new one starts in the same way, whatever the flag says. -/
theorem press_of_blank (memory : Float) (j : Bool) (hk : key.startsText = true) :
    ({ memory, justEvaluated := j } : Keypad).press calculator key =
      ({ memory } : Keypad).press calculator key := by
  cases j with
  | false => rfl
  | true => exact press_of_justEvaluated { memory, justEvaluated := true } rfl hk

/-- **Keypads that are alike stay alike**, whatever key is pressed on both. -/
theorem alike_press (h : Alike pad pad') (key : Key) :
    Alike (pad.press calculator key) (pad'.press calculator key) := by
  cases h with
  | same pad => exact .same _
  | blank memory j j' =>
      by_cases hk : key.startsText = true
      · rw [press_of_blank memory j hk, press_of_blank memory j' hk]
        exact .same _
      cases key with
      | operator op => exact .same _
      | clearAll => exact .same _
      | clearLast => exact .same _
      | evaluate => exact .blank memory j j'
      | memory action =>
          match action with
          | .clear => exact .blank 0 j j'
          | .recall => exact absurd rfl hk
          -- the zero on the display is worked with, and the flag is set on both
          | .store => exact .same _
          | .add => exact .same _
          | .subtract => exact .same _
      | _ => exact absurd rfl hk

theorem alike_run (h : Alike pad pad') (keys : List Key) :
    Alike (pad.run calculator keys) (pad'.run calculator keys) := by
  induction keys generalizing pad pad' with
  | nil => exact h
  | cons key keys ih => exact ih (alike_press h key)

/-- What a keypad with an error on the display is made of. -/
theorem eq_of_isError (h : Coherent calculator pad) (hs : pad.isError = true) :
    pad = { memory := pad.memory, display := pad.display, justEvaluated := true,
            isError := true } := by
  obtain ⟨hbuffer, hj, hv, -⟩ := h.error hs
  obtain ⟨⟨chars⟩, memory, justEvaluated, display, isError, lastValue⟩ := pad
  cases List.isEmpty_iff.mp hbuffer
  cases hj
  cases hv
  cases hs
  rfl

/-- **The first key behind an error takes it off**, unless the key writes to the memory: what is
left is like a keypad that was cleared before. -/
theorem alike_press_of_isError (h : Coherent calculator pad) (hs : pad.isError = true)
    (hk : key.writesMemory = false) :
    Alike (pad.press calculator key) ((pad.press calculator .clearAll).press calculator key) := by
  rw [eq_of_isError h hs]
  cases key with
  | evaluate => exact .blank pad.memory true false
  | memory action =>
      match action, hk with
      | .recall, _ => exact .same _
  | _ => exact .same _

/-- The same text, display, memory and error flag; and where there is a text, the same answer to
whether the next number starts a new one. -/
structure ShowsAlike (pad pad' : Keypad) : Prop where
  display : pad.display = pad'.display
  buffer : pad.buffer = pad'.buffer
  memory : pad.memory = pad'.memory
  isError : pad.isError = pad'.isError
  justEvaluated : pad.buffer.isEmpty = false → pad.justEvaluated = pad'.justEvaluated

theorem Alike.showsAlike (h : Alike pad pad') : ShowsAlike pad pad' := by
  cases h with
  | same pad => exact ⟨rfl, rfl, rfl, rfl, fun _ => rfl⟩
  | blank memory j j' => exact ⟨rfl, rfl, rfl, rfl, nofun⟩

/-- **What came before has no influence on a new expression.** Behind a result or an error, a key
that types an operand or a parenthesis leads where it leads on a cleared keypad. And from an error
on, whatever keys are pressed show the same as on a cleared keypad after each of them, if the first
does not write to the memory. -/
theorem fresh_start (calculator : Calculator) :
    (∀ (pad : Keypad) (key : Key), pad.justEvaluated = true → key.startsText = true →
      pad.press calculator key = (pad.press calculator .clearAll).press calculator key) ∧
    ∀ (before : List Key) (key : Key) (keys : List Key),
      (({} : Keypad).run calculator before).isError = true → key.writesMemory = false →
        ShowsAlike ((({} : Keypad).run calculator before).run calculator (key :: keys))
          (((({} : Keypad).run calculator before).press calculator .clearAll).run calculator
            (key :: keys)) := by
  refine ⟨fun pad _ hj hk => press_of_justEvaluated pad hj hk, fun before key keys hs hk => ?_⟩
  have hcoherent : Coherent calculator _ := coherent_run_of coherent_init before
  exact (alike_run (alike_press_of_isError hcoherent hs hk) keys).showsAlike

/-- A parenthesis is opened behind the result `7`, and a sum is typed behind the error of `1 ÷ 0`. -/
theorem fresh_start_zeroDivisor :
    let shown := ({} : Keypad).run {} [.digit '7', .evaluate]
    let failed := ({} : Keypad).run {} (zeroDivisor ++ [.evaluate])
    let sum : List Key := [.digit '2', .operator .add, .digit '3', .evaluate]
    (shown.justEvaluated = true ∧ shown.display = "7" ∧
      shown.press {} .openParen = (shown.press {} .clearAll).press {} .openParen) ∧
    failed.isError = true ∧ failed.display = "Error: Division by zero" ∧
      ShowsAlike (failed.run {} sum) ((failed.press {} .clearAll).run {} sum) ∧
      (failed.run {} sum).display = "5" := by
  intro shown failed sum
  have hshown : shown.justEvaluated = true ∧ shown.display = "7" := by decide +kernel
  have hfailed : failed.isError = true ∧ failed.display = "Error: Division by zero" := by
    decide +kernel
  obtain ⟨hresult, herror⟩ := fresh_start {}
  have hparen := hresult shown .openParen hshown.1 rfl
  have halike := herror (zeroDivisor ++ [.evaluate]) (.digit '2')
    [.operator .add, .digit '3', .evaluate] hfailed.1 rfl
  have hdisplay : (failed.run {} sum).display = "5" := by decide +kernel
  exact ⟨⟨hshown.1, hshown.2, hparen⟩, hfailed.1, hfailed.2, halike, hdisplay⟩

end Keypad

end PocketCalc
