import Trpc.Theory.Scan.Total

/-!
# Reading up to the Terminator

When `parse` is given a NUL-terminated text, does it stop at the terminator?
Almost every place where the parser looks at a byte treats NUL as any other
byte that cannot go on, and stops. Two kinds of place do not. The loop of
`parseString` tests the pointer instead of the byte it points to, so a string
without its closing quote runs on past the terminator, and so does the byte
behind a backslash. The letters `n`, `t` and `f` move the cursor by four or
five bytes without looking at them, so inside brackets a literal cut short
moves it past the terminator, and the byte looked at next lies beyond.

`stopsAtTerminator` is the condition on the text that excludes both, together
with an exponent outside the table of powers and with a name that comes again
behind a value on the heap. It asks where the text leaves the reading machine.
`parseText_ends_iff` says that it is exactly the condition under which `parse`
ends with a value or a `JsonException`.

## Main definitions

* `Mode.takesNul`: The modes in which the terminator is passed over.
* `stopsAtTerminator`: The text leaves the machine in no such mode.

## Theorems

* `step_nul`: What the machine does at the terminator.
* `parseText_ends_iff`: When `parse` ends inside its text.
* `parseText_open_string`: A text on which it does not.
-/

namespace Vsjson

namespace Scan

variable {D : Type}

/-- The modes in which the next byte goes by unseen: inside a string, behind a
    backslash, and within the width of a literal. -/
def Mode.takesNul : Mode → Bool
  | .string _ _ => true
  | .escape _ _ => true
  | .skip _ => true
  | _ => false

/-- Behind a value the terminator ends the text, or is not the comma that is missing. -/
theorem settle_nul (K : List Ctx) :
    settle K Ch.nul = .stop .done ∨ settle K Ch.nul = .stop .throw := by
  cases K with
  | nil => exact Or.inl rfl
  | cons x K => cases x <;> exact Or.inr rfl

/-- A null that the terminator is taken for has a place to go, or has none. -/
theorem finish_nul (K : List Ctx) : finish K Ch.nul = .stop .done ∨
    finish K Ch.nul = .stop .throw ∨ finish K Ch.nul = .stop .doubleFree := by
  unfold finish
  cases note false K with
  | none => exact Or.inr (Or.inr rfl)
  | some K' =>
      rcases settle_nul K' with h | h
      · exact Or.inl h
      · exact Or.inr (Or.inl h)

/-- At the terminator the machine either takes it along, depending on the mode
    alone, or stops. -/
theorem step_nul (m : Mode) (K : List Ctx) :
    if m.takesNul then ∃ m' K', step m K Ch.nul = .go m' K'
    else step m K Ch.nul = .stop .done ∨ step m K Ch.nul = .stop .throw ∨
      step m K Ch.nul = .stop .doubleFree := by
  cases m with
  | string isKey s => exact ⟨_, _, rfl⟩
  | escape isKey s => exact ⟨_, _, rfl⟩
  -- Within the width of a literal no byte is looked at.
  | skip k => cases k <;> exact ⟨_, _, rfl⟩
  | value => exact finish_nul K
  | firstElem => exact finish_nul K
  | after =>
      -- Behind a nested value nothing is noted, so nothing is freed.
      rcases settle_nul K with h | h
      · exact Or.inl h
      · exact Or.inr (Or.inl h)
  | minus => exact finish_nul K
  | _ => exact Or.inr (Or.inl rfl)

/-- Reading the text leaves the machine in no mode that takes the terminator
    along, and meets no exponent outside the table of powers, and no name that comes
    again behind a value on the heap, be it that of the null which the terminator is
    taken for. -/
def stopsAtTerminator (s : Str) : Bool :=
  match behind .value [] s with
  | .go m K => !m.takesNul && decide (step m K Ch.nul ≠ .stop .doubleFree)
  | .stop .powIndex => false
  | .stop .doubleFree => false
  | .stop _ => true

/-- The machine's verdict on a text with its terminator depends on where it is behind the
    text. -/
theorem verdict_terminated (s : Str) :
    (verdict (s ++ [Ch.nul]) = some .done ∨ verdict (s ++ [Ch.nul]) = some .throw) ↔
      stopsAtTerminator s = true := by
  simp only [verdict, feed_append, stopsAtTerminator]
  cases behind .value [] s with
  | stop x => cases x <;> simp
  | go m K =>
      have h := step_nul m K
      simp only [proceed_go, feed_cons]
      -- Taken along, the terminator leaves the machine without a verdict.
      by_cases hm : m.takesNul = true
      · rw [if_pos hm] at h
        rcases h with ⟨m', K', h⟩
        simp [h, hm]
      · rw [if_neg hm] at h
        rcases h with h | h | h <;> simp [h, hm]

/-- `parse` of a NUL-terminated text ends, inside the text and its terminator,
    with a value or a `JsonException`, exactly when the text stops the machine
    at the terminator at the latest. -/
theorem parseText_ends_iff [DecimalImpl D] (s : Str) :
    ((∃ j : Json D, parseText s = .ok j) ∨
      (∃ what, parseText (D := D) s = .throw (.json what))) ↔ stopsAtTerminator s = true := by
  rw [← verdict_terminated]
  simp only [parseText]
  -- The five ways of ending are the four stops of the machine, and none.
  rcases parse_spec (D := D) (s ++ [Ch.nul]) with ⟨j, h, hv⟩ | ⟨w, h, hv⟩ | ⟨h, hv⟩ | ⟨h, hv⟩ |
      ⟨h, hv⟩ <;> rw [h, hv] <;> simp

/-- A single quote opens a string that nothing closes, and the parser reads
    past the terminator. -/
theorem parseText_open_string :
    ¬ ((∃ j : Json Unit, parseText [Ch.quote] = .ok j) ∨
      (∃ what, parseText (D := Unit) [Ch.quote] = .throw (.json what))) := by
  -- The loop ends where the memory does.
  have h : parseText (D := Unit) [Ch.quote] = .fault .overrun := by decide
  rw [h]
  rintro (⟨j, hj⟩ | ⟨what, hw⟩)
  · exact absurd hj (by simp only [reduceCtorEq, not_false_eq_true])
  · exact absurd hw (by simp only [reduceCtorEq, not_false_eq_true])

-- A name that comes twice. The array that was there is destroyed twice.
example : parseText (D := Unit) (text "\x7b\"a\":[1],\"a\":2\x7d") = .fault .doubleFree := by
  decide +kernel

end Scan

end Vsjson
