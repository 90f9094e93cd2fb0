import CFlat.Syringe.Serial

/-!
# Bounds — the input that keeps the pump inside its buffer

`readSerial` does not look at the size of `serialStr`, and `toUInt` not at the size of an `int`.
What keeps both in bounds is the input alone.
-/

namespace CFlat
namespace Syringe

open Lib

variable {s : Pump}

/-- With these bytes waiting, the input never has more than 80 bytes waiting for a terminator, and
whatever a terminator makes the pump interpret as a number is in range. -/
def StaysInBounds : List UInt8 → List (List UInt8) → Prop
  | _, [] => True
  | waiting, l :: ls =>
      (waiting ++ stored l).length ≤ 80 ∧
        if l.any isTerminator then InRange (waiting ++ stored l) ∧ StaysInBounds [] ls
        else StaysInBounds (waiting ++ stored l) ls

instance decidableStaysInBounds : (waiting : List UInt8) → (ls : List (List UInt8)) →
    Decidable (StaysInBounds waiting ls)
  | _, [] => isTrue trivial
  | waiting, l :: ls =>
      have := decidableStaysInBounds [] ls
      have := decidableStaysInBounds (waiting ++ stored l) ls
      inferInstanceAs (Decidable (_ ∧ ite _ _ _))

theorem inRange_nil : InRange [] := .inr (.inr (Nat.zero_le _))

/-- A loop stays in its bounds exactly when its input allows it, and then leaves the bytes waiting
that the input leaves. -/
theorem LoopCase.staysInBounds_cons {l : List UInt8} {ls : List (List UInt8)} {out : Option Pump}
    (h : LoopCase s l out) :
    StaysInBounds s.waiting (l :: ls) ↔ ∃ s', out = some s' ∧ StaysInBounds s'.waiting ls := by
  cases h with
  | overruns hover =>
      constructor
      · intro hstays
        exact absurd hstays.1 (Nat.not_le.2 hover)
      · rintro ⟨_, hnone, -⟩
        simp at hnone
  | overflows hterm hrange =>
      constructor
      · intro hstays
        have hthen := hstays.2
        rw [if_pos hterm] at hthen
        exact absurd hthen.1 hrange
      · rintro ⟨_, hnone, -⟩
        simp at hnone
  | waits hfit hterm hrests hwaiting hactions =>
      simp only [StaysInBounds, hterm, Bool.false_eq_true, if_false, Option.some.injEq,
        exists_eq_left', hwaiting]
      exact and_iff_right hfit
  | obeys hfit hterm hrange ha hrests hwaiting hactions =>
      simp only [StaysInBounds, hterm, if_true, Option.some.injEq, exists_eq_left', hwaiting]
      exact (and_iff_right hfit).trans (and_iff_right hrange)
  | repeats hterm hempty hrests hwaiting hactions =>
      have hfit : (s.collected l).length ≤ 80 := by simp [hempty]
      have hrange : InRange (s.collected l) := hempty ▸ inRange_nil
      simp only [StaysInBounds, hterm, if_true, Option.some.injEq, exists_eq_left', hwaiting]
      exact (and_iff_right hfit).trans (and_iff_right hrange)

/-- A run from a pump between two loops has a result exactly when its input stays in bounds. -/
theorem isSome_processCommands_iff (cmds : List (List UInt8)) (h : Rests s) :
    (processCommands cmds s).result.isSome = true ↔
      StaysInBounds s.waiting (cmds.map received) := by
  induction cmds generalizing s with
  | nil => simp [processCommands, StaysInBounds]
  | cons cmd cmds ih =>
      have hcase := processCommand_case cmd h
      rw [List.map_cons, hcase.staysInBounds_cons, result_processCommands_cons]
      cases hout : (processCommand cmd s).result with
      | none => simp
      | some s' =>
          rw [hout] at hcase
          simpa using ih hcase.rests

/-- Serial input keeps every access of the pump in bounds exactly when at most 80 bytes ever wait
for a terminator and every number that is read is an `int`. -/
theorem inBounds_iff_staysInBounds (cmds : List (List UInt8)) :
    (∀ a ∈ (processCommands cmds .start).log, a.inBounds = true) ↔
      StaysInBounds [] (cmds.map received) :=
  (checked_processCommands cmds .start).trans (isSome_processCommands_iff cmds rests_start)

example : StaysInBounds [] (mainCommands.map received) := by decide +kernel

/-- 81 bytes without a terminator are written past the end of the buffer, and ten nines are no
`int`. -/
theorem serial_leaves_bounds :
    (.write 80 ∈ (processCommands [List.replicate 81 '1'.toUInt8] .start).log ∧
      ¬ ∀ a ∈ (processCommands [List.replicate 81 '1'.toUInt8] .start).log,
        a.inBounds = true) ∧
    .accumulate 9999999999 ∈ (processCommands [bytes "9999999999\n"] .start).log ∧
      ¬ ∀ a ∈ (processCommands [bytes "9999999999\n"] .start).log, a.inBounds = true := by
  decide +kernel

end Syringe
end CFlat
