import Mathlib.Data.List.Basic

/-!
# Traced — computations that record what they do

A computation logs every checked action before it performs it, and stops at the first one that is
not allowed: what a program does after undefined behaviour is not described.  `Checked` says that
the log tells the two ends apart, so that "every action was allowed" can be proved of results.
-/

namespace CFlat
namespace Lib

/-- The actions that a computation made, and its result if all of them were allowed. -/
structure Traced (A : Type*) (α : Type) where
  log : List A
  result : Option α
  deriving DecidableEq, Repr

namespace Traced

variable {A : Type*} {α β : Type} {allowed : A → Bool}

instance : Monad (Traced A) where
  pure x := ⟨[], some x⟩
  bind m f :=
    match m.result with
    | none => ⟨m.log, none⟩
    | some x => ⟨m.log ++ (f x).log, (f x).result⟩

/-- Log an action and perform it, if it is allowed. -/
def check (allowed : A → Bool) (a : A) : Traced A Unit :=
  ⟨[a], if allowed a then some () else none⟩

@[simp] theorem result_pure (x : α) : (pure x : Traced A α).result = some x := rfl

@[simp] theorem result_bind (m : Traced A α) (f : α → Traced A β) :
    (m >>= f).result = m.result.bind fun x => (f x).result := by
  rcases m with ⟨log, result⟩
  cases result with
  | none => rfl
  | some x => rfl

@[simp] theorem result_check (a : A) :
    (check allowed a).result = if allowed a then some () else none := rfl

theorem result_ite (p : Prop) [Decidable p] (m m' : Traced A α) :
    (if p then m else m').result = if p then m.result else m'.result := by
  split
  · rfl
  · rfl

/-- The computation has a result exactly when it made no action that is not allowed. -/
def Checked (allowed : A → Bool) (m : Traced A α) : Prop :=
  (∀ a ∈ m.log, allowed a = true) ↔ m.result.isSome = true

theorem checked_pure (x : α) : Checked allowed (pure x : Traced A α) := by
  constructor
  · exact fun _ => rfl
  · intro _ a ha
    exact absurd ha List.not_mem_nil

theorem checked_check (a : A) : Checked allowed (check allowed a) := by
  cases h : allowed a with
  | true => simp [Checked, check, h]
  | false => simp [Checked, check, h]

theorem Checked.bind {m : Traced A α} {f : α → Traced A β} (hm : Checked allowed m)
    (hf : ∀ x, Checked allowed (f x)) : Checked allowed (m >>= f) := by
  rcases m with ⟨log, result⟩
  cases result with
  | none =>
      -- The action that stopped `m` is in the log of the whole.
      have hstopped : ¬ ∀ a ∈ log, allowed a = true := fun h => by simpa using hm.1 h
      exact ⟨fun h => absurd h hstopped, fun h => by simp at h⟩
  | some x =>
      have hlog : ∀ a ∈ log, allowed a = true := hm.2 rfl
      constructor
      · intro h
        exact (hf x).1 fun a ha => h a (List.mem_append_right _ ha)
      · intro h a ha
        rcases List.mem_append.1 ha with ha | ha
        · exact hlog a ha
        · exact (hf x).2 h a ha

theorem Checked.ite {p : Prop} [Decidable p] {m m' : Traced A α} (hm : Checked allowed m)
    (hm' : Checked allowed m') : Checked allowed (if p then m else m') := by
  split
  · exact hm
  · exact hm'

end Traced

end Lib
end CFlat
