import Mathlib.Data.List.Basic

/-!
# Segments — the parts of a stream between its separators

`segments p l cur` reads `l` behind the open segment `cur`: the segments that `l` closes, and the
one that it leaves open.  Reading a stream in parts reads it as a whole.
-/

namespace CFlat
namespace Lib

variable {α : Type*} {p : α → Bool}

def segments (p : α → Bool) : List α → List α → List (List α) × List α
  | [], cur => ([], cur)
  | x :: xs, cur =>
      if p x then (cur :: (segments p xs []).1, (segments p xs []).2)
      else segments p xs (cur ++ [x])

@[simp] theorem segments_nil (p : α → Bool) (cur : List α) : segments p [] cur = ([], cur) := rfl

theorem segments_append (p : α → Bool) (l l' cur : List α) :
    segments p (l ++ l') cur =
      ((segments p l cur).1 ++ (segments p l' (segments p l cur).2).1,
        (segments p l' (segments p l cur).2).2) := by
  induction l generalizing cur with
  | nil => rfl
  | cons x xs ih =>
      cases hx : p x with
      | true => simp [segments, hx, ih]
      | false => simp [segments, hx, ih]

/-- Only the separators are lost. -/
theorem flatten_segments (p : α → Bool) (l cur : List α) :
    (segments p l cur).1.flatten ++ (segments p l cur).2 = cur ++ l.filter fun x => !p x := by
  induction l generalizing cur with
  | nil => simp
  | cons x xs ih =>
      cases hx : p x with
      | true =>
          have htail := ih []
          simp only [segments, hx, if_true, List.flatten_cons, List.append_assoc, htail]
          simp [hx]
      | false => simp [segments, hx, ih]

theorem segments_of_not_any {l : List α} (h : l.any p = false) (cur : List α) :
    segments p l cur = ([], cur ++ l) := by
  induction l generalizing cur with
  | nil => simp
  | cons x xs ih =>
      obtain ⟨hx, hxs⟩ : p x = false ∧ xs.any p = false := by simpa using h
      simp [segments, hx, ih hxs]

end Lib
end CFlat
