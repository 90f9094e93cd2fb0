import Mathlib.Data.Nat.ModEq
import CFlat.Lib.FirstFit

/-!
# Tally — sums over a table, modulo the width of its counters

Counters of fixed width wrap, so a sum of counters over a table is known modulo their width only.
The lemmas say how such a sum changes when one entry of the table is updated.
-/

namespace CFlat
namespace Lib

variable {α : Type*} {n d : Nat} {f : α → α} {g : α → Nat} {l : List α}

theorem sum_map_filter (q : α → Bool) (g : α → Nat) (l : List α) :
    ((l.filter q).map g).sum = (l.map fun x => if q x then g x else 0).sum := by
  induction l with
  | nil => rfl
  | cons x xs ih =>
      cases hx : q x with
      | true => simp [hx, ih]
      | false => simp [hx, ih]

/-- Updating the first match adds what it adds to a match. -/
theorem sum_updateFirst {p : α → Bool}
    (heff : ∀ x ∈ l, p x = true → g (f x) ≡ g x + d [MOD n]) (hex : ∃ x ∈ l, p x = true) :
    ((updateFirst p f l).map g).sum ≡ (l.map g).sum + d [MOD n] := by
  induction l with
  | nil => simp at hex
  | cons x xs ih =>
      cases hx : p x with
      | true =>
          have hhead : g (f x) ≡ g x + d [MOD n] := heff x (by simp) hx
          have hsum := hhead.add_right (xs.map g).sum
          simpa [updateFirst, hx, Nat.add_right_comm] using hsum
      | false =>
          have hex' : ∃ y ∈ xs, p y = true := by simpa [hx] using hex
          have htail := ih (fun y hy => heff y (by simp [hy])) hex'
          have hsum := htail.add_left (g x)
          simpa [updateFirst, hx, Nat.add_assoc] using hsum

/-- Updating an entry adds what it adds to this entry. -/
theorem sum_modify {i : Nat} {x : α} (hx : l[i]? = some x) (heff : g (f x) ≡ g x + d [MOD n]) :
    ((l.modify i f).map g).sum ≡ (l.map g).sum + d [MOD n] := by
  induction l generalizing i with
  | nil => simp at hx
  | cons y ys ih =>
      cases i with
      | zero =>
          obtain rfl : y = x := by simpa using hx
          have hsum := heff.add_right (ys.map g).sum
          simpa [Nat.add_right_comm] using hsum
      | succ i =>
          have htail := ih (i := i) (by simpa using hx)
          have hsum := htail.add_left (g y)
          simpa [Nat.add_assoc] using hsum

end Lib
end CFlat
