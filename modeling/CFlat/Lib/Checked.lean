import CFlat.Lib.FirstFit
import CFlat.Lib.Bytes

/-!
# Checked — array accesses that fail outside their bounds

An access of C code to an array of fixed size, with the index it computes: `read?`, `modify?` and
`move?` give nothing when the index leaves the array, and so do the loops built from them.  Inside
the bounds they agree with the total operations of `CFlat.Lib.FirstFit` and `CFlat.Lib.Bytes`, so a
program over checked accesses that gives a result has stayed inside its arrays.
-/

namespace CFlat
namespace Lib

variable {α : Type*} {n : Nat}

/-! ## Single accesses -/

/-- The entry at a signed index. -/
def read? (v : Vector α n) (i : Int) : Option α :=
  if 0 ≤ i then v.toList[i.toNat]? else none

/-- Rewrite the entry at a signed index. -/
def modify? (v : Vector α n) (i : Int) (f : α → α) : Option (Vector α n) :=
  if 0 ≤ i ∧ i < n then some (modifyAt v i.toNat f) else none

/-- Copy bytes to an offset, if the buffer has room for all of them. -/
def move? (buf : Vector UInt8 n) (off : Nat) (src : List UInt8) : Option (Vector UInt8 n) :=
  if off + src.length ≤ n then some (memMove buf off src) else none

/-- The first `k` entries, if there are that many. -/
def slice? (v : Vector α n) (k : Nat) : Option (List α) :=
  if k ≤ n then some (v.toList.take k) else none

theorem read?_natCast (v : Vector α n) (i : Nat) : read? v i = v.toList[i]? := by
  simp [read?]

theorem modify?_eq (v : Vector α n) {i : Int} (f : α → α) (h₀ : 0 ≤ i) (h₁ : i < n) :
    modify? v i f = some (modifyAt v i.toNat f) := if_pos ⟨h₀, h₁⟩

theorem move?_eq (buf : Vector UInt8 n) {off k : Nat} {src : List UInt8} (hlen : src.length = k)
    (hfit : off + k ≤ n) : move? buf off src = some (memMove buf off src) := by
  subst hlen
  exact if_pos hfit

theorem slice?_eq (v : Vector α n) {k : Nat} (hk : k ≤ n) : slice? v k = some (v.toList.take k) :=
  if_pos hk

/-! ## Loops -/

/-- `for (i = start; i < start + k; i++)`: the first index whose entry satisfies `p`. -/
def searchUp? (p : α → Bool) (v : Vector α n) : (k start : Nat) → Option (Option Nat)
  | 0, _ => some none
  | k + 1, start =>
      match read? v start with
      | none => none
      | some x => if p x then some (some start) else searchUp? p v k (start + 1)

/-- `for (i = k - 1; i >= 0; i--)`: the last index below `k` whose entry satisfies `p`. -/
def searchDown? (p : α → Bool) (v : Vector α n) : (k : Nat) → Option (Option Nat)
  | 0 => some none
  | k + 1 =>
      match read? v k with
      | none => none
      | some x => if p x then some (some k) else searchDown? p v k

/-- `for (i = start; i < start + k; i++)`: rewrite every entry. -/
def modifyAll? (f : α → α) : (k start : Nat) → Vector α n → Option (Vector α n)
  | 0, _, v => some v
  | k + 1, start, v =>
      match modify? v start f with
      | none => none
      | some v => modifyAll? f k (start + 1) v

theorem searchUp?_eq (p : α → Bool) (v : Vector α n) {k start : Nat} (hk : start + k ≤ n) :
    searchUp? p v k start =
      some ((((v.toList.drop start).take k).findIdx? p).map (· + start)) := by
  induction k generalizing start with
  | zero => simp [searchUp?]
  | succ k ih =>
      have hlt : start < v.toList.length := by
        simp only [Vector.length_toList]
        omega
      have htail := @ih (start + 1) (by omega)
      rw [searchUp?, read?_natCast, List.getElem?_eq_getElem hlt, List.drop_eq_getElem_cons hlt,
        List.take_succ_cons, List.findIdx?_cons]
      by_cases hx : p v.toList[start]
      · simp only [hx, if_true, Option.map_some, Nat.zero_add]
      · simp only [hx, htail, Bool.false_eq_true, if_false, Option.map_map, Function.comp_def,
          Nat.add_assoc, Nat.add_comm 1]

theorem findLastIdx?_concat (p : α → Bool) (l : List α) (x : α) :
    findLastIdx? p (l ++ [x]) = if p x then some l.length else findLastIdx? p l := by
  induction l with
  | nil => rfl
  | cons y ys ih =>
      rw [List.cons_append, findLastIdx?, ih, findLastIdx?]
      by_cases hx : p x
      · simp [hx]
      · simp [hx]

theorem searchDown?_eq (p : α → Bool) (v : Vector α n) {k : Nat} (hk : k ≤ n) :
    searchDown? p v k = some (findLastIdx? p (v.toList.take k)) := by
  induction k with
  | zero => rfl
  | succ k ih =>
      have hlt : k < v.toList.length := by
        simp only [Vector.length_toList]
        omega
      have hlen : (v.toList.take k).length = k := List.length_take_of_le (Nat.le_of_lt hlt)
      rw [searchDown?, read?_natCast, List.getElem?_eq_getElem hlt,
        List.take_succ_eq_append_getElem hlt, findLastIdx?_concat, hlen, apply_ite some,
        ih (by omega)]

theorem modifyAll?_eq (f : α → α) {k start : Nat} (v : Vector α n) (hk : start + k ≤ n) :
    modifyAll? f k start v =
      some ((List.range' start k).foldl (fun v i => modifyAt v i f) v) := by
  induction k generalizing start v with
  | zero => rfl
  | succ k ih =>
      have hmod : modify? v start f = some (modifyAt v start f) :=
        modify?_eq v f (Int.natCast_nonneg start) (by omega)
      rw [modifyAll?, hmod]
      exact ih (modifyAt v start f) (by omega)

end Lib
end CFlat
