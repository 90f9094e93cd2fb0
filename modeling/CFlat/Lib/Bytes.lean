import Mathlib.Data.List.Basic
import Mathlib.Algebra.Group.Nat.Defs
import Mathlib.Algebra.Group.Int.Defs

/-!
# Bytes — byte buffers and little-endian words

`memMove` copies a list of bytes into a buffer of fixed size at an offset; consecutive copies
build up the concatenation of what they copied (`take_memMove`).  `leBytes k` writes a number as
`k` bytes, least significant byte first, and `leValue` reads it back; any bytes are those of a
number.
-/

namespace CFlat
namespace Lib

/-! ## Buffers -/

/-- Copy `src` into the buffer at offset `off`; a byte that falls outside the buffer is dropped. -/
def memMove {n : Nat} (buf : Vector UInt8 n) (off : Nat) (src : List UInt8) : Vector UInt8 n :=
  Vector.ofFn fun i =>
    if off ≤ i.val then (src[i.val - off]?).getD buf[i] else buf[i]

theorem getElem_memMove {n : Nat} (buf : Vector UInt8 n) (off : Nat) (src : List UInt8) {i : Nat}
    (hi : i < n) :
    (memMove buf off src)[i] =
      if off ≤ i then (src[i - off]?).getD buf[i] else buf[i] := by
  simp [memMove]

/-- A copy inside the buffer appends to what stands before the offset. -/
theorem take_memMove {n : Nat} {buf : Vector UInt8 n} {off k : Nat} {done src : List UInt8}
    (hdone : buf.toList.take off = done) (hlen : src.length = k) (hfit : off + k ≤ n) :
    (memMove buf off src).toList.take (off + k) = done ++ src := by
  subst hdone hlen
  apply List.ext_getElem
  · simp
    omega
  · intro i h₁ h₂
    have hi : i < off + src.length := by
      simp at h₁
      omega
    by_cases hoff : off ≤ i
    · have hsrc : i - off < src.length := by omega
      have hmin : min off n = off := by omega
      simp [List.getElem_take, getElem_memMove, hoff, hmin, List.getElem?_eq_getElem hsrc]
    · have hleft : i < (buf.toList.take off).length := by
        simp
        omega
      simp [List.getElem_take, getElem_memMove, hoff, List.getElem_append_left hleft]

/-! ## Little-endian words -/

/-- The `k` bytes of a number, least significant first. -/
def leBytes : Nat → Nat → List UInt8
  | 0, _ => []
  | k + 1, n => UInt8.ofNat (n % 256) :: leBytes k (n / 256)

@[simp] theorem length_leBytes (k n : Nat) : (leBytes k n).length = k := by
  induction k generalizing n with
  | zero => rfl
  | succ k ih => simp [leBytes, ih]

/-- The number that bytes stand for, least significant first. -/
def leValue : List UInt8 → Nat
  | [] => 0
  | b :: bs => b.toNat + 256 * leValue bs

/-- Within its range a number is read back from its bytes. -/
theorem leValue_leBytes {k n : Nat} (h : n < 256 ^ k) : leValue (leBytes k n) = n := by
  induction k generalizing n with
  | zero =>
      have hzero : n = 0 := Nat.lt_one_iff.1 h
      rw [hzero]
      rfl
  | succ k ih =>
      have hdiv : n / 256 < 256 ^ k := by
        rw [Nat.div_lt_iff_lt_mul (by decide)]
        simpa [Nat.pow_succ] using h
      have hlow : (UInt8.ofNat (n % 256)).toNat = n % 256 := by simp
      calc
        leValue (leBytes (k + 1) n) = n % 256 + 256 * (n / 256) := by
          rw [leBytes, leValue, hlow, ih hdiv]
        _ = n := Nat.mod_add_div n 256

theorem leValue_lt (bs : List UInt8) : leValue bs < 256 ^ bs.length := by
  induction bs with
  | nil => exact Nat.one_pos
  | cons b bs ih =>
      have hb := b.toNat_lt
      rw [leValue, List.length_cons, Nat.pow_succ]
      omega

/-- Bytes are those of the number that they stand for. -/
theorem leBytes_leValue (bs : List UInt8) : leBytes bs.length (leValue bs) = bs := by
  induction bs with
  | nil => rfl
  | cons b bs ih =>
      have hb := b.toNat_lt
      have hlow : (b.toNat + 256 * leValue bs) % 256 = b.toNat := by omega
      have hhigh : (b.toNat + 256 * leValue bs) / 256 = leValue bs := by omega
      rw [List.length_cons, leValue, leBytes, hlow, hhigh, ih, UInt8.ofNat_toNat]

/-- Within its range a number is determined by its bytes. -/
theorem leBytes_injOn {k n m : Nat} (hn : n < 256 ^ k) (hm : m < 256 ^ k)
    (h : leBytes k n = leBytes k m) : n = m := by
  calc
    n = leValue (leBytes k n) := (leValue_leBytes hn).symm
    _ = leValue (leBytes k m) := congrArg leValue h
    _ = m := leValue_leBytes hm

end Lib
end CFlat
