import Mathlib.Data.List.Basic
import Mathlib.Data.List.Forall2

/-!
# FirstFit — updating the first matching entry of a table

A table is a list that is searched from the front; the first entry that satisfies a test is
updated in place.  `updateFirst` is that operation, `modifyAt` its counterpart on a fixed array
at a known index, and the lemmas relate them to each other, to maps and to counting below an
index.
-/

namespace CFlat
namespace Lib

variable {α β : Type*}

/-! ## Updating the first match -/

/-- Apply `f` to the first entry that satisfies `p`. -/
def updateFirst (p : α → Bool) (f : α → α) : List α → List α
  | [] => []
  | x :: xs => if p x then f x :: xs else x :: updateFirst p f xs

/-- The index of the last entry that satisfies `p`, searched from the back. -/
def findLastIdx? (p : α → Bool) : List α → Option Nat
  | [] => none
  | x :: xs =>
      match findLastIdx? p xs with
      | some i => some (i + 1)
      | none => if p x then some 0 else none

@[simp] theorem length_updateFirst (p : α → Bool) (f : α → α) (l : List α) :
    (updateFirst p f l).length = l.length := by
  induction l with
  | nil => rfl
  | cons x xs ih =>
      by_cases hx : p x <;> simp [updateFirst, hx, ih]

theorem modify_of_findIdx? {p : α → Bool} {f : α → α} {l : List α} {i : Nat}
    (h : l.findIdx? p = some i) : l.modify i f = updateFirst p f l := by
  induction l generalizing i with
  | nil => simp at h
  | cons x xs ih =>
      rw [List.findIdx?_cons] at h
      by_cases hx : p x
      · obtain rfl : i = 0 := by simpa [hx] using h.symm
        simp [updateFirst, hx]
      · obtain ⟨j, hj, rfl⟩ : ∃ j, xs.findIdx? p = some j ∧ j + 1 = i := by
          simpa [hx] using h
        simp [updateFirst, hx, ih hj]

theorem updateFirst_eq_self {p : α → Bool} {f : α → α} {l : List α}
    (h : ∀ x ∈ l, p x = false) : updateFirst p f l = l := by
  induction l with
  | nil => rfl
  | cons x xs ih =>
      have hx : p x = false := h x (by simp)
      have hxs : updateFirst p f xs = xs := ih (fun y hy => h y (by simp [hy]))
      simp [updateFirst, hx, hxs]

/-- Every entry of the updated table is an old entry or the image of a matching old entry. -/
theorem mem_updateFirst {p : α → Bool} {f : α → α} {l : List α} {y : α}
    (h : y ∈ updateFirst p f l) : y ∈ l ∨ ∃ x ∈ l, p x = true ∧ y = f x := by
  induction l with
  | nil => simp [updateFirst] at h
  | cons x xs ih =>
      by_cases hx : p x
      · rcases (by simpa [updateFirst, hx] using h : y = f x ∨ y ∈ xs) with rfl | hy
        · exact Or.inr ⟨x, by simp, hx, rfl⟩
        · exact Or.inl (by simp [hy])
      · rcases (by simpa [updateFirst, hx] using h : y = x ∨ y ∈ updateFirst p f xs) with rfl | hy
        · exact Or.inl (by simp)
        · rcases ih hy with hmem | ⟨z, hz, hpz, rfl⟩
          · exact Or.inl (by simp [hmem])
          · exact Or.inr ⟨z, by simp [hz], hpz, rfl⟩

/-- A view of the entries commutes with an update whose test and effect it respects. -/
theorem map_updateFirst {p : α → Bool} {f : α → α} {q : β → Bool} {k : β → β} {g : α → β}
    {l : List α} (htest : ∀ x ∈ l, p x = q (g x))
    (heff : ∀ x ∈ l, p x = true → g (f x) = k (g x)) :
    (updateFirst p f l).map g = updateFirst q k (l.map g) := by
  induction l with
  | nil => rfl
  | cons x xs ih =>
      have htail := ih (fun y hy => htest y (by simp [hy])) (fun y hy => heff y (by simp [hy]))
      by_cases hx : p x
      · have hq : q (g x) = true := by rw [← htest x (by simp), hx]
        simp [updateFirst, hx, hq, heff x (by simp) hx]
      · have hq : q (g x) = false := by
          rw [← htest x (by simp)]
          simpa using hx
        simp [updateFirst, hx, hq, htail]

/-- A view that the update does not change is unchanged on the whole table. -/
theorem map_updateFirst_of_invariant {p : α → Bool} {f : α → α} {g : α → β} {l : List α}
    (heff : ∀ x ∈ l, p x = true → g (f x) = g x) : (updateFirst p f l).map g = l.map g := by
  induction l with
  | nil => rfl
  | cons x xs ih =>
      have htail := ih (fun y hy => heff y (by simp [hy]))
      by_cases hx : p x
      · simp [updateFirst, hx, heff x (by simp) hx]
      · simp [updateFirst, hx, htail]

/-! ## Updating at an index -/

theorem map_modify {f : α → α} {k : β → β} {g : α → β} {l : List α}
    (heff : ∀ x ∈ l, g (f x) = k (g x)) (i : Nat) :
    (l.modify i f).map g = (l.map g).modify i k := by
  induction l generalizing i with
  | nil => simp
  | cons x xs ih =>
      cases i with
      | zero => simp [heff x (by simp)]
      | succ i => simp [ih (fun y hy => heff y (by simp [hy]))]

theorem mem_modify {f : α → α} {l : List α} {i : Nat} {y : α} (h : y ∈ l.modify i f) :
    y ∈ l ∨ ∃ x ∈ l, y = f x := by
  induction l generalizing i with
  | nil => simp at h
  | cons x xs ih =>
      cases i with
      | zero =>
          rcases (by simpa using h : y = f x ∨ y ∈ xs) with rfl | hy
          · exact Or.inr ⟨x, by simp, rfl⟩
          · exact Or.inl (by simp [hy])
      | succ i =>
          rcases (by simpa using h : y = x ∨ y ∈ xs.modify i f) with rfl | hy
          · exact Or.inl (by simp)
          · rcases ih hy with hmem | ⟨z, hz, rfl⟩
            · exact Or.inl (by simp [hmem])
            · exact Or.inr ⟨z, by simp [hz], rfl⟩

/-- A search of a view is a search of the table. -/
theorem findIdx?_map_of_test {p : α → Bool} {q : β → Bool} {g : α → β} {l : List α}
    (h : ∀ x ∈ l, q (g x) = p x) : (l.map g).findIdx? q = l.findIdx? p := by
  induction l with
  | nil => rfl
  | cons x xs ih =>
      simp only [List.map_cons, List.findIdx?_cons, h x (by simp),
        ih (fun y hy => h y (by simp [hy]))]

/-- The index of the last match is that of a match. -/
theorem getElem?_of_findLastIdx? {p : α → Bool} {l : List α} {i : Nat}
    (h : findLastIdx? p l = some i) : ∃ x, l[i]? = some x ∧ p x = true := by
  induction l generalizing i with
  | nil => simp [findLastIdx?] at h
  | cons x xs ih =>
      simp only [findLastIdx?] at h
      -- A match in the tail comes before one at the head.
      cases hxs : findLastIdx? p xs with
      | some j =>
          rw [hxs] at h
          rcases Option.some.inj h with rfl
          simpa using ih hxs
      | none =>
          rw [hxs] at h
          by_cases hx : p x = true
          · rcases (by simpa [hx] using h : 0 = i) with rfl
            exact ⟨x, rfl, hx⟩
          · simp [hx] at h

theorem lt_length_of_findLastIdx? {p : α → Bool} {l : List α} {i : Nat}
    (h : findLastIdx? p l = some i) : i < l.length := by
  rcases getElem?_of_findLastIdx? h with ⟨x, hx, _⟩
  exact (List.getElem?_eq_some_iff.1 hx).1

theorem mem_of_findLastIdx? {p : α → Bool} {l : List α} {i : Nat}
    (h : findLastIdx? p l = some i) : ∃ x ∈ l, p x = true := by
  rcases getElem?_of_findLastIdx? h with ⟨x, hx, hpx⟩
  exact ⟨x, List.mem_of_getElem? hx, hpx⟩

theorem findLastIdx?_eq_none {p : α → Bool} {l : List α} (h : findLastIdx? p l = none) :
    ∀ x ∈ l, p x = false := by
  induction l with
  | nil => simp
  | cons x xs ih =>
      simp only [findLastIdx?] at h
      cases hxs : findLastIdx? p xs with
      | some j => simp [hxs] at h
      | none =>
          cases hx : p x with
          | true => simp [hxs, hx] at h
          | false =>
              intro y hy
              rcases List.mem_cons.1 hy with rfl | hy
              · exact hx
              · exact ih hxs y hy

theorem findLastIdx?_map_of_test {p : α → Bool} {q : β → Bool} {g : α → β} {l : List α}
    (h : ∀ x ∈ l, q (g x) = p x) : findLastIdx? q (l.map g) = findLastIdx? p l := by
  induction l with
  | nil => rfl
  | cons x xs ih =>
      simp only [List.map_cons, findLastIdx?, h x (by simp), ih (fun y hy => h y (by simp [hy]))]

/-! ## The part of a table that belongs to one key -/

/-- Apply `f` to the last entry that satisfies `p`. -/
def updateLast (p : α → Bool) (f : α → α) : List α → List α
  | [] => []
  | x :: xs =>
      if xs.any p then x :: updateLast p f xs
      else if p x then f x :: xs
      else x :: xs

theorem updateLast_eq_self {p : α → Bool} {f : α → α} {l : List α}
    (h : ∀ x ∈ l, p x = false) : updateLast p f l = l := by
  cases l with
  | nil => rfl
  | cons x xs =>
      have hx : p x = false := h x (by simp)
      have hxs : xs.any p = false := List.any_eq_false.2 fun y hy => by simp [h y (by simp [hy])]
      simp [updateLast, hx, hxs]

theorem modify_eq_updateLast {p : α → Bool} {f : α → α} {l : List α} {i : Nat}
    (h : findLastIdx? p l = some i) : l.modify i f = updateLast p f l := by
  induction l generalizing i with
  | nil => simp [findLastIdx?] at h
  | cons x xs ih =>
      simp only [findLastIdx?] at h
      cases hxs : findLastIdx? p xs with
      | some j =>
          rw [hxs] at h
          obtain rfl := Option.some.inj h
          have hany : xs.any p = true := List.any_eq_true.2 (mem_of_findLastIdx? hxs)
          simp [updateLast, hany, ih hxs]
      | none =>
          have hnone : xs.any p = false :=
            List.any_eq_false.2 fun y hy => by simp [findLastIdx?_eq_none hxs y hy]
          cases hx : p x with
          | false => simp [hxs, hx] at h
          | true =>
              rw [hxs] at h
              obtain rfl : 0 = i := by simpa [hx] using h
              simp [updateLast, hnone, hx]

/-- An update inside one part of a table is an update of a view of this part. -/
theorem map_filter_updateFirst {p q : α → Bool} {f : α → α} {p' : β → Bool} {k : β → β}
    {g : α → β} {l : List α} (htest : ∀ x ∈ l, p x = (q x && p' (g x)))
    (heff : ∀ x ∈ l, p x = true → q (f x) = true ∧ g (f x) = k (g x)) :
    ((updateFirst p f l).filter q).map g = updateFirst p' k ((l.filter q).map g) := by
  induction l with
  | nil => rfl
  | cons x xs ih =>
      have htail := ih (fun y hy => htest y (by simp [hy])) (fun y hy => heff y (by simp [hy]))
      have hx := htest x (by simp)
      cases hq : q x with
      | false =>
          have hp : p x = false := by rw [hx, hq, Bool.false_and]
          simp [updateFirst, hp, hq, htail]
      | true =>
          rw [hq, Bool.true_and] at hx
          cases hp : p x with
          | true =>
              rcases heff x (by simp) hp with ⟨hkeep, hview⟩
              simp [updateFirst, hp, hq, ← hx, hkeep, hview]
          | false => simp [updateFirst, hp, hq, ← hx, htail]

theorem map_filter_updateLast {p q : α → Bool} {f : α → α} {p' : β → Bool} {k : β → β}
    {g : α → β} {l : List α} (htest : ∀ x ∈ l, p x = (q x && p' (g x)))
    (heff : ∀ x ∈ l, p x = true → q (f x) = true ∧ g (f x) = k (g x)) :
    ((updateLast p f l).filter q).map g = updateLast p' k ((l.filter q).map g) := by
  induction l with
  | nil => rfl
  | cons x xs ih =>
      have htail := ih (fun y hy => htest y (by simp [hy])) (fun y hy => heff y (by simp [hy]))
      have hx := htest x (by simp)
      have hany : ((xs.filter q).map g).any p' = xs.any p := by
        rw [Bool.eq_iff_iff, List.any_eq_true, List.any_eq_true]
        constructor
        · rintro ⟨_, hmem, hp'⟩
          rcases List.mem_map.1 hmem with ⟨y, hy, rfl⟩
          rcases List.mem_filter.1 hy with ⟨hy, hq⟩
          exact ⟨y, hy, by rw [htest y (by simp [hy]), hq, hp']; rfl⟩
        · rintro ⟨y, hy, hp⟩
          rw [htest y (by simp [hy]), Bool.and_eq_true] at hp
          exact ⟨g y, List.mem_map_of_mem (List.mem_filter.2 ⟨hy, hp.1⟩), hp.2⟩
      cases hxs : xs.any p with
      | true => cases hq : q x <;> simp [updateLast, hxs, hany, hq, htail]
      | false =>
          -- The entries behind this one stay as they are.
          cases hq : q x with
          | false =>
              have hp : p x = false := by rw [hx, hq, Bool.false_and]
              have hsame : updateLast p' k ((xs.filter q).map g) = (xs.filter q).map g := by
                refine updateLast_eq_self fun y hy => ?_
                simpa using List.any_eq_false.1 (hany.trans hxs) y hy
              simp [updateLast, hxs, hp, hq, hsame]
          | true =>
              rw [hq, Bool.true_and] at hx
              cases hp : p x with
              | true =>
                  rcases heff x (by simp) hp with ⟨hkeep, hview⟩
                  simp [updateLast, hxs, hany, hp, hq, ← hx, hkeep, hview]
              | false => simp [updateLast, hxs, hany, hp, hq, ← hx]

/-- An update outside a part of a table does not show in it. -/
theorem filter_updateFirst_of_not {p q : α → Bool} {f : α → α} {l : List α}
    (h : ∀ x ∈ l, p x = true → q x = false ∧ q (f x) = false) :
    (updateFirst p f l).filter q = l.filter q := by
  induction l with
  | nil => rfl
  | cons x xs ih =>
      have htail := ih (fun y hy => h y (by simp [hy]))
      cases hp : p x with
      | true =>
          rcases h x (by simp) hp with ⟨hq, hqf⟩
          simp [updateFirst, hp, hq, hqf]
      | false => simp [updateFirst, hp, List.filter_cons, htail]

theorem filter_updateLast_of_not {p q : α → Bool} {f : α → α} {l : List α}
    (h : ∀ x ∈ l, p x = true → q x = false ∧ q (f x) = false) :
    (updateLast p f l).filter q = l.filter q := by
  induction l with
  | nil => rfl
  | cons x xs ih =>
      have htail := ih (fun y hy => h y (by simp [hy]))
      unfold updateLast
      split
      · rw [List.filter_cons, List.filter_cons, htail]
      · split
        · rename_i hp
          rcases h x (by simp) hp with ⟨hq, hqf⟩
          simp [hq, hqf]
        · rfl

/-! ## Counting -/

/-- Updating a match moves one entry from the `p` side to the other side of a count. -/
theorem countP_updateFirst_of_leaves {p q : α → Bool} {f : α → α} {l : List α}
    (hq : ∀ x ∈ l, p x = true → q x = true ∧ q (f x) = false) (hex : ∃ x ∈ l, p x = true) :
    (updateFirst p f l).countP q + 1 = l.countP q := by
  induction l with
  | nil => simp at hex
  | cons x xs ih =>
      by_cases hx : p x
      · rcases hq x (by simp) hx with ⟨hqx, hqf⟩
        -- The first match is here, and the rest stays.
        simp [updateFirst, hx, hqx, hqf]
      · have hex' : ∃ y ∈ xs, p y = true := by simpa [hx] using hex
        have htail := ih (fun y hy => hq y (by simp [hy])) hex'
        simp only [updateFirst, hx, Bool.false_eq_true, if_false, List.countP_cons]
        omega

theorem countP_updateFirst_of_enters {p q : α → Bool} {f : α → α} {l : List α}
    (hq : ∀ x ∈ l, p x = true → q x = false ∧ q (f x) = true) (hex : ∃ x ∈ l, p x = true) :
    (updateFirst p f l).countP q = l.countP q + 1 := by
  induction l with
  | nil => simp at hex
  | cons x xs ih =>
      by_cases hx : p x
      · rcases hq x (by simp) hx with ⟨hqx, hqf⟩
        simp [updateFirst, hx, hqx, hqf]
      · have hex' : ∃ y ∈ xs, p y = true := by simpa [hx] using hex
        have htail := ih (fun y hy => hq y (by simp [hy])) hex'
        simp only [updateFirst, hx, Bool.false_eq_true, if_false, List.countP_cons]
        omega

theorem countP_updateFirst_of_invariant {p q : α → Bool} {f : α → α} {l : List α}
    (hq : ∀ x ∈ l, p x = true → q (f x) = q x) : (updateFirst p f l).countP q = l.countP q := by
  have hmap := map_updateFirst_of_invariant (g := q) hq
  have hcount := congrArg (List.countP id) hmap
  simpa [List.countP_map] using hcount

/-! ## Opening and closing below an index

Entries carry a mark `o` ("open") and belong to a group `k`.  Opening takes the first entry of the
group that is not open, closing the first one that is.  Below any index the number of open entries
then moves like a counter that saturates at the number of entries of the group. -/

/-- The number of entries below index `i` that satisfy `q`. -/
def countBelow (q : α → Bool) (i : Nat) (l : List α) : Nat := (l.take i).countP q

theorem countBelow_append_of_le {q : α → Bool} {i : Nat} {l r : List α} (h : i ≤ l.length) :
    countBelow q i (l ++ r) = countBelow q i l := by
  simp [countBelow, List.take_append_of_le_length h]

/-- A count that depends on a view of the entries only. -/
theorem countBelow_congr_of_map {g : α → β} {q : β → Bool} {l r : List α}
    (h : l.map g = r.map g) (i : Nat) :
    countBelow (fun x => q (g x)) i l = countBelow (fun x => q (g x)) i r := by
  have hview : ∀ s : List α, countBelow (fun x => q (g x)) i s = ((s.map g).take i).countP q := by
    intro s
    rw [countBelow, ← List.map_take, List.countP_map]
    rfl
  rw [hview, hview, h]

theorem countBelow_succ {q : α → Bool} {l : List α} {i : Nat} {x : α} (h : l[i]? = some x) :
    countBelow q (i + 1) l = countBelow q i l + if q x then 1 else 0 := by
  rcases List.getElem?_eq_some_iff.1 h with ⟨hi, rfl⟩
  rw [countBelow, countBelow, List.take_succ_eq_append_getElem hi, List.countP_append,
    List.countP_singleton]

/-- An entry behind a match, or one that is no match, is not the first match. -/
theorem getElem?_updateFirst {p : α → Bool} {f : α → α} {l : List α} {i : Nat} {x : α}
    (hx : l[i]? = some x) (h : p x = false ∨ 0 < countBelow p i l) :
    (updateFirst p f l)[i]? = some x := by
  induction l generalizing i with
  | nil => simp at hx
  | cons y ys ih =>
      cases i with
      | zero =>
          obtain rfl : y = x := by simpa using hx
          have hp : p y = false := by simpa [countBelow] using h
          simp [updateFirst, hp]
      | succ i =>
          have hx' : ys[i]? = some x := by simpa using hx
          cases hy : p y with
          -- The head is the first match, so the entries behind it stay.
          | true => simpa [updateFirst, hy] using hx'
          | false =>
              have htail : p x = false ∨ 0 < countBelow p i ys := by
                simpa [countBelow, hy] using h
              simpa [updateFirst, hy] using ih hx' htail

theorem countBelow_le {q k : α → Bool} (hqk : ∀ x, q x = true → k x = true) (i : Nat)
    (l : List α) : countBelow q i l ≤ countBelow k i l :=
  List.countP_mono_left (fun x _ hx => hqk x hx)

theorem countBelow_updateFirst_of_invariant {p q : α → Bool} {f : α → α}
    (hq : ∀ x, p x = true → q (f x) = q x) (i : Nat) (l : List α) :
    countBelow q i (updateFirst p f l) = countBelow q i l := by
  induction l generalizing i with
  | nil => rfl
  | cons x xs ih =>
      cases i with
      | zero => rfl
      | succ i =>
          by_cases hx : p x
          · simp [countBelow, updateFirst, hx, List.countP_cons, hq x hx]
          · have htail := ih i
            simp only [countBelow] at htail
            simp [countBelow, updateFirst, hx, List.countP_cons, htail]

/-- Opening the first entry that is not open: the count saturates at the size of the group. -/
theorem countBelow_openFirst {k o : α → Bool} {f : α → α}
    (hf : ∀ x, k x = true → k (f x) = true ∧ o (f x) = true) (i : Nat) (l : List α) :
    countBelow (fun x => k x && o x) i (updateFirst (fun x => k x && !o x) f l) =
      min (countBelow (fun x => k x && o x) i l + 1) (countBelow k i l) := by
  induction l generalizing i with
  | nil => simp [countBelow, updateFirst]
  | cons x xs ih =>
      cases i with
      | zero => simp [countBelow]
      | succ i =>
          have htail := ih i
          have hle := countBelow_le (q := fun x => k x && o x) (k := k)
            (fun y hy => (Bool.and_eq_true_iff.1 hy).1) i xs
          simp only [countBelow] at htail hle
          -- The head is outside the group, open, or the entry that is opened.
          cases hk : k x <;> cases ho : o x <;>
            simp only [countBelow, updateFirst, hk, ho, hf, Bool.and_true, Bool.and_false,
              Bool.not_true, Bool.not_false, Bool.false_eq_true, if_true, if_false,
              List.take_succ_cons, List.countP_cons, htail] <;> omega

/-- Closing the first open entry: the count goes down by one where it can. -/
theorem countBelow_closeFirst {k o : α → Bool} {f : α → α} (hf : ∀ x, o (f x) = false) (i : Nat)
    (l : List α) :
    countBelow (fun x => k x && o x) i (updateFirst (fun x => k x && o x) f l) =
      countBelow (fun x => k x && o x) i l - 1 := by
  induction l generalizing i with
  | nil => simp [countBelow, updateFirst]
  | cons x xs ih =>
      cases i with
      | zero => simp [countBelow]
      | succ i =>
          have htail := ih i
          simp only [countBelow] at htail
          cases hk : k x <;> cases ho : o x <;>
            simp [countBelow, updateFirst, hk, ho, hf, htail]

/-- The first match lies at `i` exactly when no match lies below `i` and one lies at `i`. -/
theorem findIdx?_eq_some_iff_countBelow {p : α → Bool} {l : List α} {i : Nat} :
    l.findIdx? p = some i ↔ countBelow p i l = 0 ∧ countBelow p (i + 1) l = 1 := by
  induction l generalizing i with
  | nil => simp [countBelow]
  | cons x xs ih =>
      cases i with
      | zero => cases hx : p x <;> simp [List.findIdx?_cons, countBelow, hx]
      | succ i =>
          have htail := ih (i := i)
          simp only [countBelow] at htail
          cases hx : p x
          · simp [List.findIdx?_cons, countBelow, hx, htail]
          · simp [List.findIdx?_cons, countBelow, hx]

/-- Below the first entry of a group that is not open, all entries of the group are open; they are
the open entries at the head of the group. -/
theorem countBelow_findIdx?_not (k o : α → Bool) (l : List α) :
    countBelow k ((l.findIdx? fun x => k x && !o x).getD l.length) l =
        ((l.filter k).takeWhile o).length ∧
      countBelow (fun x => k x && o x) ((l.findIdx? fun x => k x && !o x).getD l.length) l =
        ((l.filter k).takeWhile o).length := by
  induction l with
  | nil => simp [countBelow]
  | cons x xs ih =>
      -- Behind the head the index is one more, also where there is no such entry.
      have hshift : ∀ r : Option Nat, (r.map (· + 1)).getD (xs.length + 1) =
          r.getD xs.length + 1 := by
        intro r
        cases r <;> rfl
      simp only [countBelow] at ih
      cases hk : k x <;> cases ho : o x <;>
        simp [List.findIdx?_cons, countBelow, hk, ho, hshift, ih]

/-! ## Arrays of fixed size -/

/-- Apply `f` to the entry at index `i` of a fixed-size array. -/
def modifyAt {n : Nat} (v : Vector α n) (i : Nat) (f : α → α) : Vector α n :=
  if h : i < n then v.set i (f v[i]) h else v

theorem toList_modifyAt {n : Nat} (v : Vector α n) (i : Nat) (f : α → α) :
    (modifyAt v i f).toList = v.toList.modify i f := by
  apply List.ext_getElem?
  intro j
  by_cases h : i < n
  · by_cases hij : i = j
    · subst hij
      simp [modifyAt, h, Vector.toList_set]
    · simp [modifyAt, h, Vector.toList_set, hij]
  · have hlen : v.toList.length ≤ i := by simpa using h
    simp [modifyAt, h, List.modify_eq_self hlen]

/-- Modifying at the index where an entry stands in an append. -/
theorem modify_append_cons (xs ys : List α) (x : α) (f : α → α) :
    (xs ++ x :: ys).modify xs.length f = xs ++ f x :: ys := by
  rw [List.modify_eq_take_cons_drop (by simp)]
  simp

/-- Updating the first `k` entries of an array one after another updates that initial part. -/
theorem toList_foldl_modifyAt {n : Nat} (v : Vector α n) (f : α → α) {k : Nat} (hk : k ≤ n) :
    ((List.range k).foldl (fun v i => modifyAt v i f) v).toList =
      (v.toList.take k).map f ++ v.toList.drop k := by
  induction k with
  | zero => simp
  | succ k ih =>
      have hlt : k < v.toList.length := by
        simp only [Vector.length_toList]
        omega
      have hlen : k = ((v.toList.take k).map f).length := by
        simp only [List.length_map, List.length_take]
        omega
      have hmod := modify_append_cons ((v.toList.take k).map f) (v.toList.drop (k + 1))
        v.toList[k] f
      -- Entry `k` stands right behind the part that is already updated.
      rw [← hlen] at hmod
      calc
        ((List.range (k + 1)).foldl (fun v i => modifyAt v i f) v).toList
            = ((v.toList.take k).map f ++ v.toList.drop k).modify k f := by
              rw [List.range_succ, List.foldl_append, List.foldl_cons, List.foldl_nil,
                toList_modifyAt, ih (by omega)]
        _ = (v.toList.take k).map f ++ f v.toList[k] :: v.toList.drop (k + 1) := by
              rw [List.drop_eq_getElem_cons hlt, hmod]
        _ = (v.toList.take (k + 1)).map f ++ v.toList.drop (k + 1) := by
              rw [List.take_succ_eq_append_getElem hlt]
              simp

end Lib
end CFlat
