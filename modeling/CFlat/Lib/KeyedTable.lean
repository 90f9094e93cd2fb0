import Mathlib.Data.List.Nodup
import CFlat.Lib.FirstFit

/-!
# KeyedTable — tables whose entries have distinct keys

A table whose entries carry distinct keys is determined by the list of its keys and by what a
lookup returns for each of them.  The lemmas say how the two change when one entry is updated in
place or a new entry is added at the end.
-/

namespace CFlat
namespace Lib

variable {α β κ : Type*} [DecidableEq κ]

/-- The first entry with key `k`. -/
def lookup (key : α → κ) (k : κ) (l : List α) : Option α := l.find? fun x => key x = k

/-- Add a key at the end of a list of keys, unless it is there. -/
def addKey (ks : List κ) (k : κ) : List κ := if k ∈ ks then ks else ks ++ [k]

/-- Add keys one after another. -/
def addKeys (ks new : List κ) : List κ := new.foldl addKey ks

variable {key : α → κ} {l : List α}

/-! ## Lists of distinct keys -/

@[simp] theorem addKeys_nil (ks : List κ) : addKeys ks [] = ks := rfl

@[simp] theorem addKeys_cons (ks new : List κ) (k : κ) :
    addKeys ks (k :: new) = addKeys (addKey ks k) new := rfl

theorem addKeys_append (ks new new' : List κ) :
    addKeys ks (new ++ new') = addKeys (addKeys ks new) new' := List.foldl_append

theorem addKey_of_mem {ks : List κ} {k : κ} (h : k ∈ ks) : addKey ks k = ks := if_pos h

theorem addKey_of_notMem {ks : List κ} {k : κ} (h : k ∉ ks) : addKey ks k = ks ++ [k] := if_neg h

theorem nodup_addKey {ks : List κ} (h : ks.Nodup) (k : κ) : (addKey ks k).Nodup := by
  by_cases hk : k ∈ ks
  · rwa [addKey_of_mem hk]
  · rw [addKey_of_notMem hk, List.nodup_append]
    refine ⟨h, List.nodup_singleton k, ?_⟩
    intro a ha b hb
    rw [List.mem_singleton.1 hb]
    exact fun hab => hk (hab ▸ ha)

theorem nodup_addKeys {ks : List κ} (h : ks.Nodup) (new : List κ) : (addKeys ks new).Nodup := by
  induction new generalizing ks with
  | nil => exact h
  | cons k new ih => exact ih (nodup_addKey h k)

theorem length_le_addKey (ks : List κ) (k : κ) : ks.length ≤ (addKey ks k).length := by
  unfold addKey
  split <;> simp

theorem length_le_addKeys (ks new : List κ) : ks.length ≤ (addKeys ks new).length := by
  induction new generalizing ks with
  | nil => exact Nat.le_refl _
  | cons k new ih => exact Nat.le_trans (length_le_addKey ks k) (ih _)

/-- Keys added to an empty list stand in the order of their first occurrence. -/
theorem addKeys_nil_left (new : List κ) : addKeys [] new = new.eraseDups := by
  -- Generalised to any start: what is added is what the start lacks.
  have hgen : ∀ ks : List κ, addKeys ks new = ks ++ (new.removeAll ks).eraseDups := by
    induction new with
    | nil => simp
    | cons k new ih =>
        intro ks
        by_cases hk : k ∈ ks
        · rw [addKeys_cons, addKey_of_mem hk, ih, List.cons_removeAll]
          simp [hk]
        · rw [addKeys_cons, addKey_of_notMem hk, ih, List.cons_removeAll]
          have hfilter : new.removeAll (ks ++ [k]) =
              (new.removeAll ks).filter (fun b => !b == k) := by
            simp only [List.removeAll, List.filter_filter]
            apply List.filter_congr
            intro b _
            by_cases hb : b = k <;> simp [hb]
          simp [hk, List.eraseDups_cons, hfilter]
  simpa using hgen []

/-! ## Lookups -/

theorem lookup_eq_none {k : κ} : lookup key k l = none ↔ k ∉ l.map key := by
  simp [lookup]

theorem mem_of_lookup {k : κ} {x : α} (h : lookup key k l = some x) : x ∈ l :=
  List.mem_of_find?_eq_some h

theorem key_of_lookup {k : κ} {x : α} (h : lookup key k l = some x) : key x = k := by
  simpa using List.find?_some h

theorem lookup_cons (k : κ) (x : α) (xs : List α) :
    lookup key k (x :: xs) = if key x = k then some x else lookup key k xs := by
  by_cases hx : key x = k <;> simp [lookup, hx]

/-- In a table with distinct keys every entry is found under its key. -/
theorem lookup_of_mem (hnodup : (l.map key).Nodup) {x : α} (hx : x ∈ l) :
    lookup key (key x) l = some x := by
  induction l with
  | nil => simp at hx
  | cons y ys ih =>
      rw [List.map_cons, List.nodup_cons] at hnodup
      rcases List.mem_cons.1 hx with rfl | hmem
      · simp [lookup_cons]
      -- The key of `x` is not that of an earlier entry.
      · have hne : key y ≠ key x := by
          intro h
          exact hnodup.1 (h ▸ List.mem_map_of_mem hmem)
        rw [lookup_cons, if_neg hne]
        exact ih hnodup.2 hmem

/-- A view of the entries that depends on the lookup only is a map over the keys. -/
theorem map_eq_map_keys (hnodup : (l.map key).Nodup) {view : α → β} {f : κ → β}
    (h : ∀ k x, lookup key k l = some x → view x = f k) :
    l.map view = (l.map key).map f := by
  rw [List.map_map]
  apply List.map_congr_left
  intro x hx
  exact h (key x) x (lookup_of_mem hnodup hx)

theorem lookup_append_singleton (k : κ) (x : α) :
    lookup key k (l ++ [x]) =
      (lookup key k l).or (if key x = k then some x else none) := by
  by_cases hx : key x = k <;> simp [lookup, List.find?_append, hx]

/-! ## Updating the entry of a key -/

section Update

variable {k : κ} {p : α → Bool} {f : α → α} (hf : ∀ x, key (f x) = key x)
include hf

omit [DecidableEq κ] in
theorem keys_updateFirst : (updateFirst p f l).map key = l.map key :=
  map_updateFirst_of_invariant (fun x _ _ => hf x)

theorem lookup_updateFirst_of_ne (hp : ∀ x, p x = true → key x = k) {k' : κ} (hk : k' ≠ k) :
    lookup key k' (updateFirst p f l) = lookup key k' l := by
  induction l with
  | nil => rfl
  | cons x xs ih =>
      by_cases hx : p x = true
      · have hne : key x ≠ k' := by
          rw [hp x hx]
          exact hk.symm
        simp [updateFirst, hx, lookup_cons, hf, hne]
      · simp [updateFirst, hx, lookup_cons, ih]

theorem lookup_updateFirst (hp : ∀ x, p x = true → key x = k) {x : α}
    (h : lookup key k l = some x) (hx : p x = true) :
    lookup key k (updateFirst p f l) = some (f x) := by
  induction l with
  | nil => simp [lookup] at h
  | cons y ys ih =>
      by_cases hy : key y = k
      · obtain rfl : y = x := by simpa [lookup_cons, hy] using h
        simp [updateFirst, hx, lookup_cons, hf, hy]
      · have hpy : ¬ p y = true := fun hpy => hy (hp y hpy)
        have htail : lookup key k ys = some x := by simpa [lookup_cons, hy] using h
        simp [updateFirst, hpy, lookup_cons, hy, ih htail]

end Update

omit [DecidableEq κ] in
/-- With distinct keys the last match of a key is its first match. -/
theorem modify_of_findLastIdx? {k : κ} {p : α → Bool} {f : α → α}
    (hp : ∀ x, p x = true → key x = k) (hnodup : (l.map key).Nodup) {i : Nat}
    (h : findLastIdx? p l = some i) : l.modify i f = updateFirst p f l := by
  induction l generalizing i with
  | nil => simp [findLastIdx?] at h
  | cons x xs ih =>
      rw [List.map_cons, List.nodup_cons] at hnodup
      simp only [findLastIdx?] at h
      cases hxs : findLastIdx? p xs with
      | some j =>
          obtain rfl : j + 1 = i := by simpa [hxs] using h
          -- A match at the head would share its key with the one in the tail.
          have hpx : ¬ p x = true := by
            intro hpx
            rcases mem_of_findLastIdx? hxs with ⟨y, hy, hpy⟩
            exact hnodup.1 ((hp x hpx).trans (hp y hpy).symm ▸ List.mem_map_of_mem hy)
          simp [updateFirst, hpx, ih hnodup.2 hxs]
      | none =>
          rw [hxs] at h
          by_cases hpx : p x = true
          · obtain rfl : 0 = i := by simpa [hpx] using h
            simp [updateFirst, hpx]
          · simp [hpx] at h

end Lib
end CFlat
