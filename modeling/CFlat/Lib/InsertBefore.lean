import Mathlib.Data.List.Basic

/-!
# InsertBefore — marks in front of the elements of a list

`insertBefore f l` puts the mark `f x`, where there is one, in front of every element `x` of `l`.
The marks can be erased again, and where they can be told from the elements each of them stands
directly before its own element and before no other.
-/

namespace CFlat
namespace Lib

variable {α : Type*} {f : α → Option α} {l : List α}

def insertBefore (f : α → Option α) (l : List α) : List α :=
  l.flatMap fun x => (f x).toList ++ [x]

@[simp] theorem insertBefore_nil (f : α → Option α) : insertBefore f [] = [] := rfl

@[simp] theorem insertBefore_cons (f : α → Option α) (x : α) (l : List α) :
    insertBefore f (x :: l) = (f x).toList ++ x :: insertBefore f l := by
  simp [insertBefore]

@[simp] theorem insertBefore_append (f : α → Option α) (l₁ l₂ : List α) :
    insertBefore f (l₁ ++ l₂) = insertBefore f l₁ ++ insertBefore f l₂ := by
  simp [insertBefore]

theorem insertIdx_length_append (x : α) (l₁ l₂ : List α) :
    (l₁ ++ l₂).insertIdx l₁.length x = l₁ ++ x :: l₂ := by
  induction l₁ with
  | nil => rfl
  | cons y l₁ ih => simpa using ih

theorem mem_insertBefore {y : α} :
    y ∈ insertBefore f l ↔ y ∈ l ∨ ∃ x ∈ l, f x = some y := by
  simp only [insertBefore, List.mem_flatMap, List.mem_append, Option.mem_toList,
    List.mem_singleton]
  constructor
  · rintro ⟨x, hx, h | h⟩
    · exact .inr ⟨x, hx, h⟩
    · exact .inl (h ▸ hx)
  · rintro (h | ⟨x, hx, h⟩)
    · exact ⟨y, h, .inr rfl⟩
    · exact ⟨x, hx, .inl h⟩

/-- What keeps no mark keeps of the marked list what it keeps of the list. -/
theorem filter_insertBefore {q : α → Bool} (hmark : ∀ x ∈ l, ∀ m, f x = some m → q m = false) :
    (insertBefore f l).filter q = l.filter q := by
  induction l with
  | nil => rfl
  | cons x xs ih =>
      have htail := ih fun y hy => hmark y (List.mem_cons_of_mem _ hy)
      cases hf : f x with
      | none => simp [hf, List.filter_cons, htail]
      | some m =>
          have hm : q m = false := hmark x List.mem_cons_self m hf
          simp [hf, hm, List.filter_cons, htail]

theorem countP_insertBefore_of_not {q : α → Bool}
    (hmark : ∀ x ∈ l, ∀ m, f x = some m → q m = false) :
    (insertBefore f l).countP q = l.countP q := by
  simp only [List.countP_eq_length_filter, filter_insertBefore hmark]

/-- The marks of a list are as many as its marked elements. -/
theorem countP_insertBefore {p : α → Bool} (hmark : ∀ x ∈ l, ∀ m, f x = some m → p m = true)
    (helem : ∀ x ∈ l, p x = false) :
    (insertBefore f l).countP p = l.countP fun x => (f x).isSome := by
  induction l with
  | nil => rfl
  | cons x xs ih =>
      have htail := ih (fun y hy => hmark y (List.mem_cons_of_mem _ hy))
        fun y hy => helem y (List.mem_cons_of_mem _ hy)
      have hx : p x = false := helem x List.mem_cons_self
      cases hf : f x with
      | none => simp [hf, hx, htail]
      | some m =>
          have hm : p m = true := hmark x List.mem_cons_self m hf
          simp [hf, hx, hm, htail]

theorem takeWhile_append_cons_of_not {p : α → Bool} {x : α} (hx : p x = false) (l₁ l₂ : List α) :
    (l₁ ++ x :: l₂).takeWhile p = l₁.takeWhile p := by
  induction l₁ with
  | nil => simp [hx]
  | cons y l₁ ih => simp [List.takeWhile_cons, ih]

/-- Directly before a marked element stands its mark and no other mark; directly before any other
element, and before a mark, stands none. -/
theorem marks_before {p : α → Bool} (hmark : ∀ x ∈ l, ∀ m, f x = some m → p m = true)
    (helem : ∀ x ∈ l, p x = false) {pre post : List α} {y : α}
    (h : insertBefore f l = pre ++ y :: post) :
    pre.reverse.takeWhile p = if p y then [] else (f y).toList := by
  induction l generalizing pre with
  | nil => simp at h
  | cons x xs ih =>
      have hx : p x = false := helem x List.mem_cons_self
      have htail : ∀ {pre'}, insertBefore f xs = pre' ++ y :: post →
          pre'.reverse.takeWhile p = if p y then [] else (f y).toList :=
        ih (fun z hz => hmark z (List.mem_cons_of_mem _ hz))
          fun z hz => helem z (List.mem_cons_of_mem _ hz)
      cases hf : f x with
      | none =>
          rw [insertBefore_cons, hf] at h
          rcases List.cons_eq_append_iff.1 h with ⟨rfl, hhead⟩ | ⟨pre', rfl, hrest⟩
          · obtain ⟨rfl, -⟩ := List.cons.inj hhead
            simp [hx, hf]
          · simpa [takeWhile_append_cons_of_not hx] using htail hrest
      | some m =>
          have hm : p m = true := hmark x List.mem_cons_self m hf
          rw [insertBefore_cons, hf] at h
          rcases List.cons_eq_append_iff.1 h with ⟨rfl, hhead⟩ | ⟨pre', rfl, hrest⟩
          · obtain ⟨rfl, -⟩ := List.cons.inj hhead
            simp [hm]
          · -- The mark is behind us: the rest is as in a list whose head is `x`.
            rcases List.cons_eq_append_iff.1 hrest with ⟨rfl, hhead⟩ | ⟨pre'', rfl, hrest'⟩
            · obtain ⟨rfl, -⟩ := List.cons.inj hhead
              simp [hx, hm, hf]
            · simpa [takeWhile_append_cons_of_not hx] using htail hrest'

end Lib
end CFlat
