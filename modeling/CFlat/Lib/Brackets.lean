import CFlat.Lib.Nesting

/-!
# Brackets — initial parts of well-nested lists

A stack of open keys decides whether a list of events can be completed to a well-nested one: every
closing event must find its key on top.  `Scan` says what such a stack machine does, and
`Scan.prefix_iff` that the lists it accepts are the initial parts of the well-nested lists.
-/

namespace CFlat
namespace Lib
namespace Nest

variable {K A E : Type*} {enter exit : K → E} {event : A → E}

/-- A stack machine for well-nested lists: it opens, closes and skips, and accepts nothing else. -/
structure Scan (enter exit : K → E) (event : A → E) (step : List K → E → Option (List K)) :
    Prop where
  opens : ∀ ks k, step ks (enter k) = some (k :: ks)
  closes : ∀ ks k, step (k :: ks) (exit k) = some ks
  skips : ∀ ks a, step ks (event a) = some ks
  accepts : ∀ {ks e ks'}, step ks e = some ks' →
    (∃ k, e = enter k ∧ ks' = k :: ks) ∨ (∃ k, e = exit k ∧ ks = k :: ks') ∨
      ∃ a, e = event a ∧ ks' = ks

/-- A list that closes these keys, in this order, between well-nested parts. -/
inductive Closing (enter exit : K → E) (event : A → E) : List K → List E → Prop
  | last (t : Nest K A) : Closing enter exit event [] (t.flatten enter exit event)
  | next (t : Nest K A) (k : K) {ks : List K} {l : List E}
      (h : Closing enter exit event ks l) :
      Closing enter exit event (k :: ks) (t.flatten enter exit event ++ exit k :: l)

theorem closing_exits (ks : List K) : Closing enter exit event ks (ks.map exit) := by
  induction ks with
  | nil => exact .last .nil
  | cons k ks ih => exact .next .nil k ih

theorem Closing.cons_exit {ks : List K} {l : List E} (h : Closing enter exit event ks l) (k : K) :
    Closing enter exit event (k :: ks) (exit k :: l) := .next .nil k h

theorem Closing.cons_event {ks : List K} {l : List E} (h : Closing enter exit event ks l) (a : A) :
    Closing enter exit event ks (event a :: l) := by
  cases h with
  | last t => exact .last (.leaf a t)
  | next t k h => exact .next (.leaf a t) k h

theorem Closing.cons_enter {ks : List K} {l : List E} {k : K}
    (h : Closing enter exit event (k :: ks) l) : Closing enter exit event ks (enter k :: l) := by
  cases h with
  | next t _ h =>
      -- The part up to the closing of `k` becomes a bracket in front of what follows.
      cases h with
      | last t' => exact .last (.loop k t t')
      | next t' k' h =>
          have hloop := Closing.next (.loop k t t') k' h
          simpa [Nest.flatten] using hloop

theorem closing_nil_iff {l : List E} :
    Closing enter exit event [] l ↔ ∃ t : Nest K A, t.flatten enter exit event = l := by
  constructor
  · rintro ⟨t⟩
    exact ⟨t, rfl⟩
  · rintro ⟨t, rfl⟩
    exact .last t

section Scan

variable {step : List K → E → Option (List K)} (h : Scan enter exit event step)
include h

/-- A well-nested list leaves the stack as it was. -/
theorem Scan.flatten (t : Nest K A) :
    ∀ ks, (t.flatten enter exit event).foldlM step ks = some ks := by
  induction t with
  | nil => exact fun ks => rfl
  | leaf a rest ih =>
      intro ks
      simp [Nest.flatten, h.skips, ih]
  | loop k body rest ihBody ihRest =>
      intro ks
      simp [Nest.flatten, h.opens, h.closes, ihBody, ihRest, List.foldlM_append]

/-- What the machine accepts is completed by closing what is left on the stack. -/
theorem Scan.closing {es : List E} : ∀ {ks ks' : List K}, es.foldlM step ks = some ks' →
    Closing enter exit event ks (es ++ ks'.map exit) := by
  induction es with
  | nil =>
      intro ks ks' hscan
      obtain rfl : ks = ks' := Option.some.inj hscan
      exact closing_exits ks
  | cons e es ih =>
      intro ks ks' hscan
      rw [List.foldlM_cons] at hscan
      cases hstep : step ks e with
      | none => simp [hstep] at hscan
      | some ks₁ =>
          have hrest : es.foldlM step ks₁ = some ks' := by simpa [hstep] using hscan
          have hclosing := ih hrest
          rcases h.accepts hstep with ⟨k, rfl, rfl⟩ | ⟨k, rfl, rfl⟩ | ⟨a, rfl, rfl⟩
          · exact hclosing.cons_enter
          · exact hclosing.cons_exit k
          · exact hclosing.cons_event a

/-- The lists that the machine accepts are the initial parts of the well-nested lists. -/
theorem Scan.prefix_iff {es : List E} :
    (∃ t : Nest K A, es <+: t.flatten enter exit event) ↔ (es.foldlM step []).isSome := by
  constructor
  · rintro ⟨t, rest, hsplit⟩
    have hscan := h.flatten t []
    rw [← hsplit, List.foldlM_append] at hscan
    cases hes : es.foldlM step [] with
    | none => simp [hes] at hscan
    | some ks => rfl
  · intro hsome
    rcases Option.isSome_iff_exists.1 hsome with ⟨ks, hks⟩
    rcases closing_nil_iff.1 (h.closing hks) with ⟨t, ht⟩
    exact ⟨t, ks.map exit, ht.symm⟩

end Scan

end Nest
end Lib
end CFlat
