import Mathlib.Data.List.Basic

/-!
# Nesting — well-nested traces of bracketed events

A `Nest K A` is a trace of plain events of type `A` and of brackets keyed by `K`, as a syntax
tree; `flatten` writes it out as a flat list of events.  The flat lists obtained this way are
exactly the well-nested ones, so "for every well-nested sequence" is "for every `Nest`", and
properties of flat runs are proved by induction on the tree.  `place` says where an event of such a
list stands, and `Heights` counts the brackets that are open there.
-/

namespace CFlat
namespace Lib

inductive Nest (K A : Type*) where
  | nil
  | leaf (a : A) (rest : Nest K A)
  | loop (k : K) (body rest : Nest K A)
  deriving DecidableEq, Repr

namespace Nest

variable {K A E : Type*}

/-- Write a trace out as a flat list of events. -/
def flatten (enter exit : K → E) (event : A → E) : Nest K A → List E
  | nil => []
  | leaf a rest => event a :: flatten enter exit event rest
  | loop k body rest =>
      enter k :: (flatten enter exit event body ++ exit k :: flatten enter exit event rest)

/-- The keys of all brackets, in the order in which they are opened. -/
def keys : Nest K A → List K
  | nil => []
  | leaf _ rest => rest.keys
  | loop k body rest => k :: (body.keys ++ rest.keys)

/-- How many brackets are open at most at the same time. -/
def depth : Nest K A → Nat
  | nil => 0
  | leaf _ rest => rest.depth
  | loop _ body rest => max (body.depth + 1) rest.depth

/-- How many brackets of key `k` are open at most at the same time. -/
def depthOf [DecidableEq K] (k : K) : Nest K A → Nat
  | nil => 0
  | leaf _ rest => rest.depthOf k
  | loop k' body rest =>
      max (if k' = k then body.depthOf k + 1 else body.depthOf k) (rest.depthOf k)

/-- No bracket contains a bracket of its own key. -/
def NonReentrant : Nest K A → Prop
  | nil => True
  | leaf _ rest => rest.NonReentrant
  | loop k body rest => k ∉ body.keys ∧ body.NonReentrant ∧ rest.NonReentrant

/-- The plain events that lie outside every bracket. -/
def topLeaves : Nest K A → List A
  | nil => []
  | leaf a rest => a :: rest.topLeaves
  | loop _ _ rest => rest.topLeaves

/-- All plain events, at any depth, in order. -/
def leaves : Nest K A → List A
  | nil => []
  | leaf a rest => a :: rest.leaves
  | loop _ body rest => body.leaves ++ rest.leaves

instance decidableNonReentrant [DecidableEq K] : (t : Nest K A) → Decidable t.NonReentrant
  | nil => inferInstanceAs (Decidable True)
  | leaf _ rest => decidableNonReentrant rest
  | loop k body rest =>
      have := decidableNonReentrant body
      have := decidableNonReentrant rest
      inferInstanceAs (Decidable (k ∉ body.keys ∧ body.NonReentrant ∧ rest.NonReentrant))

/-! ## Positions -/

/-- Where an event stands in a well-nested list: between two well-nested parts of its top level,
inside a bracket, or at the end of one. -/
inductive Place (enter exit : K → E) (event : A → E) (before : List E) (e : E) (behind : List E) :
    Prop
  | outside (t : Nest K A) (h : before = t.flatten enter exit event)
  | inside (k : K) (body : Nest K A) (pre inner₁ inner₂ post : List E)
      (hbefore : before = pre ++ enter k :: inner₁)
      (hbody : body.flatten enter exit event = inner₁ ++ e :: inner₂)
      (hbehind : behind = inner₂ ++ exit k :: post)
  | closes (k : K) (h : e = exit k)

theorem place {enter exit : K → E} {event : A → E} (t : Nest K A) :
    ∀ {before : List E} {e : E} {behind : List E},
      t.flatten enter exit event = before ++ e :: behind →
        Place enter exit event before e behind := by
  induction t with
  | nil =>
      intro before e behind h
      cases before <;> cases h
  | leaf a rest ih =>
      intro before e behind h
      cases before with
      | nil => exact .outside nil rfl
      | cons x before =>
          rcases List.cons.inj h with ⟨rfl, hrest⟩
          cases ih hrest with
          | outside t ht => exact .outside (leaf a t) (by rw [ht]; rfl)
          | inside k body pre inner₁ inner₂ post hbefore hbody hbehind =>
              exact .inside k body (event a :: pre) inner₁ inner₂ post (by rw [hbefore]; rfl) hbody
                hbehind
          | closes k he => exact .closes k he
  | loop k body rest _ ih =>
      intro before e behind h
      cases before with
      | nil => exact .outside nil rfl
      | cons x before =>
          rcases List.cons.inj h with ⟨rfl, htail⟩
          rcases List.append_eq_append_iff.1 htail with
            ⟨part, hbefore, hpart⟩ | ⟨part, hbody, hpart⟩
          · cases part with
            | nil => exact .closes k (List.cons.inj hpart).1.symm
            | cons y part =>
                -- The event stands behind the bracket.
                rcases List.cons.inj hpart with ⟨rfl, hrest⟩
                cases ih hrest with
                | outside t ht =>
                    exact .outside (loop k body t) (by rw [hbefore, ht]; rfl)
                | inside k' body' pre inner₁ inner₂ post hpre hbody' hbehind =>
                    refine .inside k' body'
                      (enter k :: (body.flatten enter exit event ++ exit k :: pre)) inner₁ inner₂
                      post ?_ hbody' hbehind
                    rw [hbefore, hpre]
                    simp
                | closes k' he => exact .closes k' he
          · cases part with
            | nil => exact .closes k (List.cons.inj hpart).1
            | cons y part =>
                rcases List.cons.inj hpart with ⟨rfl, hbehind⟩
                exact .inside k body [] before part (rest.flatten enter exit event) rfl hbody
                  hbehind

/-! ## Heights -/

/-- A fold whose height goes up at the brackets' beginnings, down at their ends, and is left alone
by the plain events. -/
structure Heights {S : Type*} (enter exit : K → E) (event : A → E) (next : S → E → S)
    (height : S → Nat) : Prop where
  enter : ∀ s k, height (next s (enter k)) = height s + 1
  exit : ∀ s k, height (next s (exit k)) = height s - 1
  event : ∀ s a, height (next s (event a)) = height s

section Heights

variable {S : Type*} {enter exit : K → E} {event : A → E} {next : S → E → S} {height : S → Nat}

/-- A well-nested list ends at the height at which it started. -/
theorem Heights.flatten (h : Heights enter exit event next height) (t : Nest K A) :
    ∀ s, height ((t.flatten enter exit event).foldl next s) = height s := by
  induction t with
  | nil => exact fun s => rfl
  | leaf a rest ih =>
      intro s
      rw [Nest.flatten, List.foldl_cons, ih, h.event]
  | loop k body rest ihBody ihRest =>
      intro s
      rw [Nest.flatten, List.foldl_cons, List.foldl_append, List.foldl_cons, ihRest, h.exit, ihBody,
        h.enter, Nat.add_sub_cancel]

/-- A part of a well-nested list never goes below the height at which the list starts. -/
theorem Heights.part (h : Heights enter exit event next height) (t : Nest K A) :
    ∀ {s : S} {before behind : List E}, t.flatten enter exit event = before ++ behind →
      height s ≤ height (before.foldl next s) := by
  induction t with
  | nil =>
      intro s before behind hsplit
      cases before with
      | nil => exact Nat.le_refl _
      | cons x before => cases hsplit
  | leaf a rest ih =>
      intro s before behind hsplit
      cases before with
      | nil => exact Nat.le_refl _
      | cons x before =>
          rcases List.cons.inj hsplit with ⟨rfl, hrest⟩
          rw [List.foldl_cons, ← h.event s a]
          exact ih hrest
  | loop k body rest ihBody ihRest =>
      intro s before behind hsplit
      cases before with
      | nil => exact Nat.le_refl _
      | cons x before =>
          rcases List.cons.inj hsplit with ⟨rfl, htail⟩
          have hup : height s + 1 = height (next s (enter k)) := (h.enter s k).symm
          rw [List.foldl_cons]
          rcases List.append_eq_append_iff.1 htail with ⟨part, rfl, hpart⟩ | ⟨part, hbody, _⟩
          · -- The body is complete; the rest starts at the height of `s`, or has not started.
            have hfull := h.flatten body (next s (enter k))
            rw [List.foldl_append]
            cases part with
            | nil =>
                rw [List.foldl_nil]
                omega
            | cons y part =>
                rcases List.cons.inj hpart with ⟨rfl, hrest⟩
                have hexit := h.exit ((body.flatten enter exit event).foldl next
                  (next s (enter k))) k
                have htail := @ihRest (next ((body.flatten enter exit event).foldl next
                  (next s (enter k))) (exit k)) part behind hrest
                rw [List.foldl_cons]
                omega
          · have hinside := @ihBody (next s (enter k)) before part hbody
            omega

end Heights

end Nest

end Lib
end CFlat
