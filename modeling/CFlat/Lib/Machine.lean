import Mathlib.Data.List.Basic
import Mathlib.Logic.Function.Basic

/-!
# Machine — runs of a deterministic machine with replies

A machine answers every input with a reply and a next state.  This file collects the rules the
development uses about whole runs:

* `run` and `replies` with their composition lemmas;
* `Always I` (an assertion in every state a run passes through) and `StepsMeet C` (a condition on
  every step of the run), with the rule `always_iff_stepsMeet` that turns an exact one-step
  criterion into an exact criterion on runs, and `stepsMeet_iff` for what the steps do;
* `monitored` and `observed`, a machine with a monitor that keeps a summary of the inputs, or of
  the inputs and the replies;
* `sim_run`, the rule for a machine that refines another one step by step, and
  `sim_run_of_stepsMeet` for one that does so under a condition on the steps;
* `copies`, many copies of a machine whose inputs come in any order, and what one copy sees of them.
-/

namespace CFlat
namespace Lib

/-- A machine answers an input in a state with a reply and the next state. -/
abbrev Machine (S A R : Type*) := S → A → R × S

namespace Machine

variable {S T A R Q : Type*} (m : Machine S A R)

/-- The state after a list of inputs. -/
def run (s : S) : List A → S
  | [] => s
  | a :: as => run (m s a).2 as

/-- The replies to a list of inputs, in order. -/
def replies (s : S) : List A → List R
  | [] => []
  | a :: as => (m s a).1 :: replies (m s a).2 as

/-- `C` holds of every step that the run takes, of the state before it and its input. -/
def StepsMeet (C : S → A → Prop) (s : S) : List A → Prop
  | [] => True
  | a :: as => C s a ∧ StepsMeet C (m s a).2 as

instance decidableStepsMeet {C : S → A → Prop} [∀ s a, Decidable (C s a)] :
    (s : S) → (as : List A) → Decidable (m.StepsMeet C s as)
  | _, [] => isTrue trivial
  | s, a :: as =>
      have := decidableStepsMeet (C := C) (m s a).2 as
      inferInstanceAs (Decidable (C s a ∧ m.StepsMeet C (m s a).2 as))

/-- `I` holds in every state the run passes through, both ends included. -/
def Always (I : S → Prop) (s : S) : List A → Prop
  | [] => I s
  | a :: as => I s ∧ Always I (m s a).2 as

/-! ## Composition -/

@[simp] theorem run_nil (s : S) : m.run s [] = s := rfl

@[simp] theorem run_cons (s : S) (a : A) (as : List A) :
    m.run s (a :: as) = m.run (m s a).2 as := rfl

@[simp] theorem replies_nil (s : S) : m.replies s [] = [] := rfl

@[simp] theorem replies_cons (s : S) (a : A) (as : List A) :
    m.replies s (a :: as) = (m s a).1 :: m.replies (m s a).2 as := rfl

@[simp] theorem stepsMeet_nil (C : S → A → Prop) (s : S) : m.StepsMeet C s [] := trivial

@[simp] theorem stepsMeet_cons (C : S → A → Prop) (s : S) (a : A) (as : List A) :
    m.StepsMeet C s (a :: as) ↔ C s a ∧ m.StepsMeet C (m s a).2 as := Iff.rfl

@[simp] theorem always_nil (I : S → Prop) (s : S) : m.Always I s [] ↔ I s := Iff.rfl

@[simp] theorem always_cons (I : S → Prop) (s : S) (a : A) (as : List A) :
    m.Always I s (a :: as) ↔ I s ∧ m.Always I (m s a).2 as := Iff.rfl

theorem run_append (s : S) (as bs : List A) :
    m.run s (as ++ bs) = m.run (m.run s as) bs := by
  induction as generalizing s with
  | nil => rfl
  | cons a as ih => simpa using ih (m s a).2

theorem replies_append (s : S) (as bs : List A) :
    m.replies s (as ++ bs) = m.replies s as ++ m.replies (m.run s as) bs := by
  induction as generalizing s with
  | nil => rfl
  | cons a as ih => simpa using ih (m s a).2

theorem stepsMeet_append (C : S → A → Prop) (s : S) (as bs : List A) :
    m.StepsMeet C s (as ++ bs) ↔ m.StepsMeet C s as ∧ m.StepsMeet C (m.run s as) bs := by
  induction as generalizing s with
  | nil => simp
  | cons a as ih => simp [ih, and_assoc]

/-! ## Invariants -/

/-- What every step preserves, a run preserves. -/
theorem run_invariant {I : S → Prop} {P : A → Prop}
    (hstep : ∀ s a, P a → I s → I (m s a).2) {s : S} (hs : I s) :
    ∀ as : List A, (∀ a ∈ as, P a) → I (m.run s as) := by
  intro as
  induction as generalizing s with
  | nil =>
      intro _
      exact hs
  | cons a as ih =>
      intro hP
      have ha : P a := hP a (by simp)
      exact ih (hstep s a ha hs) (fun b hb => hP b (by simp [hb]))

theorem always_head {I : S → Prop} {s : S} {as : List A} (h : m.Always I s as) : I s := by
  cases as with
  | nil => exact h
  | cons a as => exact h.1

/-- `Always` speaks of the state after every initial part of the run. -/
theorem always_iff_forall_run {I : S → Prop} {s : S} {as : List A} :
    m.Always I s as ↔ ∀ as₁ as₂, as = as₁ ++ as₂ → I (m.run s as₁) := by
  induction as generalizing s with
  | nil =>
      constructor
      · intro h as₁ as₂ heq
        have hnil : as₁ = [] := (List.append_eq_nil_iff.1 heq.symm).1
        simpa [hnil] using h
      · intro h
        exact h [] [] rfl
  | cons a as ih =>
      constructor
      · rintro ⟨hs, hrest⟩ as₁ as₂ heq
        cases as₁ with
        | nil => exact hs
        | cons b bs =>
            obtain ⟨rfl, rfl⟩ : a = b ∧ as = bs ++ as₂ := by simpa using heq
            exact ih.1 hrest bs as₂ rfl
      · intro h
        refine ⟨h [] _ rfl, ih.2 ?_⟩
        intro as₁ as₂ heq
        exact h (a :: as₁) as₂ (by simp [heq])

/-- An exact criterion on runs from an exact criterion on steps.  `J` is the inductive
strengthening of `I`, and `P` what is assumed of every step: if a step from a `J` state that meets
`C` leads to a `J` state, and one that leads to an `I` state meets `C`, then a run stays in `I`
exactly when all its steps meet `C`. -/
theorem always_iff_stepsMeet {I J : S → Prop} {P C : S → A → Prop} (hJ : ∀ s, J s → I s)
    (hkeep : ∀ s a, J s → P s a → C s a → J (m s a).2)
    (hbreak : ∀ s a, J s → P s a → I (m s a).2 → C s a) {s : S} (hs : J s) (as : List A)
    (hA : m.StepsMeet P s as) : m.Always I s as ↔ m.StepsMeet C s as := by
  induction as generalizing s with
  | nil => exact iff_of_true (hJ s hs) trivial
  | cons a as ih =>
      rcases hA with ⟨ha, hrestA⟩
      constructor
      · rintro ⟨_, hrest⟩
        have hC : C s a := hbreak s a hs ha (m.always_head hrest)
        exact ⟨hC, (ih (hkeep s a hs ha hC) hrestA).1 hrest⟩
      · rintro ⟨hC, hrest⟩
        exact ⟨hJ s hs, (ih (hkeep s a hs ha hC) hrestA).2 hrest⟩

/-- What every step that meets `C` preserves and answers, a run of such steps preserves and
answers. -/
theorem replies_invariant {I : S → Prop} {C : S → A → Prop} {P : R → Prop}
    (hstep : ∀ s a, C s a → I s → P (m s a).1 ∧ I (m s a).2) {s : S} (hs : I s) :
    ∀ as : List A, m.StepsMeet C s as → (∀ r ∈ m.replies s as, P r) ∧ I (m.run s as) := by
  intro as
  induction as generalizing s with
  | nil =>
      intro _
      exact ⟨by simp, hs⟩
  | cons a as ih =>
      rintro ⟨hC, hrest⟩
      rcases hstep s a hC hs with ⟨hreply, hnext⟩
      rcases ih hnext hrest with ⟨hreplies, hrun⟩
      refine ⟨fun r hr => ?_, hrun⟩
      rcases List.mem_cons.1 hr with rfl | hr
      · exact hreply
      · exact hreplies r hr

/-- An exact criterion on what the steps of a run do.  The steps that meet `C` keep `J`, and in a
`J` state a step meets `Q` exactly when it meets `C`. -/
theorem stepsMeet_iff {J : S → Prop} {P Q C : S → A → Prop}
    (hkeep : ∀ s a, J s → P s a → C s a → J (m s a).2)
    (hiff : ∀ s a, J s → P s a → (Q s a ↔ C s a)) {s : S} (hs : J s) (as : List A)
    (hA : m.StepsMeet P s as) : m.StepsMeet Q s as ↔ m.StepsMeet C s as := by
  induction as generalizing s with
  | nil => exact Iff.rfl
  | cons a as ih =>
      rcases hA with ⟨ha, hrestA⟩
      constructor
      · rintro ⟨hQ, hrest⟩
        have hC : C s a := (hiff s a hs ha).1 hQ
        exact ⟨hC, (ih (hkeep s a hs ha hC) hrestA).1 hrest⟩
      · rintro ⟨hC, hrest⟩
        exact ⟨(hiff s a hs ha).2 hC, (ih (hkeep s a hs ha hC) hrestA).2 hrest⟩

/-- What holds of all inputs of a run holds of its steps. -/
theorem stepsMeet_of_inputs {P : A → Prop} {as : List A} (h : ∀ a ∈ as, P a) (s : S) :
    m.StepsMeet (fun _ a => P a) s as := by
  induction as generalizing s with
  | nil => trivial
  | cons a as ih => exact ⟨h a (by simp), ih (fun b hb => h b (by simp [hb])) _⟩

/-- What is asked of every state and input is asked of every step of a run. -/
theorem stepsMeet_of_forall {C : S → A → Prop} (h : ∀ s a, C s a) (s : S) (as : List A) :
    m.StepsMeet C s as := by
  induction as generalizing s with
  | nil => trivial
  | cons a as ih => exact ⟨h s a, ih _⟩

/-! ## Monitors -/

/-- The machine with a monitor beside it that sees the inputs. -/
def monitored (next : T → A → T) : Machine (S × T) A R := fun s a =>
  ((m s.1 a).1, ((m s.1 a).2, next s.2 a))

/-- The machine with an observer beside it that sees the inputs and the replies. -/
def observed (next : T → A → R → T) : Machine (S × T) A R := fun s a =>
  ((m s.1 a).1, ((m s.1 a).2, next s.2 a (m s.1 a).1))

/-- An observer does not disturb the machine. -/
theorem run_observed (next : T → A → R → T) (s : S × T) (as : List A) :
    ((m.observed next).run s as).1 = m.run s.1 as := by
  induction as generalizing s with
  | nil => rfl
  | cons a as ih => exact ih _

/-! ## Refinement -/

/-- The rule of refinement for steps that meet a condition on the abstract side: if such a step on
related states gives the same reply, as far as `obs` shows it, and related states, then so does a
run of such steps. -/
theorem sim_run_of_stepsMeet (n : Machine T A Q) {Rel : S → T → Prop} {C : T → A → Prop}
    (obs : R → Q)
    (hstep : ∀ s t a, C t a → Rel s t → obs (m s a).1 = (n t a).1 ∧ Rel (m s a).2 (n t a).2)
    {s : S} {t : T} (h : Rel s t) {as : List A} (hC : n.StepsMeet C t as) :
    (m.replies s as).map obs = n.replies t as ∧ Rel (m.run s as) (n.run t as) := by
  induction as generalizing s t with
  | nil => exact ⟨rfl, h⟩
  | cons a as ih =>
      rcases hstep s t a hC.1 h with ⟨hreply, hrel⟩
      rcases ih hrel hC.2 with ⟨hreplies, hrun⟩
      exact ⟨by simp [hreply, hreplies], hrun⟩

/-- The rule of refinement: if a step on related states gives the same reply, as far as `obs` shows
it, and related states, then so does a run. -/
theorem sim_run (n : Machine T A Q) {Rel : S → T → Prop} {P : A → Prop}
    (obs : R → Q)
    (hstep : ∀ s t a, P a → Rel s t → obs (m s a).1 = (n t a).1 ∧ Rel (m s a).2 (n t a).2)
    {s : S} {t : T} (h : Rel s t) {as : List A} (hP : ∀ a ∈ as, P a) :
    (m.replies s as).map obs = n.replies t as ∧ Rel (m.run s as) (n.run t as) :=
  m.sim_run_of_stepsMeet n obs hstep h (n.stepsMeet_of_inputs hP t)

/-- A machine that reads its inputs off richer ones. -/
def comap {B : Type*} (f : B → A) : Machine S B R := fun s b => m s (f b)

theorem replies_comap {B : Type*} (f : B → A) (s : S) (bs : List B) :
    (m.comap f).replies s bs = m.replies s (bs.map f) := by
  induction bs generalizing s with
  | nil => rfl
  | cons b bs ih => exact congrArg (_ :: ·) (ih _)

/-! ## Copies -/

section Copies

variable {I : Type*} [DecidableEq I] (who : A → I) (i : I)

/-- Many copies of a machine, each with a state of its own; `who` says which copy an input is
for. -/
def copies : Machine (I → S) A R := fun ss a =>
  ((m (ss (who a)) a).1, Function.update ss (who a) (m (ss (who a)) a).2)

/-- The inputs of one copy. -/
def inputsOf (as : List A) : List A := as.filter fun a => who a = i

/-- The replies that one copy gets. -/
def repliesOf (as : List A) (rs : List R) : List R :=
  ((as.zip rs).filter fun entry => who entry.1 = i).map Prod.snd

/-- In every order of the inputs each copy runs as if it were alone. -/
theorem repliesOf_copies (ss : I → S) (as : List A) :
    repliesOf who i as ((m.copies who).replies ss as) = m.replies (ss i) (inputsOf who i as) := by
  induction as generalizing ss with
  | nil => rfl
  | cons a as ih =>
      have hrest := ih (m.copies who ss a).2
      rw [repliesOf, inputsOf] at hrest ⊢
      rw [replies_cons, List.zip_cons_cons, List.filter_cons, List.filter_cons]
      by_cases hwho : who a = i
      · subst hwho
        simpa [copies] using hrest
      · simpa [copies, hwho, Function.update_of_ne (Ne.symm hwho)] using hrest

end Copies

end Machine

end Lib
end CFlat
