import CFlat.SecureWorld.Accepted
import CFlat.SecureWorld.Isolation

/-!
# ForceClose — CMD_FINALIZE in place of the missing loop exits

`cmd_finalize` closes the loops that are still active by clearing their flags.  `cmd_loop_exit`
also saves the hash of the loop, restores the hash from before it and takes the loop off the depth.
`finalizeAgrees_iff` says when the two come to the same.
-/

namespace CFlat
namespace SecureWorld

open Lib

variable {D : Type} {H : Sha256 D} {ctx : SessionCtx D}

variable (H) in
/-- CMD_FINALIZE gives the same report and leaves the same session as it does behind the exits of
these loops. -/
def FinalizeAgrees (ctx : SessionCtx D) (loopIds : List UInt64) : Prop :=
  let closed := Machine.run (handle H) ctx (loopIds.map .loopExit)
  (cmdFinalize H ctx).2.report = (cmdFinalize H closed).2.report ∧
    (cmdFinalize H ctx).2 = (cmdFinalize H closed).2

variable (H) in
/-- A session, with its log, after a successful CMD_INIT and these events. -/
def measuredBy (ctx : SessionCtx D) (handle : Handle) (es : List Event) :
    SessionCtx D × List Event :=
  (logged H).run ((cmdInit H (.ok handle) ctx).2, []) (es.map .event)

theorem accounts_measuredBy (ctx : SessionCtx D) (handle : Handle) (es : List Event) :
    Accounts (measuredBy H ctx handle es) :=
  (accounts_init (.ok handle) ctx).run (es.map .event)

/-- The log of the open loops is empty exactly when no record is active. -/
theorem Accounts.openLoops_eq_nil_iff {s : SessionCtx D × List Event} (h : Accounts s) :
    openLoops s.2 = [] ↔ s.1.activeCount = 0 := by
  constructor
  · intro hnil
    refine List.countP_eq_zero.2 ?_
    intro rec hrec hactive
    have hcount := h.opened rec.loopId
    rw [hnil] at hcount
    have hshut := activeOf_eq_zero_iff.1 hcount.symm rec hrec
    simp [isActiveOf, hactive] at hshut
  · intro hzero
    refine List.eq_nil_iff_forall_not_mem.2 ?_
    intro loopId hmem
    have hpos : 0 < (openLoops s.2).count loopId := List.count_pos_iff.2 hmem
    have hle := activeOf_le_activeCount s.1 loopId
    rw [h.opened loopId] at hpos
    omega

/-- A loop exit takes at most one level off the depth, and one that is accepted takes it. -/
theorem loopDepth_loopExit (ctx : SessionCtx D) (loopId : UInt64) :
    (handle H ctx (.loopExit loopId)).2.loopDepth ≤ ctx.loopDepth ∧
      ((handle H ctx (.loopExit loopId)).1 = .success →
        (handle H ctx (.loopExit loopId)).2.loopDepth = ctx.loopDepth - 1) := by
  have hcase := cmdLoopExit_case ctx loopId
  simp only [handle]
  generalize cmdLoopExit ctx loopId = out at hcase ⊢
  cases hcase with
  | underflow => exact ⟨Int.le_refl _, by simp⟩
  | notFound => exact ⟨Int.le_refl _, by simp⟩
  | closes h =>
      refine ⟨?_, fun _ => h.loopDepth⟩
      rw [h.loopDepth]
      exact Int.sub_le_self _ (by decide)

theorem loopDepth_loopExits (loopIds : List UInt64) :
    ∀ ctx : SessionCtx D,
      (Machine.run (handle H) ctx (loopIds.map .loopExit)).loopDepth ≤ ctx.loopDepth := by
  induction loopIds with
  | nil => exact fun ctx => Int.le_refl _
  | cons loopId loopIds ih =>
      intro ctx
      exact Int.le_trans (ih _) (loopDepth_loopExit (H := H) ctx loopId).1

/-- In a session whose loops are in order, the exits of the open loops take some depth off. -/
theorem Accounts.loopDepth_closed_lt {s : SessionCtx D × List Event} (h : Accounts s)
    (hopen : openLoops s.2 ≠ []) :
    (Machine.run (handle H) s.1 ((openLoops s.2).map .loopExit)).loopDepth < s.1.loopDepth := by
  cases hloops : openLoops s.2 with
  | nil => exact absurd hloops hopen
  | cons loopId rest =>
      have hcount : 0 < openCount s.2 loopId := by
        rw [h.openCount_eq, ← h.opened, hloops]
        exact List.count_pos_iff.2 (by simp)
      have hfirst : (handle H s.1 (.loopExit loopId)).1 = .success :=
        (h.exit_accepted_iff loopId).2 hcount
      have hstep := (loopDepth_loopExit (H := H) s.1 loopId).2 hfirst
      have hrest := loopDepth_loopExits (H := H) rest (handle H s.1 (.loopExit loopId)).2
      rw [List.map_cons, Machine.run_cons]
      omega

/-- After a successful CMD_INIT and any events, well nested or not, CMD_FINALIZE stands for the
exits of the open loops exactly when no loop is active. -/
theorem finalizeAgrees_iff (H : Sha256 D) (ctx : SessionCtx D) (handle : Handle)
    (es : List Event) :
    FinalizeAgrees H (measuredBy H ctx handle es).1 (openLoops (measuredBy H ctx handle es).2) ↔
      (measuredBy H ctx handle es).1.activeCount = 0 := by
  have hacc := accounts_measuredBy (H := H) ctx handle es
  rw [← hacc.openLoops_eq_nil_iff]
  constructor
  · rintro ⟨_, hsame⟩
    by_contra hopen
    -- CMD_FINALIZE leaves the depth alone, the exits do not.
    have hdepth := congrArg SessionCtx.loopDepth hsame
    have hlt := hacc.loopDepth_closed_lt (H := H) hopen
    exact absurd hdepth.symm (Int.ne_of_lt hlt)
  · intro hnil
    rw [hnil]
    exact ⟨rfl, rfl⟩

/-- One open loop is enough. -/
theorem finalize_is_no_exit :
    ¬ ∀ (handle : Handle) (es : List Event),
        (∃ t : Trace, t.NonReentrant ∧ es <+: t.events) →
          let s := measuredBy Sha256.free (taOpenSessionEntryPoint Sha256.free) handle es
          FinalizeAgrees Sha256.free s.1 (openLoops s.2) := by
  intro h
  have hagrees := h 1 [.loopEnter 7] ⟨.loop 7 .nil .nil, by decide, [.loopExit 7], rfl⟩
  have hdepth := congrArg SessionCtx.loopDepth hagrees.2
  revert hdepth
  decide +kernel

end SecureWorld
end CFlat
