import CFlat.SecureWorld.Steps

/-!
# LoopDepth — the depth counter against the active flags

Nesting is represented twice: by the counter `loop_depth` and by the `is_active` flags of the live
records.  Every command keeps the two in step except a CMD_FINALIZE in a session with active loops,
which clears the flags and leaves the counter alone.
-/

namespace CFlat
namespace SecureWorld

open Lib

variable {D : Type} {H : Sha256 D}

namespace SessionCtx

/-- The number of records `i < loop_count` with `is_active = true`. -/
def activeCount (ctx : SessionCtx D) : Nat := ctx.live.countP (·.isActive)

/-- The table has a record for the loop: an inactive one of its own, or a slot not taken yet.  A
`cmd_loop_enter` that has one is not refused because the table is full. -/
def HasRecordFor (ctx : SessionCtx D) (loopId : UInt64) : Prop :=
  (∃ rec ∈ ctx.live, isInactiveOf loopId rec = true) ∨ ctx.loopCount < maxLoopRecords

/-- `loop_depth` counts the active records, and a `cmd_loop_enter` is refused as too deep exactly
when 16 loops really are active. -/
structure DepthAccounted (H : Sha256 D) (ctx : SessionCtx D) : Prop where
  depth : ctx.loopDepth = ctx.activeCount
  tooDeep : ∀ loopId, ctx.HasRecordFor loopId →
    ((cmdLoopEnter H ctx loopId).1 = .overflow ↔ ctx.activeCount = 16)
  /-- With 16 loops active the table is not even looked at. -/
  anyLoop : ctx.activeCount = 16 → ∀ loopId, (cmdLoopEnter H ctx loopId).1 = .overflow

end SessionCtx

theorem activeCount_pos {ctx : SessionCtx D} {rec : LoopRecord D} (hrec : rec ∈ ctx.live)
    (hactive : rec.isActive = true) : 0 < ctx.activeCount :=
  List.countP_pos_iff.2 ⟨rec, hrec, hactive⟩

/-! ## One step -/

theorem activeCount_enter {ctx ctx' : SessionCtx D} {loopId : UInt64} {i : Nat}
    (h : Reopens H ctx loopId i ctx') : ctx'.activeCount = ctx.activeCount + 1 := by
  unfold SessionCtx.activeCount
  rw [h.live]
  exact countP_updateFirst_of_enters
    (fun _ _ hrec => ⟨isActive_of_isInactiveOf hrec, rfl⟩) h.mem_inactive

theorem activeCount_allocate {ctx ctx' : SessionCtx D} {loopId : UInt64} {stale : LoopRecord D}
    (h : Allocates H ctx loopId stale ctx') : ctx'.activeCount = ctx.activeCount + 1 := by
  unfold SessionCtx.activeCount
  -- The old records keep their flags and the new one is active.
  rw [h.live, List.countP_append]
  rfl

theorem activeCount_exit {ctx ctx' : SessionCtx D} {loopId : UInt64} {i : Nat}
    {rec : LoopRecord D} (h : Closes ctx loopId i rec ctx') :
    ctx'.activeCount + 1 = ctx.activeCount := by
  unfold SessionCtx.activeCount
  rw [h.live]
  exact countP_updateFirst_of_leaves
    (fun _ _ hrec => ⟨isActive_of_isActiveOf hrec, rfl⟩) h.mem_active

theorem activeCount_iteration {ctx ctx' : SessionCtx D} {loopId : UInt64} {i : Nat}
    (h : Counts ctx loopId i ctx') : ctx'.activeCount = ctx.activeCount := by
  have hcount := congrArg (List.countP id) (h.map_live (g := (·.isActive)) fun _ => rfl)
  rwa [List.countP_map, List.countP_map] at hcount

/-- A measurement event moves the counter and the flags together. -/
theorem loopDepth_handle {ctx : SessionCtx D} (hwf : WellFormed ctx)
    (hdepth : ctx.loopDepth = ctx.activeCount) (e : Event) :
    (handle H ctx e).2.loopDepth = (handle H ctx e).2.activeCount := by
  have hcase := table_case (H := H) hwf e
  generalize (handle H ctx e).2 = ctx' at hcase ⊢
  cases hcase with
  | untouched h =>
      rw [h.loopDepth, hdepth, SessionCtx.activeCount, SessionCtx.activeCount, h.live]
  | reopens h =>
      rw [h.loopDepth, activeCount_enter h, hdepth]
      rfl
  | allocates h =>
      rw [h.loopDepth, activeCount_allocate h, hdepth]
      rfl
  | closes h =>
      have hcount := activeCount_exit h
      rw [h.loopDepth, hdepth]
      omega
  | counts h => rw [h.loopDepth, activeCount_iteration h, hdepth]

theorem live_init (alloc : AllocOutcome) (ctx : SessionCtx D) :
    (cmdInit H alloc ctx).2.live = [] ∧ (cmdInit H alloc ctx).2.loopDepth = 0 := by
  cases alloc with
  | ok handle => simp [cmdInit_ok, SessionCtx.live]
  | fail err clears => simp [cmdInit_fail, SessionCtx.live]

theorem exact_init (alloc : AllocOutcome) (ctx : SessionCtx D) :
    (cmdInit H alloc ctx).2.loopDepth = (cmdInit H alloc ctx).2.activeCount := by
  rcases live_init (H := H) alloc ctx with ⟨hlive, hzero⟩
  rw [hzero, SessionCtx.activeCount, hlive]
  rfl

/-- A CMD_FINALIZE leaves no record active and the counter where it was. -/
theorem activeCount_cmdFinalize {ctx : SessionCtx D} (hwf : WellFormed ctx) :
    (cmdFinalize H ctx).2.activeCount = 0 ∧
      (cmdFinalize H ctx).2.loopDepth = ctx.loopDepth := by
  refine ⟨?_, rfl⟩
  have hlive : (cmdFinalize H ctx).2.live = ctx.live.map LoopRecord.deactivated :=
    live_forceClose hwf
  rw [SessionCtx.activeCount, hlive, List.countP_map]
  exact List.countP_eq_zero.2 (fun rec _ => by simp)

/-! ## Measuring contexts -/

/-- A context that is measuring: initialised, with its counters inside their bounds and in step
with the flags.  A successful CMD_INIT leads to one, and every measurement event keeps it. -/
structure Measuring (ctx : SessionCtx D) : Prop where
  wellFormed : WellFormed ctx
  initialized : ctx.isInitialized = true
  exact : ctx.loopDepth = ctx.activeCount

theorem measuring_init_ok (handle : Handle) (ctx : SessionCtx D) :
    Measuring (cmdInit H (.ok handle) ctx).2 := by
  refine ⟨wellFormed_init _ _, ?_, exact_init _ _⟩
  rw [cmdInit_ok]

theorem isInitialized_handle {ctx : SessionCtx D} (hwf : WellFormed ctx) (e : Event) :
    (handle H ctx e).2.isInitialized = ctx.isInitialized := by
  have hcase := table_case (H := H) hwf e
  generalize (handle H ctx e).2 = ctx' at hcase ⊢
  cases hcase with
  | untouched h => exact h.isInitialized
  | reopens h => exact h.frame.isInitialized
  | allocates h => exact h.frame.isInitialized
  | closes h => exact h.frame.isInitialized
  | counts h => exact h.frame.isInitialized

theorem measuring_handle {ctx : SessionCtx D} (h : Measuring ctx) (e : Event) :
    Measuring (handle H ctx e).2 :=
  ⟨wellFormed_handle h.wellFormed e,
    (isInitialized_handle h.wellFormed e).trans h.initialized,
    loopDepth_handle h.wellFormed h.exact e⟩

/-- A context that is initialised, with its counters inside their bounds.  A CMD_FINALIZE keeps
this, too. -/
structure Ready (ctx : SessionCtx D) : Prop where
  wellFormed : WellFormed ctx
  initialized : ctx.isInitialized = true

theorem Measuring.ready {ctx : SessionCtx D} (h : Measuring ctx) : Ready ctx :=
  ⟨h.wellFormed, h.initialized⟩

theorem ready_handle {ctx : SessionCtx D} (h : Ready ctx) (e : Event) : Ready (handle H ctx e).2 :=
  ⟨wellFormed_handle h.wellFormed e,
    (isInitialized_handle h.wellFormed e).trans h.initialized⟩

theorem ready_finalize {ctx : SessionCtx D} (h : Ready ctx) : Ready (cmdFinalize H ctx).2 :=
  ⟨h.wellFormed.of_frames rfl rfl rfl, h.initialized⟩

/-! ## Runs -/

/-- A `cmd_loop_enter` is refused in the two cases of `EnterRefused` and in no other. -/
theorem loopEnter_overflow_iff {ctx : SessionCtx D} (hwf : WellFormed ctx) (loopId : UInt64) :
    (cmdLoopEnter H ctx loopId).1 = .overflow ↔ EnterRefused ctx loopId := by
  have hcase := cmdLoopEnter_case (H := H) hwf loopId
  generalize cmdLoopEnter H ctx loopId = out at hcase ⊢
  cases hcase with
  | refused h => exact iff_of_true rfl h
  | reopens h => exact iff_of_false (by simp) h.not_refused
  | allocates h => exact iff_of_false (by simp) h.not_refused

theorem tooDeep_iff_activeCount {ctx : SessionCtx D} (hwf : WellFormed ctx)
    (hdepth : ctx.loopDepth = ctx.activeCount) :
    ctx.loopDepth ≥ maxLoopDepth ↔ ctx.activeCount = 16 := by
  have hle := hwf.loopDepth_le
  simp only [maxLoopDepth] at hle ⊢
  omega

/-- The inductive form: a well-formed context whose counter is exact accounts for its depth. -/
theorem depthAccounted_of_exact {ctx : SessionCtx D} (hwf : WellFormed ctx)
    (hdepth : ctx.loopDepth = ctx.activeCount) : ctx.DepthAccounted H where
  depth := hdepth
  tooDeep := by
    intro loopId hrecord
    rw [loopEnter_overflow_iff hwf, ← tooDeep_iff_activeCount hwf hdepth]
    constructor
    · rintro (hdeep | ⟨hnone, hfull⟩)
      · exact hdeep
      · -- The table is not full for this loop.
        rcases hrecord with ⟨rec, hrec, hmatch⟩ | hroom
        · rw [hnone rec hrec] at hmatch
          cases hmatch
        · exact absurd hroom (Int.not_lt.2 hfull)
    · exact Or.inl
  anyLoop := by
    intro hactive loopId
    rw [loopEnter_overflow_iff hwf]
    exact Or.inl ((tooDeep_iff_activeCount hwf hdepth).2 hactive)

/-- The depth is accounted for in every state of a run from the opening of a session exactly when
no CMD_FINALIZE of the run is issued while a loop is active. -/
theorem depthAccounted_iff_no_active_finalize (H : Sha256 D) (cmds : List Cmd) :
    (exec H).Always (SessionCtx.DepthAccounted H) (taOpenSessionEntryPoint H) cmds ↔
      (exec H).StepsMeet (fun ctx cmd => cmd = .finalize → ctx.activeCount = 0)
        (taOpenSessionEntryPoint H) cmds := by
  apply (exec H).always_iff_stepsMeet (J := fun ctx => WellFormed ctx ∧
    ctx.loopDepth = ctx.activeCount) (P := fun _ _ => True)
  · rintro ctx ⟨hwf, hdepth⟩
    -- An exact counter of a well-formed context accounts for the depth.
    exact depthAccounted_of_exact hwf hdepth
  · rintro ctx cmd ⟨hwf, hdepth⟩ _ hC
    refine ⟨wellFormed_exec hwf cmd, ?_⟩
    cases cmd with
    | init alloc => exact exact_init alloc ctx
    | event e => exact loopDepth_handle hwf hdepth e
    | finalize =>
        rcases activeCount_cmdFinalize (H := H) hwf with ⟨hcount, hsame⟩
        -- With no loop active there is nothing to clear.
        have hnone : ctx.activeCount = 0 := hC rfl
        simp only [exec, hcount, hsame, hdepth, hnone]
    | getAuth out => exact hdepth
    | getLog out => exact hdepth
  · rintro ctx cmd ⟨hwf, hdepth⟩ _ hnext rfl
    rcases activeCount_cmdFinalize (H := H) hwf with ⟨hcount, hsame⟩
    have hexact : (cmdFinalize H ctx).2.loopDepth = (cmdFinalize H ctx).2.activeCount :=
      hnext.depth
    -- The flags are gone and the counter is what it was, so it was zero already.
    rw [hcount, hsame, hdepth] at hexact
    exact_mod_cast hexact
  · refine ⟨wellFormed_open, ?_⟩
    simp [taOpenSessionEntryPoint, SessionCtx.activeCount, SessionCtx.live]
  · exact (exec H).stepsMeet_of_forall (fun _ _ => trivial) _ _

/-- One loop left open at a CMD_FINALIZE is enough: the depth stays 1 with no record active. -/
theorem depthAccounted_broken_by_finalize :
    ¬ ∀ cmds : List Cmd, (exec Sha256.free).Always (SessionCtx.DepthAccounted Sha256.free)
        (taOpenSessionEntryPoint Sha256.free) cmds := by
  intro h
  have hend := (Machine.always_iff_forall_run (m := exec Sha256.free)).1
    (h [.init (.ok 1), .event (.loopEnter 7), .finalize])
    [.init (.ok 1), .event (.loopEnter 7), .finalize] [] rfl
  have hdepth : ((exec Sha256.free).run (taOpenSessionEntryPoint Sha256.free)
      [.init (.ok 1), .event (.loopEnter 7), .finalize]).loopDepth = 1 := by decide +kernel
  have hactive : ((exec Sha256.free).run (taOpenSessionEntryPoint Sha256.free)
      [.init (.ok 1), .event (.loopEnter 7), .finalize]).activeCount = 0 := by decide +kernel
  have hexact := hend.depth
  rw [hdepth, hactive] at hexact
  exact absurd hexact (by decide)

end SecureWorld
end CFlat
