import Mathlib.Algebra.BigOperators.Finprod
import CFlat.SecureWorld.Accepted

/-!
# Multiplicity — how many records a loop takes

`cmd_loop_enter` opens an inactive record of the loop again before it takes a new one.  So the
number of records of a loop is the largest number of its entries that were open at one time since
the last CMD_INIT (`records_eq_peak`), whatever was refused, left unclosed or finalised in between.
-/

namespace CFlat
namespace SecureWorld

open Lib

variable {D : Type} {H : Sha256 D}

/-! ## Starts and peaks -/

variable (H) in
/-- A session at its opening, or right after a CMD_INIT, successful or not. -/
inductive CycleStart : SessionCtx D → Prop
  | opened : CycleStart (taOpenSessionEntryPoint H)
  | init (alloc : AllocOutcome) (ctx : SessionCtx D) : CycleStart (cmdInit H alloc ctx).2

theorem CycleStart.accounts {ctx : SessionCtx D} (h : CycleStart H ctx) : Accounts (ctx, []) := by
  cases h with
  | opened => exact accounts_open
  | init alloc ctx => exact accounts_init alloc ctx

theorem CycleStart.live {ctx : SessionCtx D} (h : CycleStart H ctx) : ctx.live = [] := by
  cases h with
  | opened => rfl
  | init alloc ctx => exact (live_init alloc ctx).1

variable (H) in
/-- The largest number of open entries of a loop over all moments of a run. -/
def peak (loopId : UInt64) (s : SessionCtx D × List Event) : List Cmd → Nat
  | [] => openCount s.2 loopId
  | cmd :: cmds => max (openCount s.2 loopId) (peak loopId (logged H s cmd).2 cmds)

theorem openCount_le_peak (loopId : UInt64) (s : SessionCtx D × List Event) (cmds : List Cmd) :
    openCount s.2 loopId ≤ peak H loopId s cmds := by
  cases cmds with
  | nil => exact Nat.le_refl _
  | cons cmd cmds => exact Nat.le_max_left _ _

/-- A peak is bounded exactly by what bounds every moment. -/
theorem peak_le_iff {loopId : UInt64} {cmds : List Cmd} {n : Nat} :
    ∀ {s : SessionCtx D × List Event}, peak H loopId s cmds ≤ n ↔
      ∀ before behind, cmds = before ++ behind →
        openCount ((logged H).run s before).2 loopId ≤ n := by
  induction cmds with
  | nil =>
      intro s
      constructor
      · intro h before behind hsplit
        obtain rfl : before = [] := (List.append_eq_nil_iff.1 hsplit.symm).1
        exact h
      · exact fun h => h [] [] rfl
  | cons cmd cmds ih =>
      intro s
      rw [peak, Nat.max_le, ih]
      constructor
      · rintro ⟨hfirst, hrest⟩ before behind hsplit
        cases before with
        | nil => exact hfirst
        | cons cmd' before =>
            obtain ⟨rfl, hbehind⟩ := List.cons.inj hsplit
            exact hrest before behind hbehind
      · intro h
        refine ⟨h [] _ rfl, ?_⟩
        intro before behind hsplit
        exact h (cmd :: before) behind (by rw [hsplit]; rfl)

/-! ## The number of records -/

theorem recordsOf_finalize {ctx : SessionCtx D} (hwf : WellFormed ctx) (loopId : UInt64) :
    (cmdFinalize H ctx).2.recordsOf loopId = ctx.recordsOf loopId := by
  have hlive : (cmdFinalize H ctx).2.live = ctx.live.map LoopRecord.deactivated :=
    live_forceClose hwf
  refine recordsOf_of_map ?_ loopId
  rw [hlive, List.map_map]
  refine List.map_congr_left ?_
  intro rec _
  simp only [Function.comp_apply, LoopRecord.deactivated]
  split <;> rfl

/-- A command gives a loop a new record only for an entry that all its records are active for. -/
inductive RecordsCase (loopId : UInt64) (ctx ctx' : SessionCtx D) : Prop
  | same (h : ctx'.recordsOf loopId = ctx.recordsOf loopId)
  | added (h : ctx'.recordsOf loopId = ctx.recordsOf loopId + 1)
      (hactive : ctx'.activeOf loopId = ctx'.recordsOf loopId)

theorem recordsOf_case {ctx : SessionCtx D} (hwf : WellFormed ctx) {cmd : Cmd}
    (hcmd : ∀ alloc, cmd ≠ .init alloc) (loopId : UInt64) :
    RecordsCase loopId ctx (exec H ctx cmd).2 := by
  cases cmd with
  | init alloc => exact absurd rfl (hcmd alloc)
  | finalize => exact .same (recordsOf_finalize hwf loopId)
  | getAuth out => exact .same rfl
  | getLog out => exact .same rfl
  | event e =>
      have hcase := table_case (H := H) hwf e
      simp only [exec]
      generalize (handle H ctx e).2 = ctx' at hcase ⊢
      cases hcase with
      | untouched h =>
          refine .same ?_
          rw [SessionCtx.recordsOf, h.live, SessionCtx.recordsOf]
      | reopens h => exact .same (recordsOf_reopens h loopId)
      | closes h => exact .same (recordsOf_closes h loopId)
      | counts h => exact .same (recordsOf_counts h loopId)
      | @allocates _ loopId' _ h =>
          have hrecords := recordsOf_allocates h loopId
          have hactive := activeOf_allocates h loopId
          by_cases hid : loopId = loopId'
          · rw [if_pos hid] at hrecords hactive
            refine .added hrecords ?_
            -- No inactive record of the loop was found.
            have hall : ctx.activeOf loopId = ctx.recordsOf loopId := by
              refine List.countP_congr ?_
              intro rec hrec
              have hnone := h.none_inactive rec hrec
              subst hid
              simp only [isInactiveOf, isActiveOf] at hnone ⊢
              cases hrecId : rec.loopId == loopId <;> simp_all
            rw [hactive, hrecords, hall]
          · rw [if_neg hid] at hrecords
            exact .same hrecords

/-- The step lemma: the number of records follows the number of open entries upwards. -/
theorem recordsOf_step {s : SessionCtx D × List Event} (h : Accounts s) {cmd : Cmd}
    (hcmd : ∀ alloc, cmd ≠ .init alloc) (loopId : UInt64) :
    (logged H s cmd).2.1.recordsOf loopId =
      max (s.1.recordsOf loopId) (openCount (logged H s cmd).2.2 loopId) := by
  rw [(h.step (H := H) cmd).openCount_eq]
  have hle := activeOf_le_recordsOf (logged H s cmd).2.1 loopId
  cases recordsOf_case (H := H) h.wellFormed hcmd loopId with
  | same hsame =>
      have hrecords : (logged H s cmd).2.1.recordsOf loopId = s.1.recordsOf loopId := hsame
      rw [← hrecords, Nat.max_eq_left hle]
  | added hadded hactive =>
      have hrecords : (logged H s cmd).2.1.recordsOf loopId = s.1.recordsOf loopId + 1 := hadded
      have hall : (logged H s cmd).2.1.activeOf loopId = (logged H s cmd).2.1.recordsOf loopId :=
        hactive
      rw [hall, Nat.max_eq_right]
      omega

/-- The run lemma. -/
theorem recordsOf_run {cmds : List Cmd} (hcmds : ∀ cmd ∈ cmds, ∀ alloc, cmd ≠ .init alloc)
    (loopId : UInt64) :
    ∀ {s : SessionCtx D × List Event}, Accounts s →
      ((logged H).run s cmds).1.recordsOf loopId =
        max (s.1.recordsOf loopId) (peak H loopId s cmds) := by
  induction cmds with
  | nil =>
      intro s h
      rw [Machine.run_nil, peak, h.openCount_eq,
        Nat.max_eq_left (activeOf_le_recordsOf s.1 loopId)]
  | cons cmd cmds ih =>
      intro s h
      have hstep := recordsOf_step h (hcmds cmd (by simp)) (H := H) loopId
      have hrest := ih (fun c hc => hcmds c (by simp [hc])) (h.step (H := H) cmd)
      have hnow : openCount s.2 loopId ≤ s.1.recordsOf loopId := by
        rw [h.openCount_eq]
        exact activeOf_le_recordsOf s.1 loopId
      have hpeak := openCount_le_peak (H := H) loopId (logged H s cmd).2 cmds
      rw [Machine.run_cons, hrest, hstep, peak]
      omega

/-- The records of all loops together are the live records. -/
theorem sum_recordsOf (ctx : SessionCtx D) : ∑ᶠ loopId, ctx.recordsOf loopId = ctx.live.length := by
  have hcount : ∀ loopId, ctx.recordsOf loopId = (ctx.live.map (·.loopId)).count loopId := by
    intro loopId
    rw [List.count, List.countP_map]
    rfl
  simp only [hcount]
  rw [finsum_eq_sum_of_support_subset (s := (ctx.live.map (·.loopId)).toFinset)]
  · rw [List.sum_toFinset_count_eq_length, List.length_map]
  · intro loopId hne
    rw [List.coe_toFinset]
    exact List.count_pos_iff.1 (Nat.pos_of_ne_zero hne)

/-! ## All runs -/

variable (H) in
/-- What the live records say of the commands since a start, given the commands. -/
structure RecordsPeak (ctx : SessionCtx D) (cmds : List Cmd) : Prop where
  /-- A loop has as many records as entries that were open at one time. -/
  records : ∀ loopId, ((exec H).run ctx cmds).recordsOf loopId = peak H loopId (ctx, []) cmds
  /-- A loop that is entered, and never while it is open, has one record. -/
  single : ∀ loopId,
    (∃ before behind, cmds = before ++ .event (.loopEnter loopId) :: behind ∧
      (handle H ((exec H).run ctx before) (.loopEnter loopId)).1 = .success) →
      (∀ before behind, cmds = before ++ .event (.loopEnter loopId) :: behind →
        openCount ((logged H).run (ctx, []) before).2 loopId = 0) →
          ((exec H).run ctx cmds).recordsOf loopId = 1
  /-- An entry within the nesting limit is refused only with all 64 records in use, and those of
  its loop active. -/
  refused : ∀ loopId, (handle H ((exec H).run ctx cmds) (.loopEnter loopId)).1 ≠ .success →
    ((exec H).run ctx cmds).loopDepth < maxLoopDepth →
      ∑ᶠ loopId', peak H loopId' (ctx, []) cmds = 64 ∧
        ∀ rec ∈ ((exec H).run ctx cmds).live, rec.loopId = loopId → rec.isActive = true

/-- An accepted entry is open right after it. -/
theorem openCount_enter {s : SessionCtx D × List Event} (h : Accounts s) {loopId : UInt64}
    (hres : (handle H s.1 (.loopEnter loopId)).1 = .success) :
    openCount (logged H s (.event (.loopEnter loopId))).2.2 loopId = openCount s.2 loopId + 1 := by
  have hle : s.2.count (.loopExit loopId) ≤ s.2.count (.loopEnter loopId) := by
    rw [← h.balance loopId]
    exact Nat.le_add_left _ _
  rw [logged_event]
  simp only [Event.isBracket, hres, beq_self_eq_true, Bool.and_self, if_true, openCount,
    List.count_cons_self, ne_eq, reduceCtorEq, not_false_eq_true, List.count_cons_of_ne]
  omega

theorem openCount_cons_le {log : List Event} {e : Event} {loopId : UInt64}
    (he : e ≠ .loopEnter loopId) : openCount (e :: log) loopId ≤ openCount log loopId := by
  rw [openCount, List.count_cons_of_ne he]
  exact Nat.sub_le_sub_left List.count_le_count_cons _

/-- Only an entry opens a loop, and it opens one. -/
theorem openCount_step_le {s : SessionCtx D × List Event} (h : Accounts s) (cmd : Cmd)
    {loopId : UInt64} (hopen : openCount s.2 loopId ≤ 1)
    (henter : cmd = .event (.loopEnter loopId) → openCount s.2 loopId = 0) :
    openCount (logged H s cmd).2.2 loopId ≤ 1 := by
  cases cmd with
  | event e =>
      by_cases he : e = .loopEnter loopId
      · subst he
        by_cases hres : (handle H s.1 (.loopEnter loopId)).1 = .success
        · rw [openCount_enter h hres, henter rfl]
        · rw [logged_event]
          simpa [hres] using hopen
      · rw [logged_event]
        simp only
        split
        · exact Nat.le_trans (openCount_cons_le he) hopen
        · exact hopen
  | init alloc => exact Nat.zero_le 1
  | finalize => exact Nat.zero_le 1
  | getAuth out => exact hopen
  | getLog out => exact hopen

/-- A loop that is entered only while it is closed is open at most once. -/
theorem peak_le_one {cmds : List Cmd} {loopId : UInt64} :
    ∀ {s : SessionCtx D × List Event}, Accounts s → openCount s.2 loopId ≤ 1 →
      (∀ before behind, cmds = before ++ .event (.loopEnter loopId) :: behind →
        openCount ((logged H).run s before).2 loopId = 0) → peak H loopId s cmds ≤ 1 := by
  induction cmds with
  | nil => exact fun _ hopen _ => hopen
  | cons cmd cmds ih =>
      intro s h hopen hclosed
      rw [peak]
      refine Nat.max_le.2 ⟨hopen, ih (h.step cmd) ?_ ?_⟩
      · refine openCount_step_le h cmd hopen ?_
        rintro rfl
        exact hclosed [] cmds rfl
      · intro before behind hsplit
        exact hclosed (cmd :: before) behind (by rw [hsplit]; rfl)

/-- The records of every cycle are as many as its peaks. -/
theorem records_eq_peak (H : Sha256 D) {ctx : SessionCtx D} (hstart : CycleStart H ctx)
    {cmds : List Cmd} (hcmds : ∀ cmd ∈ cmds, ∀ alloc, cmd ≠ .init alloc) :
    RecordsPeak H ctx cmds := by
  have hrecords : ∀ loopId,
      ((exec H).run ctx cmds).recordsOf loopId = peak H loopId (ctx, []) cmds := by
    intro loopId
    have hrun := recordsOf_run (H := H) hcmds loopId hstart.accounts
    have hnone : ctx.recordsOf loopId = 0 := by simp [SessionCtx.recordsOf, hstart.live]
    rwa [run_logged, hnone, Nat.zero_max] at hrun
  refine ⟨hrecords, ?_, ?_⟩
  · rintro loopId ⟨before, behind, hsplit, hres⟩ hclosed
    rw [hrecords]
    refine Nat.le_antisymm (peak_le_one hstart.accounts (Nat.zero_le 1) hclosed) ?_
    -- Right behind the accepted entry the loop is open.
    have hacc := hstart.accounts.run (H := H) before
    rw [← run_logged (H := H) (ctx, []) before] at hres
    have hopened := openCount_enter hacc hres
    have hmoment := peak_le_iff.1 (Nat.le_refl (peak H loopId (ctx, []) cmds))
      (before ++ [.event (.loopEnter loopId)]) behind (by simp [hsplit])
    rw [Machine.run_append, Machine.run_cons, Machine.run_nil, hopened] at hmoment
    omega
  · intro loopId hres hdepth
    have hwf : WellFormed ((exec H).run ctx cmds) := wellFormed_run hstart.accounts.wellFormed cmds
    have hcase := cmdLoopEnter_case (H := H) hwf loopId
    simp only [handle] at hres
    generalize cmdLoopEnter H ((exec H).run ctx cmds) loopId = out at hcase hres
    cases hcase with
    | reopens => exact absurd rfl hres
    | allocates => exact absurd rfl hres
    | refused h =>
        rcases h with hdeep | ⟨hnone, hfull⟩
        · exact absurd hdepth (Int.not_lt.2 hdeep)
        · refine ⟨?_, ?_⟩
          · have hlen := length_live hwf
            have hle := hwf.loopCount_le
            simp only [← hrecords, sum_recordsOf]
            simp only [maxLoopRecords] at hfull hle
            omega
          · intro rec hrec hid
            have hshut := hnone rec hrec
            simpa [isInactiveOf, hid] using hshut

/-- A run in which one loop is entered twice and another is entered while it is open. -/
theorem records_eq_peak_reentered :
    RecordsPeak Sha256.free (taOpenSessionEntryPoint Sha256.free)
      ([.loopEnter 1, .loopExit 1, .loopEnter 1, .loopEnter 2, .loopEnter 2].map .event) :=
  records_eq_peak Sha256.free .opened (by simp)

end SecureWorld
end CFlat
