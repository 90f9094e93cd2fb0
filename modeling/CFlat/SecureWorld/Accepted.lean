import CFlat.SecureWorld.LoopDepth

/-!
# Accepted — the loop events that a session has accepted

A log beside the session lists the loop entries and exits that returned TEE_SUCCESS since the last
CMD_INIT or CMD_FINALIZE.  Every run keeps the active records in step with it (`Accounts`): for
each loop id as many records are active as entries in the log are not made up for by an exit.
-/

namespace CFlat
namespace SecureWorld

open Lib

variable {D : Type} {H : Sha256 D} {ctx ctx' : SessionCtx D}

/-! ## The log -/

/-- The log, newest event first, after one more command and its reply. -/
def logAccepted (log : List Event) (cmd : Cmd) (reply : Reply) : List Event :=
  match cmd with
  | .init _ => []
  | .finalize => []
  | .event e => if e.isBracket && reply.result == .success then e :: log else log
  | _ => log

variable (H) in
/-- A session with its log. -/
def logged : Machine (SessionCtx D × List Event) Cmd Reply := (exec H).observed logAccepted

/-- The number of accepted entries of a loop that are not yet closed. -/
def openCount (log : List Event) (loopId : UInt64) : Nat :=
  log.count (.loopEnter loopId) - log.count (.loopExit loopId)

/-- The loops that are still open, the one entered last first. -/
def openLoops : List Event → List UInt64
  | [] => []
  | .loopEnter loopId :: log => loopId :: openLoops log
  | .loopExit loopId :: log => (openLoops log).erase loopId
  | _ :: log => openLoops log

/-! ## Records of one loop -/

/-- The number of records `i < loop_count` of a loop. -/
def SessionCtx.recordsOf (ctx : SessionCtx D) (loopId : UInt64) : Nat :=
  ctx.live.countP fun rec => rec.loopId == loopId

theorem activeOf_pos_iff {loopId : UInt64} :
    0 < ctx.activeOf loopId ↔ ∃ rec ∈ ctx.live, isActiveOf loopId rec = true :=
  List.countP_pos_iff

theorem activeOf_eq_zero_iff {loopId : UInt64} :
    ctx.activeOf loopId = 0 ↔ ∀ rec ∈ ctx.live, isActiveOf loopId rec = false := by
  simp [SessionCtx.activeOf, List.countP_eq_zero]

theorem activeOf_le_activeCount (ctx : SessionCtx D) (loopId : UInt64) :
    ctx.activeOf loopId ≤ ctx.activeCount :=
  List.countP_mono_left (fun _ _ h => isActive_of_isActiveOf h)

theorem activeOf_le_recordsOf (ctx : SessionCtx D) (loopId : UInt64) :
    ctx.activeOf loopId ≤ ctx.recordsOf loopId :=
  List.countP_mono_left (fun rec _ h => beq_iff_eq.2 (loopId_of_isActiveOf rec h))

/-- A view of the records that a write leaves alone counts as before. -/
theorem recordsOf_of_map (h : ctx'.live.map (·.loopId) = ctx.live.map (·.loopId))
    (loopId : UInt64) : ctx'.recordsOf loopId = ctx.recordsOf loopId := by
  have hview : ∀ c : SessionCtx D,
      c.recordsOf loopId = (c.live.map (·.loopId)).countP (· == loopId) := by
    intro c
    rw [List.countP_map]
    rfl
  rw [hview, hview, h]

section Cases

variable {loopId : UInt64} {i : Nat} {stale rec : LoopRecord D}

theorem recordsOf_reopens (h : Reopens H ctx loopId i ctx') (loopId' : UInt64) :
    ctx'.recordsOf loopId' = ctx.recordsOf loopId' := by
  refine recordsOf_of_map ?_ loopId'
  rw [h.live]
  exact map_updateFirst_of_invariant (fun _ _ _ => rfl)

theorem recordsOf_allocates (h : Allocates H ctx loopId stale ctx') (loopId' : UInt64) :
    ctx'.recordsOf loopId' = ctx.recordsOf loopId' + if loopId' = loopId then 1 else 0 := by
  rw [SessionCtx.recordsOf, h.live, List.countP_append, List.countP_singleton]
  by_cases hid : loopId' = loopId
  · simp [SessionCtx.recordsOf, LoopRecord.opened, LoopRecord.recycled, hid]
  · simp [SessionCtx.recordsOf, LoopRecord.opened, LoopRecord.recycled, hid, Ne.symm hid]

theorem recordsOf_closes (h : Closes ctx loopId i rec ctx') (loopId' : UInt64) :
    ctx'.recordsOf loopId' = ctx.recordsOf loopId' := by
  refine recordsOf_of_map ?_ loopId'
  rw [h.live]
  exact map_updateFirst_of_invariant (fun _ _ _ => rfl)

theorem recordsOf_counts (h : Counts ctx loopId i ctx') (loopId' : UInt64) :
    ctx'.recordsOf loopId' = ctx.recordsOf loopId' :=
  recordsOf_of_map (h.map_live fun _ => rfl) loopId'

theorem activeOf_reopens (h : Reopens H ctx loopId i ctx') (loopId' : UInt64) :
    ctx'.activeOf loopId' = ctx.activeOf loopId' + if loopId' = loopId then 1 else 0 := by
  unfold SessionCtx.activeOf
  rw [h.live]
  by_cases hid : loopId' = loopId
  · subst hid
    rw [if_pos rfl]
    refine countP_updateFirst_of_enters ?_ h.mem_inactive
    intro rec _ htest
    have hrec := loopId_of_isInactiveOf rec htest
    simp [isActiveOf, LoopRecord.opened, hrec, isActive_of_isInactiveOf htest]
  · rw [if_neg hid]
    refine countP_updateFirst_of_invariant ?_
    intro rec _ htest
    have hrec := loopId_of_isInactiveOf rec htest
    simp [isActiveOf, LoopRecord.opened, hrec, Ne.symm hid]

theorem activeOf_allocates (h : Allocates H ctx loopId stale ctx') (loopId' : UInt64) :
    ctx'.activeOf loopId' = ctx.activeOf loopId' + if loopId' = loopId then 1 else 0 := by
  rw [SessionCtx.activeOf, h.live, List.countP_append, List.countP_singleton]
  by_cases hid : loopId' = loopId
  · simp [SessionCtx.activeOf, isActiveOf, LoopRecord.opened, LoopRecord.recycled, hid]
  · simp [SessionCtx.activeOf, isActiveOf, LoopRecord.opened, LoopRecord.recycled, hid,
      Ne.symm hid]

theorem activeOf_closes (h : Closes ctx loopId i rec ctx') (loopId' : UInt64) :
    ctx'.activeOf loopId' + (if loopId' = loopId then 1 else 0) = ctx.activeOf loopId' := by
  unfold SessionCtx.activeOf
  rw [h.live]
  by_cases hid : loopId' = loopId
  · subst hid
    rw [if_pos rfl]
    exact countP_updateFirst_of_leaves
      (fun rec _ htest => ⟨htest, by simp [isActiveOf, LoopRecord.closed]⟩) h.mem_active
  · rw [if_neg hid]
    refine countP_updateFirst_of_invariant ?_
    intro rec _ htest
    have hrec := loopId_of_isActiveOf rec htest
    simp [isActiveOf, LoopRecord.closed, hrec, Ne.symm hid]

theorem activeOf_counts (h : Counts ctx loopId i ctx') (loopId' : UInt64) :
    ctx'.activeOf loopId' = ctx.activeOf loopId' := by
  have hview := h.map_live (g := isActiveOf loopId') fun _ => rfl
  have hcount := congrArg (List.countP id) hview
  rwa [List.countP_map, List.countP_map] at hcount

end Cases

/-! ## The log accounts for the active records -/

/-- The log of a session accounts for its active records: of each loop as many are active as its
entries in the log exceed its exits, and they are the ones that are still open. -/
structure Accounts (s : SessionCtx D × List Event) : Prop where
  wellFormed : WellFormed s.1
  depth : (s.1.activeCount : Int) ≤ s.1.loopDepth
  balance : ∀ loopId,
    s.1.activeOf loopId + s.2.count (.loopExit loopId) = s.2.count (.loopEnter loopId)
  opened : ∀ loopId, (openLoops s.2).count loopId = s.1.activeOf loopId

theorem Accounts.openCount_eq {s : SessionCtx D × List Event} (h : Accounts s) (loopId : UInt64) :
    openCount s.2 loopId = s.1.activeOf loopId := by
  rw [openCount, ← h.balance loopId, Nat.add_sub_cancel]

/-- A context with no live record, with an empty log. -/
theorem accounts_of_live_nil (hwf : WellFormed ctx) (hlive : ctx.live = []) :
    Accounts (ctx, []) where
  wellFormed := hwf
  depth := by simpa [SessionCtx.activeCount, hlive] using hwf.loopDepth_nonneg
  balance := by simp [SessionCtx.activeOf, hlive]
  opened := by simp [openLoops, SessionCtx.activeOf, hlive]

/-- Another context with the same active records under the same log. -/
theorem Accounts.transfer {log : List Event} (h : Accounts (ctx, log)) (hwf : WellFormed ctx')
    (hdepth : ctx'.loopDepth = ctx.loopDepth) (hcount : ctx'.activeCount = ctx.activeCount)
    (hactive : ∀ loopId, ctx'.activeOf loopId = ctx.activeOf loopId) : Accounts (ctx', log) where
  wellFormed := hwf
  depth := by simpa only [hdepth, hcount] using h.depth
  balance := by simpa only [hactive] using h.balance
  opened := by simpa only [hactive] using h.opened

/-- One more active record of a loop, and its entry in the log. -/
theorem Accounts.entered {log : List Event} (h : Accounts (ctx, log)) (hwf : WellFormed ctx')
    {loopId : UInt64} (hdepth : ctx'.loopDepth = ctx.loopDepth + 1)
    (hcount : ctx'.activeCount = ctx.activeCount + 1)
    (hactive : ∀ loopId',
      ctx'.activeOf loopId' = ctx.activeOf loopId' + if loopId' = loopId then 1 else 0) :
    Accounts (ctx', .loopEnter loopId :: log) where
  wellFormed := hwf
  depth := by
    have hold := h.depth
    simp only [hdepth, hcount] at hold ⊢
    omega
  balance := by
    intro loopId'
    have hold := h.balance loopId'
    by_cases hid : loopId' = loopId
    · subst hid
      simp only [hactive, if_true, List.count_cons_self, List.count_cons_of_ne (by simp :
        Event.loopEnter loopId' ≠ .loopExit loopId')] at hold ⊢
      omega
    · simpa [hactive, hid, Ne.symm hid] using hold
  opened := by
    intro loopId'
    have hold := h.opened loopId'
    by_cases hid : loopId' = loopId
    · subst hid
      simp only [openLoops, hactive, if_true, List.count_cons_self] at hold ⊢
      omega
    · simpa [openLoops, hactive, hid, Ne.symm hid] using hold

/-- One active record less of a loop, and its exit in the log. -/
theorem Accounts.left {log : List Event} (h : Accounts (ctx, log)) (hwf : WellFormed ctx')
    {loopId : UInt64} (hdepth : ctx'.loopDepth = ctx.loopDepth - 1)
    (hcount : ctx'.activeCount + 1 = ctx.activeCount)
    (hactive : ∀ loopId',
      ctx'.activeOf loopId' + (if loopId' = loopId then 1 else 0) = ctx.activeOf loopId') :
    Accounts (ctx', .loopExit loopId :: log) where
  wellFormed := hwf
  depth := by
    have hold := h.depth
    simp only [hdepth, ← hcount] at hold ⊢
    omega
  balance := by
    intro loopId'
    have hold := h.balance loopId'
    have hnow := hactive loopId'
    by_cases hid : loopId' = loopId
    · subst hid
      simp only [if_true, List.count_cons_self, List.count_cons_of_ne (by simp :
        Event.loopExit loopId' ≠ .loopEnter loopId')] at hold hnow ⊢
      omega
    · simp only [if_neg hid, Nat.add_zero] at hnow
      simpa [hnow, Ne.symm hid] using hold
  opened := by
    intro loopId'
    have hold := h.opened loopId'
    have hnow := hactive loopId'
    by_cases hid : loopId' = loopId
    · subst hid
      simp only [openLoops, if_true, List.count_erase_self] at hold hnow ⊢
      omega
    · simp only [if_neg hid, Nat.add_zero] at hnow
      simpa [openLoops, hnow, List.count_erase_of_ne hid] using hold

/-- Commands that are no accepted loop entry and no accepted loop exit leave the log alone. -/
theorem logged_event (s : SessionCtx D × List Event) (e : Event) :
    (logged H s (.event e)).2 = ((handle H s.1 e).2,
      if e.isBracket && (handle H s.1 e).1 == .success then e :: s.2 else s.2) := rfl

/-- The step lemma. -/
theorem Accounts.step {s : SessionCtx D × List Event} (h : Accounts s) (cmd : Cmd) :
    Accounts (logged H s cmd).2 := by
  rcases s with ⟨ctx, log⟩
  cases cmd with
  | init alloc =>
      exact accounts_of_live_nil (wellFormed_init alloc ctx) (live_init (H := H) alloc ctx).1
  | finalize =>
      have hcount : (cmdFinalize H ctx).2.activeCount = 0 :=
        (activeCount_cmdFinalize h.wellFormed).1
      have hwf : WellFormed (cmdFinalize H ctx).2 := wellFormed_exec h.wellFormed .finalize
      have hactive : ∀ loopId, (cmdFinalize H ctx).2.activeOf loopId = 0 := by
        intro loopId
        have hle := activeOf_le_activeCount (cmdFinalize H ctx).2 loopId
        omega
      have hclosed : Accounts ((cmdFinalize H ctx).2, []) :=
        ⟨hwf, by simpa [hcount] using hwf.loopDepth_nonneg, by simpa using hactive,
          fun loopId => (hactive loopId).symm⟩
      exact hclosed
  | event e =>
      have hwf := wellFormed_handle (H := H) h.wellFormed e
      have hcase := event_case (H := H) h.wellFormed e
      rw [logged_event]
      simp only at hwf ⊢
      generalize handle H ctx e = out at hwf hcase ⊢
      cases hcase with
      | enterRefused => exact h
      | reopens hr =>
          exact h.entered hwf hr.loopDepth (activeCount_enter hr) (activeOf_reopens hr)
      | allocates ha =>
          exact h.entered hwf ha.loopDepth (activeCount_allocate ha) (activeOf_allocates ha)
      | exitRefused hres =>
          simp only [Event.isBracket, Bool.true_and, beq_iff_eq, hres, if_false]
          exact h
      | closes hc => exact h.left hwf hc.loopDepth (activeCount_exit hc) (activeOf_closes hc)
      | ignored => exact h
      | counts hc =>
          exact h.transfer hwf hc.loopDepth (activeCount_iteration hc) (activeOf_counts hc)
      | untouched hbracket _ hframe =>
          simp only [hbracket, Bool.false_and, Bool.false_eq_true, if_false]
          refine h.transfer hwf hframe.loopDepth ?_ ?_
          · rw [SessionCtx.activeCount, hframe.live, SessionCtx.activeCount]
          · intro loopId
            rw [SessionCtx.activeOf, hframe.live, SessionCtx.activeOf]
  | getAuth out => exact h
  | getLog out => exact h

/-- The run lemma. -/
theorem Accounts.run {s : SessionCtx D × List Event} (h : Accounts s) (cmds : List Cmd) :
    Accounts ((logged H).run s cmds) :=
  (logged H).run_invariant (I := Accounts) (P := fun _ => True)
    (fun _ cmd _ h => h.step cmd) h cmds (fun _ _ => trivial)

theorem accounts_open : Accounts (taOpenSessionEntryPoint H, []) :=
  accounts_of_live_nil wellFormed_open rfl

theorem accounts_init (alloc : AllocOutcome) (ctx : SessionCtx D) :
    Accounts ((cmdInit H alloc ctx).2, []) :=
  accounts_of_live_nil (wellFormed_init alloc ctx) (live_init alloc ctx).1

theorem run_logged (s : SessionCtx D × List Event) (cmds : List Cmd) :
    ((logged H).run s cmds).1 = (exec H).run s.1 cmds :=
  (exec H).run_observed logAccepted s cmds

/-- A loop exit is accepted exactly when an accepted entry of the loop is not yet closed, the last
one or not. -/
theorem Accounts.exit_accepted_iff {s : SessionCtx D × List Event} (h : Accounts s)
    (loopId : UInt64) :
    (cmdLoopExit s.1 loopId).1 = .success ↔ 0 < openCount s.2 loopId := by
  rw [h.openCount_eq]
  have hcase := cmdLoopExit_case s.1 loopId
  generalize cmdLoopExit s.1 loopId = out at hcase ⊢
  cases hcase with
  | underflow hdepth =>
      refine iff_of_false (by simp) ?_
      -- Without depth no record is active.
      have hle := activeOf_le_activeCount s.1 loopId
      have hcount := h.depth
      omega
  | notFound _ hnone =>
      refine iff_of_false (by simp) ?_
      rw [activeOf_eq_zero_iff.2 hnone]
      exact Nat.lt_irrefl 0
  | closes hc => exact iff_of_true rfl (activeOf_pos_iff.2 hc.mem_active)

end SecureWorld
end CFlat
