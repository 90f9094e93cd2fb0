import CFlat.SecureWorld.Multiplicity

/-!
# Lanes — every loop is counted on its own

All loops share one table, one depth and one hash.  Of the table a loop owns the records with its
id, its lane, and `lanes_apart` says that a lane is made by the events of its own loop alone: it is
a machine that never sees another loop.  What the loops share shows only in which entries are
refused.
-/

namespace CFlat
namespace SecureWorld

open Lib

variable {D : Type} {H : Sha256 D} {ctx ctx' : SessionCtx D} {loopId : UInt64}

/-! ## One loop -/

/-- A record without what it shares with other loops: its place, its depth and its hashes. -/
structure LaneRecord where
  iterations : UInt32
  invocations : UInt32
  isActive : Bool
  deriving DecidableEq, Repr

namespace LaneRecord

def reopened (rec : LaneRecord) : LaneRecord :=
  { rec with invocations := rec.invocations + 1, isActive := true }

def closed (rec : LaneRecord) : LaneRecord := { rec with isActive := false }

def iterated (rec : LaneRecord) : LaneRecord := { rec with iterations := rec.iterations + 1 }

end LaneRecord

/-- What the table holds of one loop, oldest record first. -/
abbrev Lane := List LaneRecord

/-- What happens to one loop. -/
inductive LaneEvent
  | enter
  | exit
  | iteration
  | finalize
  deriving DecidableEq, Repr

/-- The machine of one loop. -/
def Lane.step (lane : Lane) : LaneEvent → Lane
  | .enter =>
      if lane.any (!·.isActive) then updateFirst (!·.isActive) LaneRecord.reopened lane
      else lane ++ [⟨0, 1, true⟩]
  | .exit => updateFirst (·.isActive) LaneRecord.closed lane
  | .iteration => updateLast (·.isActive) LaneRecord.iterated lane
  | .finalize => lane.map LaneRecord.closed

/-- What a command and its reply mean for a loop; an entry counts if it is accepted. -/
def laneEvent? (loopId : UInt64) (cmd : Cmd) (reply : Reply) : Option LaneEvent :=
  match cmd with
  | .event (.loopEnter id) => if id = loopId ∧ reply.result = .success then some .enter else none
  | .event (.loopExit id) => if id = loopId then some .exit else none
  | .event (.loopIteration id) => if id = loopId then some .iteration else none
  | .finalize => some .finalize
  | _ => none

theorem laneEvent?_loopEnter (id : UInt64) (reply : Reply) :
    laneEvent? loopId (.event (.loopEnter id)) reply =
      if id = loopId ∧ reply.result = .success then some .enter else none := rfl

theorem laneEvent?_loopExit (id : UInt64) (reply : Reply) :
    laneEvent? loopId (.event (.loopExit id)) reply =
      if id = loopId then some .exit else none := rfl

theorem laneEvent?_loopIteration (id : UInt64) (reply : Reply) :
    laneEvent? loopId (.event (.loopIteration id)) reply =
      if id = loopId then some .iteration else none := rfl

variable (H) in
/-- What a run means for a loop. -/
def laneEvents (loopId : UInt64) (ctx : SessionCtx D) : List Cmd → List LaneEvent
  | [] => []
  | cmd :: cmds =>
      (laneEvent? loopId cmd (exec H ctx cmd).1).toList ++ laneEvents loopId (exec H ctx cmd).2 cmds

def LoopRecord.toLane (rec : LoopRecord D) : LaneRecord :=
  ⟨rec.iterationCount, rec.invocationCount, rec.isActive⟩

/-- The lane of a loop in a context. -/
def SessionCtx.lane (ctx : SessionCtx D) (loopId : UInt64) : Lane :=
  (ctx.live.filter (·.loopId == loopId)).map LoopRecord.toLane

/-! ## One command -/

theorem lane_updateFirst_own {test : LoopRecord D → Bool} {f : LoopRecord D → LoopRecord D}
    {test' : LaneRecord → Bool} {k : LaneRecord → LaneRecord}
    (hlive : ctx'.live = updateFirst test f ctx.live)
    (htest : ∀ rec, test rec = (rec.loopId == loopId && test' rec.toLane))
    (hid : ∀ rec, (f rec).loopId = rec.loopId) (hview : ∀ rec, (f rec).toLane = k rec.toLane) :
    ctx'.lane loopId = updateFirst test' k (ctx.lane loopId) := by
  rw [SessionCtx.lane, hlive, SessionCtx.lane]
  -- The first match of the table lies in the lane, and is the first match there.
  refine map_filter_updateFirst (fun rec _ => htest rec) fun rec _ hrec => ⟨?_, hview rec⟩
  rw [htest, Bool.and_eq_true] at hrec
  rw [hid]
  exact hrec.1

/-- An update of records of another loop. -/
theorem lane_updateFirst_other {loopId' : UInt64} (hne : loopId' ≠ loopId)
    {test : LoopRecord D → Bool} {f : LoopRecord D → LoopRecord D}
    (hlive : ctx'.live = updateFirst test f ctx.live)
    (htest : ∀ rec, test rec = true → rec.loopId = loopId')
    (hid : ∀ rec, (f rec).loopId = rec.loopId) : ctx'.lane loopId = ctx.lane loopId := by
  rw [SessionCtx.lane, hlive, SessionCtx.lane, filter_updateFirst_of_not]
  intro rec _ hrec
  simp [hid, htest rec hrec, hne]

theorem any_lane (test : LaneRecord → Bool) :
    (ctx.lane loopId).any test =
      ctx.live.any fun rec => rec.loopId == loopId && test rec.toLane := by
  simp [SessionCtx.lane, List.any_map, List.any_filter, Function.comp_def]

theorem lane_reopens {i : Nat} (h : Reopens H ctx loopId i ctx') :
    ctx'.lane loopId = (ctx.lane loopId).step .enter := by
  have hany : (ctx.lane loopId).any (!·.isActive) = true := by
    rw [any_lane, List.any_eq_true]
    exact h.mem_inactive
  rw [Lane.step, if_pos hany]
  exact lane_updateFirst_own h.live (fun _ => rfl) (fun _ => rfl) (fun _ => rfl)

theorem lane_allocates {stale : LoopRecord D} (h : Allocates H ctx loopId stale ctx') :
    ctx'.lane loopId = (ctx.lane loopId).step .enter := by
  have hany : ¬ (ctx.lane loopId).any (!·.isActive) = true := by
    rw [any_lane, List.any_eq_true]
    rintro ⟨rec, hrec, hinactive⟩
    have hmatch : isInactiveOf loopId rec = true := hinactive
    simp [h.none_inactive rec hrec] at hmatch
  rw [Lane.step, if_neg hany, SessionCtx.lane, h.live, SessionCtx.lane]
  simp [LoopRecord.opened, LoopRecord.recycled, LoopRecord.toLane]

theorem lane_allocates_other {loopId' : UInt64} {stale : LoopRecord D} (hne : loopId' ≠ loopId)
    (h : Allocates H ctx loopId' stale ctx') : ctx'.lane loopId = ctx.lane loopId := by
  rw [SessionCtx.lane, h.live, SessionCtx.lane]
  simp [LoopRecord.opened, LoopRecord.recycled, hne]

theorem lane_counts {loopId' : UInt64} {i : Nat} (h : Counts ctx loopId' i ctx') :
    ctx'.lane loopId =
      if loopId' = loopId then (ctx.lane loopId).step .iteration else ctx.lane loopId := by
  have hlive : ctx'.live = updateLast (isActiveOf loopId') LoopRecord.iterated ctx.live := by
    rw [h.live, modify_eq_updateLast h.index]
  rw [SessionCtx.lane, hlive]
  split
  · rename_i hid
    subst hid
    refine map_filter_updateLast (fun _ _ => rfl) fun rec _ hrec => ⟨?_, rfl⟩
    exact (Bool.and_eq_true_iff.1 hrec).1
  · rename_i hne
    rw [filter_updateLast_of_not, SessionCtx.lane]
    intro rec _ hrec
    have hid : rec.loopId = loopId' := loopId_of_isActiveOf rec hrec
    simp [LoopRecord.iterated, hid, hne]

/-- Where no record of the loop is active, its lane has none to close or to count for. -/
theorem any_isActive_lane :
    (ctx.lane loopId).any (·.isActive) = true ↔ ∃ rec ∈ ctx.live, isActiveOf loopId rec = true := by
  rw [any_lane, List.any_eq_true]
  rfl

theorem lane_inactive (h : ∀ rec ∈ ctx.live, isActiveOf loopId rec = false) :
    ∀ rec ∈ ctx.lane loopId, rec.isActive = false := by
  intro rec hrec
  rw [← Bool.not_eq_true]
  intro hactive
  have hany : (ctx.lane loopId).any (·.isActive) = true := List.any_eq_true.2 ⟨rec, hrec, hactive⟩
  rcases any_isActive_lane.1 hany with ⟨rec', hrec', hactive'⟩
  simp [h rec' hrec'] at hactive'

/-- A loop exit is refused for want of an active record only: an active one takes up a level of the
depth. -/
theorem inactive_of_exitRefused (hdepth : (ctx.activeCount : Int) ≤ ctx.loopDepth)
    (h : ctx.loopDepth ≤ 0 ∨ ∀ rec ∈ ctx.live, isActiveOf loopId rec = false) :
    ∀ rec ∈ ctx.live, isActiveOf loopId rec = false := by
  rcases h with hzero | hnone
  · have hle := activeOf_le_activeCount ctx loopId
    exact activeOf_eq_zero_iff.1 (by omega)
  · exact hnone

/-- What an event does to the lane of a loop. -/
theorem EventCase.lane {e : Event} {out : TeeResult × SessionCtx D} (h : EventCase H ctx e out)
    (hdepth : (ctx.activeCount : Int) ≤ ctx.loopDepth) (loopId : UInt64) :
    out.2.lane loopId =
      (laneEvent? loopId (.event e) ⟨out.1, none⟩).elim (ctx.lane loopId)
        (Lane.step (ctx.lane loopId)) := by
  cases h with
  | enterRefused => simp [laneEvent?_loopEnter]
  | @reopens ctx' loopId' i h =>
      by_cases hid : loopId' = loopId
      · subst hid
        simpa [laneEvent?_loopEnter] using lane_reopens h
      · have hother := lane_updateFirst_other hid h.live loopId_of_isInactiveOf (fun _ => rfl)
        simpa [laneEvent?_loopEnter, hid] using hother
  | @allocates ctx' loopId' stale h =>
      by_cases hid : loopId' = loopId
      · subst hid
        simpa [laneEvent?_loopEnter] using lane_allocates h
      · simpa [laneEvent?_loopEnter, hid] using lane_allocates_other hid h
  -- The machine of the loop has no refusals: a refused exit finds nothing to close in the lane.
  | @exitRefused loopId' res _ h =>
      by_cases hid : loopId' = loopId
      · subst hid
        have hnone := lane_inactive (inactive_of_exitRefused hdepth h)
        simpa [laneEvent?_loopExit, Lane.step] using (updateFirst_eq_self hnone).symm
      · simp [laneEvent?_loopExit, hid]
  | @closes ctx' loopId' i rec h =>
      by_cases hid : loopId' = loopId
      · subst hid
        have hown : ctx'.lane loopId' =
            updateFirst (·.isActive) LaneRecord.closed (ctx.lane loopId') :=
          lane_updateFirst_own h.live (fun _ => rfl) (fun _ => rfl) (fun _ => rfl)
        simpa [laneEvent?_loopExit, Lane.step] using hown
      · have hother := lane_updateFirst_other hid h.live loopId_of_isActiveOf (fun _ => rfl)
        simpa [laneEvent?_loopExit, hid] using hother
  -- Neither does an iteration that is ignored find anything to count for.
  | @ignored loopId' h =>
      by_cases hid : loopId' = loopId
      · subst hid
        have hsame := updateLast_eq_self (f := LaneRecord.iterated) (lane_inactive h)
        simpa [laneEvent?_loopIteration, Lane.step] using hsame.symm
      · simp [laneEvent?_loopIteration, hid]
  | @counts ctx' loopId' i h =>
      have hlane : ctx'.lane loopId =
          if loopId' = loopId then (ctx.lane loopId).step .iteration else ctx.lane loopId :=
        lane_counts h
      by_cases hid : loopId' = loopId <;> simpa [laneEvent?_loopIteration, hid] using hlane
  | @untouched _ out hbracket hiteration h =>
      have hsame : out.2.lane loopId = ctx.lane loopId := by
        rw [SessionCtx.lane, h.live, SessionCtx.lane]
      cases e with
      | loopEnter id => cases hbracket
      | loopExit id => cases hbracket
      | loopIteration id => exact absurd rfl (hiteration id)
      | _ => exact hsame

theorem lane_finalize (hwf : WellFormed ctx) (loopId : UInt64) :
    (cmdFinalize H ctx).2.lane loopId = (ctx.lane loopId).step .finalize := by
  have hlive : (cmdFinalize H ctx).2.live = ctx.live.map LoopRecord.deactivated :=
    live_forceClose hwf
  have hid : ∀ rec : LoopRecord D, rec.deactivated.loopId = rec.loopId := fun rec => by
    unfold LoopRecord.deactivated
    split <;> rfl
  have hview : ∀ rec : LoopRecord D, rec.deactivated.toLane = rec.toLane.closed := fun rec => by
    unfold LoopRecord.deactivated
    split
    · rfl
    · rename_i hinactive
      simp [LoopRecord.toLane, LaneRecord.closed, hinactive]
  rw [SessionCtx.lane, hlive, Lane.step, SessionCtx.lane, List.filter_map, List.map_map,
    List.map_map]
  have hfilter : ((fun rec : LoopRecord D => rec.loopId == loopId) ∘ LoopRecord.deactivated) =
      fun rec => rec.loopId == loopId := by
    funext rec
    rw [Function.comp_apply, hid]
  rw [hfilter]
  exact List.map_congr_left fun rec _ => hview rec

/-! ## Runs -/

/-- The step lemma. -/
theorem lane_exec {log : List Event} (h : Accounts (ctx, log)) {cmd : Cmd}
    (hcmd : ∀ alloc, cmd ≠ .init alloc) (loopId : UInt64) :
    (exec H ctx cmd).2.lane loopId =
      (laneEvent? loopId cmd (exec H ctx cmd).1).elim (ctx.lane loopId)
        (Lane.step (ctx.lane loopId)) := by
  cases cmd with
  | init alloc => exact absurd rfl (hcmd alloc)
  | event e => exact (event_case h.wellFormed e).lane h.depth loopId
  | finalize => exact lane_finalize h.wellFormed loopId
  | getAuth out => rfl
  | getLog out => rfl

/-- The run lemma. -/
theorem lane_run {log : List Event} (h : Accounts (ctx, log)) {cmds : List Cmd}
    (hcmds : ∀ cmd ∈ cmds, ∀ alloc, cmd ≠ .init alloc) (loopId : UInt64) :
    ((exec H).run ctx cmds).lane loopId =
      (laneEvents H loopId ctx cmds).foldl Lane.step (ctx.lane loopId) := by
  induction cmds generalizing ctx log with
  | nil => rfl
  | cons cmd cmds ih =>
      have hstep := lane_exec (H := H) h (hcmds cmd (by simp)) loopId
      have hnext : Accounts ((exec H ctx cmd).2, _) := h.step (H := H) cmd
      rw [Machine.run_cons, ih hnext fun c hc => hcmds c (by simp [hc]), hstep, laneEvents,
        List.foldl_append]
      cases laneEvent? loopId cmd (exec H ctx cmd).1 <;> rfl

/-- A loop exit is accepted when the lane of the loop has an active record. -/
theorem lane_exit_accepted {log : List Event} (h : Accounts (ctx, log)) (loopId : UInt64) :
    (exec H ctx (.event (.loopExit loopId))).1.result = .success ↔
      (ctx.lane loopId).any (·.isActive) = true := by
  calc
    (exec H ctx (.event (.loopExit loopId))).1.result = .success
        ↔ 0 < openCount log loopId := h.exit_accepted_iff loopId
    _ ↔ (ctx.lane loopId).any (·.isActive) = true := by
          rw [h.openCount_eq, activeOf_pos_iff, any_isActive_lane]

/-- Every loop is counted on its own: from a CMD_INIT on, whatever the other loops do, the records
of a loop are those of the machine that sees the events of this loop only, and they alone decide
whether its next exit is accepted. -/
theorem lanes_apart (H : Sha256 D) (hstart : CycleStart H ctx) {cmds : List Cmd}
    (hcmds : ∀ cmd ∈ cmds, ∀ alloc, cmd ≠ .init alloc) (loopId : UInt64) :
    ((exec H).run ctx cmds).lane loopId = (laneEvents H loopId ctx cmds).foldl Lane.step [] ∧
      ((exec H ((exec H).run ctx cmds) (.event (.loopExit loopId))).1.result = .success ↔
        ((laneEvents H loopId ctx cmds).foldl Lane.step []).any (·.isActive) = true) := by
  have hnone : ctx.lane loopId = [] := by simp [SessionCtx.lane, hstart.live]
  have hlane := lane_run (H := H) hstart.accounts hcmds loopId
  rw [hnone] at hlane
  refine ⟨hlane, ?_⟩
  have hend := hstart.accounts.run (H := H) cmds
  rw [← hlane]
  -- `Accounts` bounds the active records by the depth that the exits look at.
  have haccounts : Accounts ((exec H).run ctx cmds, ((logged H).run (ctx, []) cmds).2) := by
    rw [← run_logged (ctx, []) cmds]
    exact hend
  exact lane_exit_accepted haccounts loopId

/-- A loop that is entered again while another one goes on, and is finalised while open. -/
theorem lanes_apart_interleaved :
    let cmds := [.event (.loopEnter 1), .event (.loopEnter 2), .event (.loopEnter 1),
      .event (.loopIteration 1), .event (.loopExit 2), .event (.loopExit 1), .finalize]
    ((exec Sha256.free).run (taOpenSessionEntryPoint Sha256.free) cmds).lane 1 =
        [⟨0, 1, false⟩, ⟨1, 1, false⟩] ∧
      ((exec Sha256.free ((exec Sha256.free).run (taOpenSessionEntryPoint Sha256.free) cmds)
        (.event (.loopExit 1))).1.result = .success ↔
          ([⟨0, 1, false⟩, ⟨1, 1, false⟩] : Lane).any (·.isActive) = true) := by
  intro cmds
  have hevents : (laneEvents Sha256.free 1 (taOpenSessionEntryPoint Sha256.free) cmds).foldl
      Lane.step [] = [⟨0, 1, false⟩, ⟨1, 1, false⟩] := by decide +kernel
  have hcmds : ∀ cmd ∈ cmds, ∀ alloc, cmd ≠ .init alloc := by simp [cmds]
  have hapart := lanes_apart Sha256.free .opened hcmds 1
  rwa [hevents] at hapart

end SecureWorld
end CFlat
