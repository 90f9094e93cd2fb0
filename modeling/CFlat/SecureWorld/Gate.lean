import CFlat.SecureWorld.Report
import CFlat.SecureWorld.Refusals

/-!
# Gate — a session before a CMD_INIT has succeeded

Only `update_hash` looks at `is_initialized`, and of its callers only `cmd_record_node` hands its
refusal on.  So a session that was never initialised accepts loop entries, call entries and a
CMD_FINALIZE, and after a CMD_FINALIZE it hands out a report.  A monitor keeps what the commands say
about the initialisation; `gated_iff_gateKept` says which commands break the gate.
-/

namespace CFlat
namespace SecureWorld

open Lib

variable {D : Type} {H : Sha256 D}

/-! ## The monitor -/

/-- Whether some CMD_INIT of a session has succeeded, whether the most recent one has, and whether a
CMD_FINALIZE came after it. -/
structure InitStatus where
  started : Bool
  lastInit : Option Bool
  finalized : Bool
  deriving DecidableEq, Repr

namespace InitStatus

/-- The opening of a session. -/
def opened : InitStatus := ⟨false, none, false⟩

def next (status : InitStatus) : Cmd → InitStatus
  | .init alloc => ⟨status.started || alloc.succeeds, some alloc.succeeds, false⟩
  | .finalize => { status with finalized := true }
  | _ => status

end InitStatus

/-- The commands that a session without a successful CMD_INIT should refuse. -/
def Cmd.isGated : Cmd → Bool
  | .event (.recordNode _) => true
  | .event (.loopEnter _) => true
  | .event (.callEnter _ _) => true
  | .finalize => true
  | _ => false

/-- The gate at one command: before a CMD_INIT has succeeded the gated commands are refused, nothing
but a CMD_INIT changes the session and no report is handed out; and a report is handed out only
when the most recent CMD_INIT has succeeded and a CMD_FINALIZE has followed it. -/
structure Gated (H : Sha256 D) (s : SessionCtx D × InitStatus) (cmd : Cmd) : Prop where
  refused : s.2.started = false → cmd.isGated = true → (exec H s.1 cmd).1.result ≠ .success
  unchanged : s.2.started = false → cmd.isInit = false → (exec H s.1 cmd).2 = s.1
  noReport : s.2.started = false → ∀ out, cmd = .getAuth out →
    (exec H s.1 cmd).1.result ≠ .success
  attested : ∀ out, cmd = .getAuth out → (exec H s.1 cmd).1.result = .success →
    s.2.lastInit = some true ∧ s.2.finalized = true

/-- What keeps the gate: before a CMD_INIT has succeeded no `loop_enter`, `call_enter` or
CMD_FINALIZE is sent, and the report of a CMD_FINALIZE that has followed no successful CMD_INIT is
not fetched into a buffer that holds it. -/
structure GateKept (s : SessionCtx D × InitStatus) (cmd : Cmd) : Prop where
  nodesOnly : s.2.started = false → cmd.isGated = true → ∃ nodeId, cmd = .event (.recordNode nodeId)
  notFetched : ∀ out, cmd = .getAuth out → s.2.finalized = true → s.2.lastInit ≠ some true →
    out.size < s.1.authSize

/-! ## Blank sessions -/

/-- A session that was never initialised, as long as the gate is kept. -/
structure Blank (ctx : SessionCtx D) : Prop where
  notInitialized : ctx.isInitialized = false
  loopCount : ctx.loopCount = 0
  loopDepth : ctx.loopDepth = 0
  callDepth : ctx.callDepth = 0

theorem Blank.live {ctx : SessionCtx D} (h : Blank ctx) : ctx.live = [] := by
  simp [SessionCtx.live, h.loopCount]

theorem Blank.recordNode {ctx : SessionCtx D} (h : Blank ctx) (nodeId : UInt64) :
    handle H ctx (.recordNode nodeId) = (.badState, ctx) := by
  simp [handle, cmdRecordNode, updateHash, h.notInitialized]

/-- Of the events only the entries are not stopped. -/
theorem Blank.handle_eq {ctx : SessionCtx D} (h : Blank ctx) {e : Event}
    (hloop : ∀ loopId, e ≠ .loopEnter loopId)
    (hcall : ∀ callId caller, e ≠ .callEnter callId caller) :
    (handle H ctx e).2 = ctx := by
  cases e with
  | recordNode nodeId => rw [h.recordNode]
  | loopEnter loopId => exact absurd rfl (hloop loopId)
  | loopExit loopId => simp [handle, cmdLoopExit, h.loopDepth]
  | loopIteration loopId => simp [handle, cmdLoopIteration, h.live, findLastIdx?]
  | callEnter callId caller => exact absurd rfl (hcall callId caller)
  | callReturn callId => simp [handle, cmdCallReturn, h.callDepth]

/-- A loop entry succeeds without a hash operation: the result of `update_hash` is not looked at. -/
theorem Blank.loopEnter {ctx : SessionCtx D} (h : Blank ctx) (loopId : UInt64) :
    (handle H ctx (.loopEnter loopId)).1 = .success := by
  simp [handle, cmdLoopEnter, h.loopDepth, h.loopCount, h.live, maxLoopDepth, maxLoopRecords]

theorem Blank.callEnter {ctx : SessionCtx D} (h : Blank ctx) (callId caller : UInt64) :
    (handle H ctx (.callEnter callId caller)).1 = .success := by
  simp [handle, cmdCallEnter, h.callDepth, maxCallDepth]

/-! ## The invariant -/

/-- What the monitor knows of the session as long as the gate is kept. -/
structure GateInv (s : SessionCtx D × InitStatus) : Prop where
  wellFormed : WellFormed s.1
  blank : s.2.started = false → Blank s.1
  stored : s.1.authSize ≠ 0 ↔ s.2.finalized = true
  unfinalized : s.2.started = false → s.2.finalized = false

theorem gateInv_open : GateInv (taOpenSessionEntryPoint H, InitStatus.opened) :=
  ⟨wellFormed_open, fun _ => ⟨rfl, rfl, rfl, rfl⟩, by simp [taOpenSessionEntryPoint,
    InitStatus.opened], fun _ => rfl⟩

/-- Before a CMD_INIT has succeeded, a command that keeps the gate changes nothing. -/
theorem GateInv.unchanged {s : SessionCtx D × InitStatus} (h : GateInv s) {cmd : Cmd}
    (hkept : GateKept s cmd) (hstarted : s.2.started = false) (hcmd : cmd.isInit = false) :
    (exec H s.1 cmd).2 = s.1 := by
  have hblank := h.blank hstarted
  cases cmd with
  | init alloc => cases hcmd
  | event e =>
      refine hblank.handle_eq ?_ ?_
      · rintro loopId rfl
        rcases hkept.nodesOnly hstarted rfl with ⟨nodeId, heq⟩
        cases heq
      · rintro callId caller rfl
        rcases hkept.nodesOnly hstarted rfl with ⟨nodeId, heq⟩
        cases heq
  | finalize =>
      rcases hkept.nodesOnly hstarted rfl with ⟨nodeId, heq⟩
      cases heq
  | getAuth out => rfl
  | getLog out => rfl

theorem GateInv.step {s : SessionCtx D × InitStatus} (h : GateInv s) {cmd : Cmd}
    (hkept : GateKept s cmd) :
    GateInv ((exec H).monitored InitStatus.next s cmd).2 := by
  rcases s with ⟨ctx, status⟩
  have hwf : WellFormed (exec H ctx cmd).2 := wellFormed_exec h.wellFormed cmd
  have hsame : status.started = false → cmd.isInit = false → (exec H ctx cmd).2 = ctx :=
    fun hstarted hcmd => h.unchanged hkept hstarted hcmd
  cases cmd with
  | init alloc =>
      refine ⟨hwf, ?_, ?_, fun _ => rfl⟩
      · intro hstarted
        cases alloc with
        | ok handle => simp [Machine.monitored, InitStatus.next, AllocOutcome.succeeds] at hstarted
        | fail err clears =>
            have hnot : status.started = false := by
              simpa [Machine.monitored, InitStatus.next, AllocOutcome.succeeds] using hstarted
            have hflag : ctx.isInitialized = false := (h.blank hnot).notInitialized
            -- A CMD_INIT that fails leaves the flag and resets the counters.
            refine ⟨?_, ?_, ?_, ?_⟩ <;> simp [Machine.monitored, exec, cmdInit_fail, hflag]
      · simp [Machine.monitored, InitStatus.next, exec, authSize_cmdInit]
  | event e =>
      have hstore := (storeFrame_handle (H := H) h.wellFormed e).authSize
      refine ⟨hwf, ?_, ?_, h.unfinalized⟩
      · intro hstarted
        have hblank := h.blank hstarted
        rw [← hsame hstarted rfl] at hblank
        exact hblank
      · simp only [Machine.monitored, InitStatus.next, exec, hstore]
        exact h.stored
  | finalize =>
      -- The gate lets no CMD_FINALIZE through before the first success.
      have hstarted : status.started ≠ false := by
        intro hstarted
        rcases hkept.nodesOnly hstarted rfl with ⟨nodeId, heq⟩
        cases heq
      refine ⟨hwf, fun hnot => absurd hnot hstarted, ?_, fun hnot => absurd hnot hstarted⟩
      simp [Machine.monitored, InitStatus.next, exec,
        authSize_cmdFinalize_ne_zero (H := H) h.wellFormed]
  | getAuth out => exact ⟨hwf, h.blank, h.stored, h.unfinalized⟩
  | getLog out => exact ⟨hwf, h.blank, h.stored, h.unfinalized⟩

/-! ## One command -/

theorem GateInv.gated_of_kept {s : SessionCtx D × InitStatus} (h : GateInv s) {cmd : Cmd}
    (hkept : GateKept s cmd) : Gated H s cmd where
  refused := by
    intro hstarted hgated
    rcases hkept.nodesOnly hstarted hgated with ⟨nodeId, rfl⟩
    simp [exec, (h.blank hstarted).recordNode]
  unchanged := h.unchanged hkept
  noReport := by
    rintro hstarted out rfl hsuccess
    have hstored := h.stored.1 ((getAuth_success_iff s.1 out).1 hsuccess).1
    rw [h.unfinalized hstarted] at hstored
    cases hstored
  attested := by
    rintro out rfl hsuccess
    rcases (getAuth_success_iff s.1 out).1 hsuccess with ⟨hne, hfits⟩
    have hfinalized := h.stored.1 hne
    refine ⟨?_, hfinalized⟩
    by_contra hlast
    exact hfits (hkept.notFetched out rfl hfinalized hlast)

theorem GateInv.kept_of_gated {s : SessionCtx D × InitStatus} (h : GateInv s) {cmd : Cmd}
    (hgated : Gated H s cmd) : GateKept s cmd where
  nodesOnly := by
    intro hstarted hcmd
    have hrefused := hgated.refused hstarted hcmd
    have hblank := h.blank hstarted
    cases cmd with
    | init alloc => cases hcmd
    | event e =>
        cases e with
        | recordNode nodeId => exact ⟨nodeId, rfl⟩
        | loopEnter loopId => exact absurd (hblank.loopEnter (H := H) loopId) hrefused
        | loopExit loopId => cases hcmd
        | loopIteration loopId => cases hcmd
        | callEnter callId caller => exact absurd (hblank.callEnter (H := H) callId caller) hrefused
        | callReturn callId => cases hcmd
    | finalize => exact absurd rfl hrefused
    | getAuth out => cases hcmd
    | getLog out => cases hcmd
  notFetched := by
    rintro out rfl hfinalized hlast
    by_contra hfits
    -- The buffer holds the report, so it would be handed out.
    exact hlast (hgated.attested out rfl
      ((getAuth_success_iff s.1 out).2 ⟨h.stored.2 hfinalized, hfits⟩)).1

/-! ## Runs -/

/-- The gate holds at every command of a session exactly when every command keeps it. -/
theorem gated_iff_gateKept (H : Sha256 D) (cmds : List Cmd) :
    ((exec H).monitored InitStatus.next).StepsMeet (Gated H)
        (taOpenSessionEntryPoint H, InitStatus.opened) cmds ↔
      ((exec H).monitored InitStatus.next).StepsMeet GateKept
        (taOpenSessionEntryPoint H, InitStatus.opened) cmds :=
  Machine.stepsMeet_iff _ (J := GateInv) (P := fun _ _ => True) (fun _ _ h _ hkept => h.step hkept)
    (fun _ _ h _ => ⟨h.kept_of_gated, h.gated_of_kept⟩) gateInv_open cmds
    (Machine.stepsMeet_of_forall _ (fun _ _ => trivial) _ _)

/-- A session without any CMD_INIT takes a CMD_FINALIZE and hands out a report. -/
theorem gate_broken_without_init :
    ¬ ∀ cmds : List Cmd, ((exec Sha256.free).monitored InitStatus.next).StepsMeet
        (Gated Sha256.free) (taOpenSessionEntryPoint Sha256.free, InitStatus.opened) cmds := by
  intro h
  rcases h [.finalize, .getAuth ⟨List.replicate 36 0, 36⟩] with ⟨_, hfetched, _⟩
  exact absurd (hfetched.noReport rfl _ rfl) (by decide +kernel)

end SecureWorld
end CFlat
