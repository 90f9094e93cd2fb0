import CFlat.SecureWorld.Steps

/-!
# Handles — the operation handle of a session

The ghost log of a context lists the calls made on operation handles.  `liveHandles` reads off
which handles are live, `NoMisuse` says that every use and every free met a live handle, and
`HandleSafe` is the safety of a context: an initialised session holds a live handle, nothing was
misused so far, and closing the session now would not free a dead handle.

The TEE API is assumed only to hand out fresh handles (`FreshAllocation`).  A re-initialisation
whose allocation fails leaves `is_initialized` set and the handle freed or null, so a run is safe
exactly when no CMD_INIT fails in an initialised session.
-/

namespace CFlat
namespace SecureWorld

open Lib

variable {D : Type} {H : Sha256 D}

/-- The live handles after a log of operation calls, newest call first. -/
def liveHandles : List TeeOp → List Handle
  | [] => []
  | .allocate handle :: ops => handle :: liveHandles ops
  | .free handle :: ops => (liveHandles ops).filter (· ≠ handle)
  | .allocateFailed :: ops => liveHandles ops
  | .use _ :: ops => liveHandles ops

/-- A handle that may be used or freed: not null, and live. -/
def Usable (handle : Handle) (ops : List TeeOp) : Prop :=
  handle ≠ teeHandleNull ∧ handle ∈ liveHandles ops

instance (handle : Handle) (ops : List TeeOp) : Decidable (Usable handle ops) :=
  inferInstanceAs (Decidable (handle ≠ teeHandleNull ∧ handle ∈ liveHandles ops))

/-- Every use and every free in the log met a usable handle. -/
def NoMisuse : List TeeOp → Prop
  | [] => True
  | .use handle :: ops => Usable handle ops ∧ NoMisuse ops
  | .free handle :: ops => Usable handle ops ∧ NoMisuse ops
  | .allocate _ :: ops => NoMisuse ops
  | .allocateFailed :: ops => NoMisuse ops

/-- `is_initialized` implies a live handle; no handle was misused, also not by closing now. -/
def SessionCtx.HandleSafe (ctx : SessionCtx D) : Prop :=
  (ctx.isInitialized = true → Usable ctx.hashOp ctx.teeLog) ∧
    NoMisuse (taCloseSessionEntryPoint ctx)

/-- The contract of the TEE API: an allocation that succeeds stores a handle that is not null and
not live at that moment.  (By the type of `AllocOutcome`, one that fails leaves the variable as it
was or stores `TEE_HANDLE_NULL`.) -/
def FreshAllocation (ctx : SessionCtx D) (cmd : Cmd) : Prop :=
  ∀ handle, cmd = .init (.ok handle) →
    handle ≠ teeHandleNull ∧ handle ∉ liveHandles (taCloseSessionEntryPoint ctx)

/-- The command is not a CMD_INIT whose allocation fails in an initialised session. -/
def NoFailedReinit (ctx : SessionCtx D) (cmd : Cmd) : Prop :=
  ctx.isInitialized = true → ∀ err clears, cmd ≠ .init (.fail err clears)

/-- The inductive form of handle safety: the handle of a session is usable once it is initialised
and null before. -/
structure HandleInv (ctx : SessionCtx D) : Prop where
  usable : ctx.isInitialized = true → Usable ctx.hashOp ctx.teeLog
  null : ctx.isInitialized = false → ctx.hashOp = teeHandleNull
  noMisuse : NoMisuse ctx.teeLog

/-- Closing, or the first half of a CMD_INIT, frees the handle of the session if it has one. -/
theorem HandleInv.noMisuse_close {ctx : SessionCtx D} (h : HandleInv ctx) :
    NoMisuse (taCloseSessionEntryPoint ctx) := by
  unfold taCloseSessionEntryPoint
  cases hinit : ctx.isInitialized with
  | false => simpa [h.null hinit] using h.noMisuse
  | true =>
      have husable := h.usable hinit
      -- An initialised session frees a live handle.
      rw [if_pos husable.1]
      exact ⟨husable, h.noMisuse⟩

theorem HandleInv.handleSafe {ctx : SessionCtx D} (h : HandleInv ctx) : ctx.HandleSafe :=
  ⟨h.usable, h.noMisuse_close⟩

theorem handleInv_open : HandleInv (taOpenSessionEntryPoint H) := by
  constructor <;> simp [taOpenSessionEntryPoint, NoMisuse]

/-! ## One step -/

/-- What a measurement event does to the handle: nothing, or one use by an initialised session. -/
inductive HandleStep (ctx ctx' : SessionCtx D) : Prop
  | same (hlog : ctx'.teeLog = ctx.teeLog) (hop : ctx'.hashOp = ctx.hashOp)
      (hinit : ctx'.isInitialized = ctx.isInitialized)
  | used (hready : ctx.isInitialized = true) (hlog : ctx'.teeLog = .use ctx.hashOp :: ctx.teeLog)
      (hop : ctx'.hashOp = ctx.hashOp) (hinit : ctx'.isInitialized = ctx.isInitialized)

theorem handleStep_updateHash (ctx : SessionCtx D) (nodeId : UInt64) :
    HandleStep ctx (updateHash H ctx nodeId).2 := by
  cases hinit : ctx.isInitialized
  · exact .same (by simp [updateHash, hinit]) (by simp [updateHash, hinit])
      (by simp [updateHash, hinit])
  · exact .used hinit (by simp [updateHash, hinit]) (by simp [updateHash, hinit])
      (by simp [updateHash, hinit])

theorem handleStep_openRecord (ctx : SessionCtx D) (i : Nat) (loopId : UInt64) :
    HandleStep ctx (openRecord H ctx i loopId) := by
  unfold openRecord
  obtain ⟨hlog, hop, hinit⟩ | ⟨hready, hlog, hop, hinit⟩ := handleStep_updateHash (H := H)
    { ctx.modifyLoop i (LoopRecord.opened ctx.currentHash) with
      currentHash := H.zero, loopDepth := ctx.loopDepth + 1 } loopId
  · exact .same hlog hop hinit
  · exact .used hready hlog hop hinit

theorem handleStep_handle (ctx : SessionCtx D) (e : Event) :
    HandleStep ctx (handle H ctx e).2 := by
  cases e with
  | recordNode nodeId => exact handleStep_updateHash ctx nodeId
  | loopEnter loopId =>
      simp only [handle, cmdLoopEnter]
      split
      · exact .same rfl rfl rfl
      · split
        · exact handleStep_openRecord ctx _ loopId
        · split
          · exact .same rfl rfl rfl
          · obtain ⟨hlog, hop, hinit⟩ | ⟨hready, hlog, hop, hinit⟩ := handleStep_openRecord (H := H)
              { ctx.modifyLoop ctx.loopCount.toNat (LoopRecord.recycled loopId ctx.loopDepth) with
                loopCount := ctx.loopCount + 1 } ctx.loopCount.toNat loopId
            · exact .same hlog hop hinit
            · exact .used hready hlog hop hinit
  | loopExit loopId =>
      simp only [handle, cmdLoopExit]
      split
      · exact .same rfl rfl rfl
      · split
        · exact .same rfl rfl rfl
        · split <;> exact .same rfl rfl rfl
  | loopIteration loopId =>
      simp only [handle, cmdLoopIteration]
      split <;> exact .same rfl rfl rfl
  | callEnter callId caller =>
      simp only [handle, cmdCallEnter]
      split <;> exact .same rfl rfl rfl
  | callReturn callId =>
      simp only [handle, cmdCallReturn]
      split <;> exact .same rfl rfl rfl

theorem HandleInv.step {ctx ctx' : SessionCtx D} (h : HandleInv ctx) (hstep : HandleStep ctx ctx') :
    HandleInv ctx' := by
  rcases hstep with ⟨hlog, hop, hinit⟩ | ⟨hready, hlog, hop, hinit⟩
  · constructor <;> simp only [hlog, hop, hinit]
    · exact h.usable
    · exact h.null
    · exact h.noMisuse
  · have husable := h.usable hready
    constructor <;> simp only [hlog, hop, hinit]
    · intro _
      exact husable
    · exact h.null
    · exact ⟨husable, h.noMisuse⟩

theorem handleInv_init_ok {ctx : SessionCtx D} (h : HandleInv ctx) {handle : Handle}
    (hfresh : handle ≠ teeHandleNull) : HandleInv (cmdInit H (.ok handle) ctx).2 := by
  rw [cmdInit_ok]
  refine ⟨?_, ?_, h.noMisuse_close⟩
  · intro _
    exact ⟨hfresh, by simp [liveHandles]⟩
  · intro hfalse
    cases hfalse

/-- In a session that was never initialised a failed CMD_INIT does no harm. -/
theorem handleInv_init_fail {ctx : SessionCtx D} (h : HandleInv ctx)
    (hinit : ctx.isInitialized = false) (err : AllocError) (clears : Bool) :
    HandleInv (cmdInit H (.fail err clears) ctx).2 := by
  rw [cmdInit_fail]
  refine ⟨?_, ?_, h.noMisuse_close⟩
  · intro htrue
    rw [hinit] at htrue
    cases htrue
  · intro _
    cases clears <;> simp [h.null hinit]

/-- In an initialised session it leaves a handle that is null or was just freed. -/
theorem not_usable_init_fail {ctx : SessionCtx D} (h : HandleInv ctx)
    (hinit : ctx.isInitialized = true) (err : AllocError) (clears : Bool) :
    ¬ Usable (cmdInit H (.fail err clears) ctx).2.hashOp
      (cmdInit H (.fail err clears) ctx).2.teeLog := by
  have hne := (h.usable hinit).1
  rw [cmdInit_fail]
  rintro ⟨hnull, hlive⟩
  -- Either the variable was cleared, or it still holds the handle that was freed first.
  cases clears with
  | true => exact hnull rfl
  | false => simp [liveHandles, taCloseSessionEntryPoint, hne] at hlive

/-! ## Runs -/

/-- For a TEE that hands out fresh handles, a session is handle safe in every state of a run
exactly when no CMD_INIT of the run fails to allocate in an initialised session. -/
theorem handleSafe_iff_no_failed_reinit (H : Sha256 D) (cmds : List Cmd)
    (hfresh : (exec H).StepsMeet FreshAllocation (taOpenSessionEntryPoint H) cmds) :
    (exec H).Always SessionCtx.HandleSafe (taOpenSessionEntryPoint H) cmds ↔
      (exec H).StepsMeet NoFailedReinit (taOpenSessionEntryPoint H) cmds := by
  refine (exec H).always_iff_stepsMeet (J := HandleInv) (fun ctx h => h.handleSafe) ?_ ?_
    handleInv_open cmds hfresh
  · intro ctx cmd hinv hfresh hC
    cases cmd with
    | init alloc =>
        cases alloc with
        | ok handle => exact handleInv_init_ok hinv (hfresh handle rfl).1
        | fail err clears =>
            have hinit : ctx.isInitialized = false := by
              rw [← Bool.not_eq_true]
              exact fun hinit => hC hinit err clears rfl
            exact handleInv_init_fail hinv hinit err clears
    | event e => exact hinv.step (handleStep_handle ctx e)
    | finalize => exact hinv.step (.same rfl rfl rfl)
    | getAuth out => exact hinv
    | getLog out => exact hinv
  -- A CMD_INIT that fails in an initialised session leaves the flag set.
  · rintro ctx cmd hinv - hnext hinit err clears rfl
    have hstill : (cmdInit H (.fail err clears) ctx).2.isInitialized = true := by
      rw [cmdInit_fail]
      exact hinit
    exact not_usable_init_fail hinv hinit err clears (hnext.1 hstill)

/-- The hypothesis at work: two CMD_INITs with handles 1 and 2 around a recorded node. -/
theorem handleSafe_two_inits :
    (exec Sha256.free).Always SessionCtx.HandleSafe (taOpenSessionEntryPoint Sha256.free)
      [.init (.ok 1), .event (.recordNode 5), .init (.ok 2)] := by
  refine (handleSafe_iff_no_failed_reinit Sha256.free _ ?_).2 ?_
  · refine ⟨?_, ?_, ?_, trivial⟩ <;> intro handle heq
    · cases heq
      decide +kernel
    · cases heq
    · cases heq
      decide +kernel
  · refine ⟨?_, ?_, ?_, trivial⟩ <;> intro _ err clears heq <;> cases heq

/-- A CMD_INIT that fails after one that succeeded breaks handle safety. -/
theorem handleSafe_broken_by_failed_reinit :
    ¬ ∀ cmds : List Cmd,
      (exec Sha256.free).StepsMeet FreshAllocation (taOpenSessionEntryPoint Sha256.free) cmds →
        (exec Sha256.free).Always SessionCtx.HandleSafe (taOpenSessionEntryPoint Sha256.free)
          cmds := by
  intro h
  have hsafe := h [.init (.ok 1), .init (.fail .outOfMemory false)] (by
    refine ⟨?_, ?_, trivial⟩ <;> intro handle heq
    · cases heq
      decide +kernel
    · cases heq)
  -- The last state: still initialised, and the handle it keeps was freed.
  have hlast := hsafe.2.2
  have husable := hlast.1 (by decide +kernel)
  exact absurd husable (by decide +kernel)

end SecureWorld
end CFlat
