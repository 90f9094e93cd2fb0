import CFlat.SecureWorld.LoopTable

/-!
# Steps — the remaining commands and well-formedness along runs

The equations of `cmd_init`, the frames of the call commands and of the force-closing part of
`cmd_finalize`, and the invariant `WellFormed` over every run of a session.
-/

namespace CFlat
namespace SecureWorld

open Lib

variable {D : Type} {H : Sha256 D}

/-! ## Initialisation -/

theorem cmdInit_ok (handle : Handle) (ctx : SessionCtx D) :
    cmdInit H (.ok handle) ctx =
      (.success,
        { ctx with
          currentHash := H.zero
          hashOp := handle
          isInitialized := true
          loopCount := 0
          loopDepth := 0
          callDepth := 0
          authSize := 0
          logIdx := 0
          teeLog := .allocate handle :: taCloseSessionEntryPoint ctx }) := by
  by_cases hnull : ctx.hashOp = teeHandleNull <;>
    simp [cmdInit, teeFreeOperation, teeAllocateOperation, taCloseSessionEntryPoint, hnull]

theorem cmdInit_fail (err : AllocError) (clears : Bool) (ctx : SessionCtx D) :
    cmdInit H (.fail err clears) ctx =
      (err.toResult,
        { ctx with
          currentHash := H.zero
          hashOp := if clears then teeHandleNull else ctx.hashOp
          loopCount := 0
          loopDepth := 0
          callDepth := 0
          authSize := 0
          logIdx := 0
          teeLog := .allocateFailed :: taCloseSessionEntryPoint ctx }) := by
  have herr : err.toResult ≠ .success := by cases err <;> simp [AllocError.toResult]
  by_cases hnull : ctx.hashOp = teeHandleNull <;>
    simp [cmdInit, teeFreeOperation, teeAllocateOperation, taCloseSessionEntryPoint, hnull, herr]

theorem authSize_cmdInit (alloc : AllocOutcome) (ctx : SessionCtx D) :
    (cmdInit H alloc ctx).2.authSize = 0 := by
  cases alloc with
  | ok handle => rw [cmdInit_ok]
  | fail err clears => rw [cmdInit_fail]

/-! ## Commands outside the loop table -/

/-- The fields that no call command and no recorded node changes. -/
structure TableFrame (ctx ctx' : SessionCtx D) : Prop where
  live : ctx'.live = ctx.live
  spare : ctx'.spare = ctx.spare
  loopCount : ctx'.loopCount = ctx.loopCount
  loopDepth : ctx'.loopDepth = ctx.loopDepth
  isInitialized : ctx'.isInitialized = ctx.isInitialized
  hashOp : ctx'.hashOp = ctx.hashOp
  finalAuth : ctx'.finalAuth = ctx.finalAuth
  authSize : ctx'.authSize = ctx.authSize

theorem TableFrame.refl (ctx : SessionCtx D) : TableFrame ctx ctx :=
  ⟨rfl, rfl, rfl, rfl, rfl, rfl, rfl, rfl⟩

theorem tableFrame_recordNode (ctx : SessionCtx D) (nodeId : UInt64) :
    TableFrame ctx (cmdRecordNode H ctx nodeId).2 := by
  unfold cmdRecordNode updateHash
  split <;> exact ⟨rfl, rfl, rfl, rfl, rfl, rfl, rfl, rfl⟩

theorem tableFrame_callEnter (ctx : SessionCtx D) (callId caller : UInt64) :
    TableFrame ctx (cmdCallEnter ctx callId caller).2 := by
  unfold cmdCallEnter
  split <;> exact ⟨rfl, rfl, rfl, rfl, rfl, rfl, rfl, rfl⟩

theorem tableFrame_callReturn (ctx : SessionCtx D) (callId : UInt64) :
    TableFrame ctx (cmdCallReturn ctx callId).2 := by
  unfold cmdCallReturn
  split <;> exact ⟨rfl, rfl, rfl, rfl, rfl, rfl, rfl, rfl⟩

theorem cmdRecordNode_of_initialized {ctx : SessionCtx D} (hinit : ctx.isInitialized = true)
    (nodeId : UInt64) :
    (cmdRecordNode H ctx nodeId).1 = .success ∧
      (cmdRecordNode H ctx nodeId).2.currentHash = H.digest ctx.currentHash nodeId := by
  simp [cmdRecordNode, updateHash, hinit]

@[simp] theorem callDepth_recordNode (ctx : SessionCtx D) (nodeId : UInt64) :
    (cmdRecordNode H ctx nodeId).2.callDepth = ctx.callDepth := by
  unfold cmdRecordNode updateHash
  split <;> rfl

@[simp] theorem currentHash_callEnter (ctx : SessionCtx D) (callId caller : UInt64) :
    (cmdCallEnter ctx callId caller).2.currentHash = ctx.currentHash := by
  unfold cmdCallEnter
  split <;> rfl

@[simp] theorem currentHash_callReturn (ctx : SessionCtx D) (callId : UInt64) :
    (cmdCallReturn ctx callId).2.currentHash = ctx.currentHash := by
  unfold cmdCallReturn
  split <;> rfl

@[simp] theorem result_callReturn (ctx : SessionCtx D) (callId : UInt64) :
    (cmdCallReturn ctx callId).1 = .success := by
  unfold cmdCallReturn
  split <;> rfl

/-- The call commands look at the call depth only. -/
theorem callEnter_of_callDepth_eq {c₁ c₂ : SessionCtx D} (h : c₁.callDepth = c₂.callDepth)
    (callId caller : UInt64) :
    (cmdCallEnter c₁ callId caller).1 = (cmdCallEnter c₂ callId caller).1 ∧
      (cmdCallEnter c₁ callId caller).2.callDepth =
        (cmdCallEnter c₂ callId caller).2.callDepth := by
  unfold cmdCallEnter
  rw [h]
  split
  · exact ⟨rfl, h⟩
  · exact ⟨rfl, rfl⟩

theorem callReturn_of_callDepth_eq {c₁ c₂ : SessionCtx D} (h : c₁.callDepth = c₂.callDepth)
    (callId : UInt64) :
    (cmdCallReturn c₁ callId).2.callDepth = (cmdCallReturn c₂ callId).2.callDepth := by
  unfold cmdCallReturn
  rw [h]
  split
  · rfl
  · exact h

/-! ## All events -/

/-- All that an event can do, with its result. -/
inductive EventCase (H : Sha256 D) (ctx : SessionCtx D) : Event → TeeResult × SessionCtx D → Prop
  | enterRefused {loopId : UInt64} (h : EnterRefused ctx loopId) :
      EventCase H ctx (.loopEnter loopId) (.overflow, ctx)
  | reopens {ctx' : SessionCtx D} {loopId : UInt64} {i : Nat} (h : Reopens H ctx loopId i ctx') :
      EventCase H ctx (.loopEnter loopId) (.success, ctx')
  | allocates {ctx' : SessionCtx D} {loopId : UInt64} {stale : LoopRecord D}
      (h : Allocates H ctx loopId stale ctx') :
      EventCase H ctx (.loopEnter loopId) (.success, ctx')
  | exitRefused {loopId : UInt64} {res : TeeResult} (hres : res ≠ .success)
      (h : ctx.loopDepth ≤ 0 ∨ ∀ rec ∈ ctx.live, isActiveOf loopId rec = false) :
      EventCase H ctx (.loopExit loopId) (res, ctx)
  | closes {ctx' : SessionCtx D} {loopId : UInt64} {i : Nat} {rec : LoopRecord D}
      (h : Closes ctx loopId i rec ctx') : EventCase H ctx (.loopExit loopId) (.success, ctx')
  | ignored {loopId : UInt64} (h : ∀ rec ∈ ctx.live, isActiveOf loopId rec = false) :
      EventCase H ctx (.loopIteration loopId) (.success, ctx)
  | counts {ctx' : SessionCtx D} {loopId : UInt64} {i : Nat} (h : Counts ctx loopId i ctx') :
      EventCase H ctx (.loopIteration loopId) (.success, ctx')
  | untouched {e : Event} {out : TeeResult × SessionCtx D} (hbracket : e.isBracket = false)
      (hiteration : ∀ loopId, e ≠ .loopIteration loopId) (h : TableFrame ctx out.2) :
      EventCase H ctx e out

theorem event_case {ctx : SessionCtx D} (hwf : WellFormed ctx) (e : Event) :
    EventCase H ctx e (handle H ctx e) := by
  cases e with
  | recordNode nodeId => exact .untouched rfl (by simp) (tableFrame_recordNode ctx nodeId)
  | loopEnter loopId =>
      have hcase := cmdLoopEnter_case (H := H) hwf loopId
      simp only [handle]
      generalize cmdLoopEnter H ctx loopId = out at hcase ⊢
      cases hcase with
      | refused h => exact .enterRefused h
      | reopens h => exact .reopens h
      | allocates h => exact .allocates h
  | loopExit loopId =>
      have hcase := cmdLoopExit_case ctx loopId
      simp only [handle]
      generalize cmdLoopExit ctx loopId = out at hcase ⊢
      cases hcase with
      | underflow h => exact .exitRefused (by simp) (Or.inl h)
      | notFound _ h => exact .exitRefused (by simp) (Or.inr h)
      | closes h => exact .closes h
  | loopIteration loopId =>
      have hcase := cmdLoopIteration_case ctx loopId
      simp only [handle]
      generalize cmdLoopIteration ctx loopId = out at hcase ⊢
      cases hcase with
      | ignored h => exact .ignored (findLastIdx?_eq_none h)
      | counts h => exact .counts h
  | callEnter callId caller =>
      exact .untouched rfl (by simp) (tableFrame_callEnter ctx callId caller)
  | callReturn callId => exact .untouched rfl (by simp) (tableFrame_callReturn ctx callId)

/-- All that an event can do to the loop table: nothing, or one of the writes of the loop
commands. -/
inductive TableCase (H : Sha256 D) (ctx : SessionCtx D) : Event → SessionCtx D → Prop
  | untouched {e : Event} {ctx' : SessionCtx D} (h : TableFrame ctx ctx') : TableCase H ctx e ctx'
  | reopens {ctx' : SessionCtx D} {loopId : UInt64} {i : Nat} (h : Reopens H ctx loopId i ctx') :
      TableCase H ctx (.loopEnter loopId) ctx'
  | allocates {ctx' : SessionCtx D} {loopId : UInt64} {stale : LoopRecord D}
      (h : Allocates H ctx loopId stale ctx') : TableCase H ctx (.loopEnter loopId) ctx'
  | closes {ctx' : SessionCtx D} {loopId : UInt64} {i : Nat} {rec : LoopRecord D}
      (h : Closes ctx loopId i rec ctx') : TableCase H ctx (.loopExit loopId) ctx'
  | counts {ctx' : SessionCtx D} {loopId : UInt64} {i : Nat} (h : Counts ctx loopId i ctx') :
      TableCase H ctx (.loopIteration loopId) ctx'

theorem EventCase.table {ctx : SessionCtx D} {e : Event} {out : TeeResult × SessionCtx D}
    (h : EventCase H ctx e out) : TableCase H ctx e out.2 := by
  cases h with
  | enterRefused h => exact .untouched (.refl ctx)
  | reopens h => exact .reopens h
  | allocates h => exact .allocates h
  | exitRefused hres h => exact .untouched (.refl ctx)
  | closes h => exact .closes h
  | ignored h => exact .untouched (.refl ctx)
  | counts h => exact .counts h
  | untouched hbracket hiteration h => exact .untouched h

theorem table_case {ctx : SessionCtx D} (hwf : WellFormed ctx) (e : Event) :
    TableCase H ctx e (handle H ctx e).2 := (event_case hwf e).table

/-- The stored report and the log, which no event changes. -/
structure StoreFrame (ctx ctx' : SessionCtx D) : Prop where
  finalAuth : ctx'.finalAuth = ctx.finalAuth
  authSize : ctx'.authSize = ctx.authSize
  debugLog : ctx'.debugLog = ctx.debugLog
  logIdx : ctx'.logIdx = ctx.logIdx

theorem StoreFrame.refl (ctx : SessionCtx D) : StoreFrame ctx ctx := ⟨rfl, rfl, rfl, rfl⟩

theorem LoopFrame.store {ctx ctx' : SessionCtx D} (h : LoopFrame ctx ctx') : StoreFrame ctx ctx' :=
  ⟨h.finalAuth, h.authSize, h.debugLog, h.logIdx⟩

/-- An event that touches no loop: the hash and the call stack are not stored. -/
theorem storeFrame_of_untouched {e : Event} (ctx : SessionCtx D) (hbracket : e.isBracket = false)
    (hiteration : ∀ loopId, e ≠ .loopIteration loopId) : StoreFrame ctx (handle H ctx e).2 := by
  cases e with
  | recordNode nodeId =>
      simp only [handle, cmdRecordNode, updateHash]
      split <;> exact ⟨rfl, rfl, rfl, rfl⟩
  | loopEnter loopId => simp [Event.isBracket] at hbracket
  | loopExit loopId => simp [Event.isBracket] at hbracket
  | loopIteration loopId => exact absurd rfl (hiteration loopId)
  | callEnter callId caller =>
      simp only [handle, cmdCallEnter]
      split <;> exact ⟨rfl, rfl, rfl, rfl⟩
  | callReturn callId =>
      simp only [handle, cmdCallReturn]
      split <;> exact ⟨rfl, rfl, rfl, rfl⟩

theorem storeFrame_handle {ctx : SessionCtx D} (hwf : WellFormed ctx) (e : Event) :
    StoreFrame ctx (handle H ctx e).2 := by
  have hcase := event_case (H := H) hwf e
  generalize hout : handle H ctx e = out at hcase ⊢
  cases hcase with
  | enterRefused h => exact .refl ctx
  | reopens h => exact h.frame.store
  | allocates h => exact h.frame.store
  | exitRefused hres h => exact .refl ctx
  | closes h => exact h.frame.store
  | ignored h => exact .refl ctx
  | counts h => exact h.frame.store
  | untouched hbracket hiteration h =>
      rw [← hout]
      exact storeFrame_of_untouched ctx hbracket hiteration

/-! ## Force closing -/

/-- What `cmd_finalize` does to an active record. -/
def LoopRecord.deactivated (rec : LoopRecord D) : LoopRecord D :=
  if rec.isActive then { rec with isActive := false } else rec

@[simp] theorem isActive_deactivated (rec : LoopRecord D) : rec.deactivated.isActive = false := by
  unfold LoopRecord.deactivated
  split
  · rfl
  · simp_all

/-- The loop of `cmd_finalize` is a map over the live records. -/
theorem loops_forceClose {ctx : SessionCtx D} (hwf : WellFormed ctx) :
    (forceClose ctx).loops.toList = ctx.live.map LoopRecord.deactivated ++ ctx.spare ∧
      (ctx.live.map LoopRecord.deactivated).length = ctx.loopCount.toNat := by
  have hnonneg := hwf.loopCount_nonneg
  have hle := hwf.loopCount_le
  have hlen := length_live hwf
  refine ⟨toList_foldl_modifyAt ctx.loops LoopRecord.deactivated (by omega), ?_⟩
  rw [List.length_map]
  omega

theorem live_forceClose {ctx : SessionCtx D} (hwf : WellFormed ctx) :
    (forceClose ctx).live = ctx.live.map LoopRecord.deactivated := by
  rcases loops_forceClose hwf with ⟨hloops, hlen⟩
  calc
    (forceClose ctx).live
        = (ctx.live.map LoopRecord.deactivated ++ ctx.spare).take ctx.loopCount.toNat :=
          congrArg (List.take ctx.loopCount.toNat) hloops
    _ = ctx.live.map LoopRecord.deactivated := List.take_left' hlen

theorem spare_forceClose {ctx : SessionCtx D} (hwf : WellFormed ctx) :
    (forceClose ctx).spare = ctx.spare := by
  rcases loops_forceClose hwf with ⟨hloops, hlen⟩
  calc
    (forceClose ctx).spare
        = (ctx.live.map LoopRecord.deactivated ++ ctx.spare).drop ctx.loopCount.toNat :=
          congrArg (List.drop ctx.loopCount.toNat) hloops
    _ = ctx.spare := List.drop_left' hlen

/-! ## Well-formedness along runs -/

theorem wellFormed_open : WellFormed (taOpenSessionEntryPoint H) := by
  constructor <;> simp [taOpenSessionEntryPoint, maxLoopDepth]

theorem WellFormed.of_frames {ctx ctx' : SessionCtx D} (hwf : WellFormed ctx)
    (hcount : ctx'.loopCount = ctx.loopCount) (hdepth : ctx'.loopDepth = ctx.loopDepth)
    (hcall : ctx'.callDepth = ctx.callDepth) : WellFormed ctx' := by
  rcases hwf with ⟨h₁, h₂, h₃, h₄, h₅, h₆⟩
  constructor <;> simpa [hcount, hdepth, hcall]

/-- The guards of the call commands keep the depth of the call stack in its bounds. -/
theorem callDepth_handle_bounds {ctx : SessionCtx D} (hwf : WellFormed ctx) {e : Event}
    (hbracket : e.isBracket = false) (hiteration : ∀ loopId, e ≠ .loopIteration loopId) :
    0 ≤ (handle H ctx e).2.callDepth ∧ (handle H ctx e).2.callDepth ≤ maxCallDepth := by
  have h₀ := hwf.callDepth_nonneg
  have h₁ := hwf.callDepth_le
  cases e with
  | recordNode nodeId =>
      simp only [handle, callDepth_recordNode]
      exact ⟨h₀, h₁⟩
  | loopEnter loopId => simp [Event.isBracket] at hbracket
  | loopExit loopId => simp [Event.isBracket] at hbracket
  | loopIteration loopId => exact absurd rfl (hiteration loopId)
  | callEnter callId caller =>
      simp only [handle, cmdCallEnter]
      split
      · exact ⟨h₀, h₁⟩
      · constructor <;> simp only [] <;> omega
  | callReturn callId =>
      simp only [handle, cmdCallReturn]
      split
      · constructor <;> simp only [] <;> omega
      · exact ⟨h₀, h₁⟩

theorem wellFormed_handle {ctx : SessionCtx D} (hwf : WellFormed ctx) (e : Event) :
    WellFormed (handle H ctx e).2 := by
  -- The bounds as facts, for `omega`; the guards of the handlers keep each of them.
  rcases id hwf with ⟨h₁, h₂, h₃, h₄, h₅, h₆⟩
  have hcase := event_case (H := H) hwf e
  generalize hout : handle H ctx e = out at hcase ⊢
  cases hcase with
  | enterRefused h => exact hwf
  | reopens h =>
      have hlt := h.depth_lt
      constructor <;> simp only [h.loopCount, h.loopDepth, h.frame.callDepth] <;> omega
  | allocates h =>
      have hlt := h.depth_lt
      have hroom := h.room
      constructor <;> simp only [h.loopCount, h.loopDepth, h.frame.callDepth] <;> omega
  | exitRefused hres h => exact hwf
  | closes h =>
      have hpos := h.depth_pos
      constructor <;> simp only [h.loopCount, h.loopDepth, h.frame.callDepth] <;> omega
  | ignored h => exact hwf
  | counts h => exact hwf.of_frames h.loopCount h.loopDepth h.frame.callDepth
  | untouched hbracket hiteration h =>
      obtain ⟨hnonneg, hle⟩ := callDepth_handle_bounds (H := H) hwf hbracket hiteration
      rw [hout] at hnonneg hle
      exact ⟨by rwa [h.loopCount], by rwa [h.loopCount], by rwa [h.loopDepth],
        by rwa [h.loopDepth], hnonneg, hle⟩

theorem wellFormed_init (alloc : AllocOutcome) (ctx : SessionCtx D) :
    WellFormed (cmdInit H alloc ctx).2 := by
  cases alloc with
  | ok handle =>
      rw [cmdInit_ok]
      -- All counters are zero.
      constructor <;> simp [maxLoopDepth]
  | fail err clears =>
      rw [cmdInit_fail]
      constructor <;> simp [maxLoopDepth]

theorem wellFormed_exec {ctx : SessionCtx D} (hwf : WellFormed ctx) (cmd : Cmd) :
    WellFormed (exec H ctx cmd).2 := by
  cases cmd with
  | init alloc => exact wellFormed_init alloc ctx
  | event e => exact wellFormed_handle hwf e
  | finalize => exact hwf.of_frames rfl rfl rfl
  | getAuth out => exact hwf
  | getLog out => exact hwf

theorem wellFormed_run {ctx : SessionCtx D} (hwf : WellFormed ctx) (cmds : List Cmd) :
    WellFormed ((exec H).run ctx cmds) :=
  (exec H).run_invariant (I := WellFormed) (P := fun _ => True)
    (fun _ cmd _ h => wellFormed_exec h cmd) hwf cmds (fun _ _ => trivial)

end SecureWorld
end CFlat
