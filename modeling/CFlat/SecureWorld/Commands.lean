import CFlat.Events
import CFlat.Lib.Machine
import CFlat.SecureWorld.Session

/-!
# Commands — the command handlers of the trusted application

The handlers of `cflat_ta.c`, each from a context to a result and a context.  `exec` collects them
into the machine of one session, whose inputs are the ten commands with typed parameters; the
dispatcher that decodes raw parameters is in `CFlat.SecureWorld.Dispatch`.
-/

namespace CFlat
namespace SecureWorld

open Lib

variable {D : Type} (H : Sha256 D)

/-! ## Helpers -/

/-- `TEE_FreeOperation` on the session's handle. -/
def teeFreeOperation (ctx : SessionCtx D) : SessionCtx D :=
  { ctx with teeLog := .free ctx.hashOp :: ctx.teeLog }

/-- `TEE_AllocateOperation` into the session's handle. -/
def teeAllocateOperation (alloc : AllocOutcome) (ctx : SessionCtx D) :
    TeeResult × SessionCtx D :=
  match alloc with
  | .ok handle =>
      (.success, { ctx with hashOp := handle, teeLog := .allocate handle :: ctx.teeLog })
  | .fail err clears =>
      (err.toResult,
        { ctx with
          hashOp := if clears then teeHandleNull else ctx.hashOp
          teeLog := .allocateFailed :: ctx.teeLog })

/-- `H_new = SHA256(H_prev || node_id)`.  The four digest calls on the handle are logged as one
use; the digest of a handle that is not live lies outside the contract of the TEE API, and the
log keeps such a use on record. -/
def updateHash (ctx : SessionCtx D) (nodeId : UInt64) : TeeResult × SessionCtx D :=
  if !ctx.isInitialized then (.badState, ctx)
  else
    (.success,
      { ctx with
        currentHash := H.digest ctx.currentHash nodeId
        teeLog := .use ctx.hashOp :: ctx.teeLog })

/-! ## Handlers -/

def cmdInit (alloc : AllocOutcome) (ctx : SessionCtx D) : TeeResult × SessionCtx D :=
  -- The records of `loops` stay as they are; only the counters are reset.
  let ctx : SessionCtx D :=
    { ctx with
      currentHash := H.zero
      loopCount := 0
      loopDepth := 0
      callDepth := 0
      authSize := 0
      logIdx := 0 }
  -- An operation of an earlier CMD_INIT is freed first; the handle variable keeps its value.
  let ctx := if ctx.hashOp ≠ teeHandleNull then teeFreeOperation ctx else ctx
  let (res, ctx) := teeAllocateOperation alloc ctx
  -- On failure the flag `is_initialized` is not touched.
  if res ≠ .success then (res, ctx)
  else (.success, { ctx with isInitialized := true })

def cmdRecordNode (ctx : SessionCtx D) (nodeId : UInt64) : TeeResult × SessionCtx D :=
  updateHash H ctx nodeId

/-- The tail of `cmd_loop_enter`, once the record at index `i` has been chosen. -/
def openRecord (ctx : SessionCtx D) (i : Nat) (loopId : UInt64) : SessionCtx D :=
  let ctx := ctx.modifyLoop i fun rec =>
    { rec with
      preLoopHash := ctx.currentHash
      isActive := true
      invocationCount := rec.invocationCount + 1 }
  let ctx := { ctx with currentHash := H.zero, loopDepth := ctx.loopDepth + 1 }
  -- The result of `update_hash` is not looked at.
  (updateHash H ctx loopId).2

def cmdLoopEnter (ctx : SessionCtx D) (loopId : UInt64) : TeeResult × SessionCtx D :=
  if ctx.loopDepth ≥ maxLoopDepth then (.overflow, ctx)
  else
    match ctx.live.findIdx? (isInactiveOf loopId) with
    -- An inactive record of the loop goes on counting from where it was.
    | some i => (.success, openRecord H ctx i loopId)
    | none =>
        if ctx.loopCount ≥ maxLoopRecords then (.overflow, ctx)
        else
          let i := ctx.loopCount.toNat
          -- `loop_hash` and `pre_loop_hash` keep what the slot held before.
          let ctx := ctx.modifyLoop i fun rec =>
            { rec with
              loopId := loopId
              iterationCount := 0
              invocationCount := 0
              depthLevel := ctx.loopDepth }
          let ctx := { ctx with loopCount := ctx.loopCount + 1 }
          (.success, openRecord H ctx i loopId)

def cmdLoopExit (ctx : SessionCtx D) (loopId : UInt64) : TeeResult × SessionCtx D :=
  if ctx.loopDepth ≤ 0 then (.badState, ctx)
  else
    -- The search runs forwards, to the oldest record among the active ones.
    match ctx.live.findIdx? (isActiveOf loopId) with
    | none => (.itemNotFound, ctx)
    | some i =>
        match ctx.live[i]? with
        | none => (.itemNotFound, ctx)
        | some rec =>
            let ctx := ctx.modifyLoop i fun rec =>
              { rec with loopHash := ctx.currentHash, isActive := false }
            (.success,
              { ctx with currentHash := rec.preLoopHash, loopDepth := ctx.loopDepth - 1 })

def cmdLoopIteration (ctx : SessionCtx D) (loopId : UInt64) : TeeResult × SessionCtx D :=
  -- The search runs backwards, to the most recent active record.
  match findLastIdx? (isActiveOf loopId) ctx.live with
  | none => (.success, ctx)
  | some i =>
      (.success, ctx.modifyLoop i fun rec => { rec with iterationCount := rec.iterationCount + 1 })

def cmdCallEnter (ctx : SessionCtx D) (callSiteId callerNode : UInt64) :
    TeeResult × SessionCtx D :=
  if ctx.callDepth ≥ maxCallDepth then (.overflow, ctx)
  else
    (.success,
      { ctx with
        callStack := modifyAt ctx.callStack ctx.callDepth.toNat fun _ => ⟨callSiteId, callerNode⟩
        callDepth := ctx.callDepth + 1 })

/-- The id of the returning block is not compared with the call stack. -/
def cmdCallReturn (ctx : SessionCtx D) (_callSiteId : UInt64) : TeeResult × SessionCtx D :=
  if ctx.callDepth > 0 then (.success, { ctx with callDepth := ctx.callDepth - 1 })
  else (.success, ctx)

/-! ## Finalisation and the report -/

/-- The first loop of `cmd_finalize`: active records are closed, the depth is left alone. -/
def forceClose (ctx : SessionCtx D) : SessionCtx D :=
  { ctx with
    loops := (List.range ctx.loopCount.toNat).foldl
      (fun loops i => modifyAt loops i fun rec =>
        if rec.isActive then { rec with isActive := false } else rec) ctx.loops }

/-- `loop_id(8) + pre_hash(32) + loop_hash(32) + iterations(4) + invocations(4)`. -/
def serializeRecord (rec : LoopRecord D) (buf : Vector UInt8 authCapacity) (offset : Nat) :
    Vector UInt8 authCapacity :=
  let buf := memMove buf offset (leBytes 8 rec.loopId.toNat)
  let buf := memMove buf (offset + 8) (H.bytes rec.preLoopHash).toList
  let buf := memMove buf (offset + 8 + 32) (H.bytes rec.loopHash).toList
  let buf := memMove buf (offset + 8 + 32 + 32) (leBytes 4 rec.iterationCount.toNat)
  memMove buf (offset + 8 + 32 + 32 + 4) (leBytes 4 rec.invocationCount.toNat)

/-- The serialisation loop of `cmd_finalize`, with its early exit on a full buffer. -/
def serializeLoops : List (LoopRecord D) → Vector UInt8 authCapacity → Nat →
    Vector UInt8 authCapacity × Nat
  | [], buf, offset => (buf, offset)
  | rec :: recs, buf, offset =>
      if offset + 80 > authCapacity then (buf, offset)
      else serializeLoops recs (serializeRecord H rec buf offset) (offset + 80)

def cmdFinalize (ctx : SessionCtx D) : TeeResult × SessionCtx D :=
  let ctx := forceClose ctx
  let buf := memMove ctx.finalAuth 0 (H.bytes ctx.currentHash).toList
  -- The four bytes of the `int` counter.
  let buf := memMove buf 32 (leBytes 4 (ctx.loopCount % 2 ^ 32).toNat)
  let (buf, offset) := serializeLoops H ctx.live buf 36
  (.success, { ctx with finalAuth := buf, authSize := UInt32.ofNat offset })

/-- A memory reference parameter: the caller's buffer and its size. -/
structure Memref where
  buffer : List UInt8
  size : UInt32
  deriving DecidableEq, Repr

def cmdGetAuth (ctx : SessionCtx D) (out : Memref) : TeeResult × Memref :=
  -- No CMD_FINALIZE since the last CMD_INIT.
  if ctx.authSize = 0 then (.badState, out)
  else if out.size < ctx.authSize then (.shortBuffer, { out with size := ctx.authSize })
  else
    (.success,
      { buffer := ctx.finalAuth.toList.take ctx.authSize.toNat ++
          out.buffer.drop ctx.authSize.toNat
        size := ctx.authSize })

def cmdGetLog (ctx : SessionCtx D) (out : Memref) : TeeResult × Memref :=
  if out.size < ctx.logIdx then (.shortBuffer, { out with size := ctx.logIdx })
  else
    (.success,
      { buffer := ctx.debugLog.toList.take ctx.logIdx.toNat ++ out.buffer.drop ctx.logIdx.toNat
        size := ctx.logIdx })

/-! ## The machine of a session -/

/-- The handler of a measurement event. -/
def handle (ctx : SessionCtx D) : Event → TeeResult × SessionCtx D
  | .recordNode nodeId => cmdRecordNode H ctx nodeId
  | .loopEnter loopId => cmdLoopEnter H ctx loopId
  | .loopExit loopId => cmdLoopExit ctx loopId
  | .loopIteration loopId => cmdLoopIteration ctx loopId
  | .callEnter callId caller => cmdCallEnter ctx callId caller
  | .callReturn callId => cmdCallReturn ctx callId

/-- The ten commands; six of them are measurement events. -/
inductive Cmd
  | init (alloc : AllocOutcome)
  | event (e : Event)
  | finalize
  | getAuth (out : Memref)
  | getLog (out : Memref)
  deriving DecidableEq, Repr

/-- A result code, and the caller's memory reference where the command has one. -/
structure Reply where
  result : TeeResult
  out : Option Memref
  deriving DecidableEq, Repr

def exec : Machine (SessionCtx D) Cmd Reply := fun ctx cmd =>
  match cmd with
  | .init alloc =>
      let (res, ctx) := cmdInit H alloc ctx
      (⟨res, none⟩, ctx)
  | .event e =>
      let (res, ctx) := handle H ctx e
      (⟨res, none⟩, ctx)
  | .finalize =>
      let (res, ctx) := cmdFinalize H ctx
      (⟨res, none⟩, ctx)
  | .getAuth out =>
      let (res, out) := cmdGetAuth ctx out
      (⟨res, some out⟩, ctx)
  | .getLog out =>
      let (res, out) := cmdGetLog ctx out
      (⟨res, some out⟩, ctx)

/-- The report a client can fetch: `final_auth[0..auth_size)`. -/
def SessionCtx.report (ctx : SessionCtx D) : List UInt8 :=
  ctx.finalAuth.toList.take ctx.authSize.toNat

end SecureWorld
end CFlat
