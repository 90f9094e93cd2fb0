import CFlat.Lib.FirstFit
import CFlat.Lib.HashChain
import CFlat.Lib.Bytes

/-!
# Session — the data model of the trusted application

The records of `cflat_ta.c`: loop records, call records and the session context, with the result
codes and the operation handles of the TEE API.  Arrays keep the fixed sizes of the source, its
`int` counters are integers and its `uint32_t` counters wrap.

The digest type is a parameter: `Sha256 D` says how digests of type `D` start, absorb an id and
lie in memory.  `Sha256.ofBytes` is the instance of the source, 32-byte digests of an arbitrary
byte function; the free digests of `CFlat.Lib.HashChain` serve where collision freedom is assumed.
-/

namespace CFlat
namespace SecureWorld

open Lib

/-! ## The TEE API as the session sees it -/

/-- The results the trusted application returns (`TEE_Result`). -/
inductive TeeResult
  | success
  | badState
  | badParameters
  | overflow
  | itemNotFound
  | shortBuffer
  | outOfMemory
  | notSupported
  deriving DecidableEq, Repr

/-- Operation handles; `TEE_HANDLE_NULL` is `0`. -/
abbrev Handle := Nat

def teeHandleNull : Handle := 0

/-- How `TEE_AllocateOperation` can fail. -/
inductive AllocError
  | outOfMemory
  | notSupported
  deriving DecidableEq, Repr

def AllocError.toResult : AllocError → TeeResult
  | .outOfMemory => .outOfMemory
  | .notSupported => .notSupported

/-- What one `TEE_AllocateOperation` does: it stores a handle, or it fails and leaves the handle
variable as it was or sets it to `TEE_HANDLE_NULL`. -/
inductive AllocOutcome
  | ok (handle : Handle)
  | fail (err : AllocError) (clears : Bool)
  deriving DecidableEq, Repr

def AllocOutcome.succeeds : AllocOutcome → Bool
  | .ok _ => true
  | .fail _ _ => false

/-- The calls on operation handles made for a session. -/
inductive TeeOp
  | allocate (handle : Handle)
  | allocateFailed
  | use (handle : Handle)
  | free (handle : Handle)
  deriving DecidableEq, Repr

/-! ## Digests -/

/-- How digests start, absorb an id and lie in memory. -/
structure Sha256 (D : Type) where
  /-- The 32 zero bytes. -/
  zero : D
  /-- The digest of a previous digest followed by the 8 bytes of an id. -/
  digest : D → UInt64 → D
  /-- The bytes of a digest. -/
  bytes : D → Vector UInt8 32

/-- A digest as the source stores it (`uint8_t[32]`). -/
abbrev Digest := Vector UInt8 32

/-- The digests of the source, for any function of the hashed bytes. -/
def Sha256.ofBytes (sha : List UInt8 → Digest) : Sha256 Digest where
  zero := Vector.replicate 32 0
  digest := fun h nodeId => sha (h.toList ++ leBytes 8 nodeId.toNat)
  bytes := id

/-- The free digests: a digest is the list of ids it absorbed, oldest first. -/
def Sha256.free : Sha256 (List UInt64) where
  zero := []
  digest := fun h nodeId => h ++ [nodeId]
  bytes := fun _ => Vector.replicate 32 0

/-! ## Session context -/

def maxLoopDepth : Int := 16
def maxLoopRecords : Nat := 64
def maxCallDepth : Nat := 32
def maxLogSize : Nat := 16384

/-- Size of `final_auth`: the header and one slot for every loop record. -/
def authCapacity : Nat := 36 + maxLoopRecords * 80

structure LoopRecord (D : Type) where
  loopId : UInt64
  preLoopHash : D
  loopHash : D
  iterationCount : UInt32
  invocationCount : UInt32
  isActive : Bool
  depthLevel : Int
  deriving DecidableEq, Repr

structure CallRecord where
  callSiteId : UInt64
  callerNode : UInt64
  deriving DecidableEq, Repr

/-- The session context.  `teeLog` is a ghost field, newest call first: it lists the operation
calls made for the session, so that the use of handles can be spoken of. -/
structure SessionCtx (D : Type) where
  currentHash : D
  hashOp : Handle
  isInitialized : Bool
  loops : Vector (LoopRecord D) maxLoopRecords
  loopCount : Int
  loopDepth : Int
  callStack : Vector CallRecord maxCallDepth
  callDepth : Int
  finalAuth : Vector UInt8 authCapacity
  authSize : UInt32
  debugLog : Vector UInt8 maxLogSize
  logIdx : UInt32
  teeLog : List TeeOp

variable {D : Type}

/-- The zeroed context of `TA_OpenSessionEntryPoint`. -/
def taOpenSessionEntryPoint (H : Sha256 D) : SessionCtx D where
  currentHash := H.zero
  hashOp := teeHandleNull
  isInitialized := false
  loops := Vector.replicate _ ⟨0, H.zero, H.zero, 0, 0, false, 0⟩
  loopCount := 0
  loopDepth := 0
  callStack := Vector.replicate _ ⟨0, 0⟩
  callDepth := 0
  finalAuth := Vector.replicate _ 0
  authSize := 0
  debugLog := Vector.replicate _ 0
  logIdx := 0
  teeLog := []

/-- The operation calls of a session after `TA_CloseSessionEntryPoint`. -/
def taCloseSessionEntryPoint (ctx : SessionCtx D) : List TeeOp :=
  if ctx.hashOp ≠ teeHandleNull then .free ctx.hashOp :: ctx.teeLog else ctx.teeLog

namespace SessionCtx

/-- The live loop records: those below `loop_count`, in table order. -/
def live (ctx : SessionCtx D) : List (LoopRecord D) := ctx.loops.toList.take ctx.loopCount.toNat

/-- The slots behind the live records, with what earlier cycles left in them. -/
def spare (ctx : SessionCtx D) : List (LoopRecord D) := ctx.loops.toList.drop ctx.loopCount.toNat

/-- Write one loop record. -/
def modifyLoop (ctx : SessionCtx D) (i : Nat) (f : LoopRecord D → LoopRecord D) : SessionCtx D :=
  { ctx with loops := modifyAt ctx.loops i f }

end SessionCtx

/-- A record is inactive and belongs to the loop: what `cmd_loop_enter` looks for. -/
def isInactiveOf (loopId : UInt64) (rec : LoopRecord D) : Bool :=
  rec.loopId == loopId && !rec.isActive

/-- A record is active and belongs to the loop: what the other loop commands look for. -/
def isActiveOf (loopId : UInt64) (rec : LoopRecord D) : Bool :=
  rec.loopId == loopId && rec.isActive

/-- The number of active records of a loop. -/
def SessionCtx.activeOf (ctx : SessionCtx D) (loopId : UInt64) : Nat :=
  ctx.live.countP (isActiveOf loopId)

theorem loopId_of_isInactiveOf {loopId : UInt64} (rec : LoopRecord D)
    (h : isInactiveOf loopId rec = true) : rec.loopId = loopId :=
  eq_of_beq (Bool.and_eq_true_iff.1 h).1

theorem isActive_of_isInactiveOf {loopId : UInt64} {rec : LoopRecord D}
    (h : isInactiveOf loopId rec = true) : rec.isActive = false := by
  simpa using (Bool.and_eq_true_iff.1 h).2

theorem loopId_of_isActiveOf {loopId : UInt64} (rec : LoopRecord D)
    (h : isActiveOf loopId rec = true) : rec.loopId = loopId :=
  eq_of_beq (Bool.and_eq_true_iff.1 h).1

theorem isActive_of_isActiveOf {loopId : UInt64} {rec : LoopRecord D}
    (h : isActiveOf loopId rec = true) : rec.isActive = true :=
  (Bool.and_eq_true_iff.1 h).2

end SecureWorld
end CFlat
