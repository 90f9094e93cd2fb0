import CFlat.Runtime.Client

/-!
# Client — the host library

`cflat_host.c`: the same measurement calls as the runtime library, for a program that opens and
closes the session itself and looks at the results.  A failed `cflat_init` ends the process, so its
reply is an exit and no call follows it.
-/

namespace CFlat
namespace Host

open Lib SecureWorld CFlat.Runtime

/-- What the TEE does with the calls that one host function may make. -/
structure Env where
  /-- `TEEC_InitializeContext` succeeds. -/
  context : Bool
  /-- `TEEC_OpenSession` succeeds. -/
  session : Bool
  /-- What `TEE_AllocateOperation` does in a CMD_INIT. -/
  alloc : AllocOutcome
  /-- The one command of the function. -/
  command : Transport
  deriving DecidableEq, Repr

/-- The static variables of the host library; `sess` is the context of the session they refer to, if
it is open.  `teecLog` is a ghost field, newest call first. -/
structure Client (D : Type) where
  initialized : Bool
  sess : Option (SessionCtx D)
  teecLog : List TeecCall

/-- What a host function returns.  `exited` is the `errx` of `cflat_init`. -/
inductive Reply
  | exited
  | code (res : Int)
  | buffer (res : Int) (out : Memref)
  | cleanedUp
  deriving DecidableEq, Repr

variable {D : Type} (H : Sha256 D)

/-- The library at program start. -/
def Client.start : Client D := ⟨false, none, []⟩

/-- `TEEC_InvokeCommand` on the session. -/
def teecInvokeCommand (tr : Transport) (call : TaCall) (client : Client D) :
    (Option TeeResult × Vector Param 4) × Client D :=
  let client := { client with teecLog := .invokeCommand call.cmdId :: client.teecLog }
  match client.sess with
  | none => ((none, call.op.params), client)
  | some ctx =>
      let ((res, params), ctx) := taInvokeCommandEntryPoint H call.alloc ctx call.cmdId call.op
      match tr with
      | .delivered => ((some res, params), { client with sess := some ctx })
      | .replyLost => ((none, call.op.params), { client with sess := some ctx })
      | .lost => ((none, call.op.params), client)

/-! ## The functions of the library -/

/-- There is no look at `initialized`: a second call opens another context and session. -/
def cflatInit (env : Env) (client : Client D) : Reply × Client D :=
  if !env.context then
    (.exited, { client with teecLog := .initializeContext false :: client.teecLog })
  else if !env.session then
    (.exited,
      { client with teecLog := .openSession false :: .initializeContext true :: client.teecLog })
  else
    let client :=
      { client with
        sess := some (taOpenSessionEntryPoint H)
        teecLog := .openSession true :: .initializeContext true :: client.teecLog }
    let ((res, _), client) :=
      teecInvokeCommand H env.command ⟨env.alloc, commandInit, emptyOperation⟩ client
    if res ≠ some .success then (.exited, client)
    else (.code 0, { client with initialized := true })

/-- The body that the measurement functions and `cflat_finalize` share. -/
def invokeSimple (cmdId : UInt32) (op : Operation) (env : Env) (client : Client D) :
    Reply × Client D :=
  if !client.initialized then (.code (-1), client)
  else
    let ((res, _), client) := teecInvokeCommand H env.command ⟨env.alloc, cmdId, op⟩ client
    (.code (if res = some .success then 0 else -1), client)

def cflatRecordNode (nodeId : UInt64) : Env → Client D → Reply × Client D :=
  invokeSimple H commandRecordNode (idOperation nodeId)

def cflatLoopEnter (loopId : UInt64) : Env → Client D → Reply × Client D :=
  invokeSimple H commandLoopEnter (idOperation loopId)

def cflatLoopExit (loopId : UInt64) : Env → Client D → Reply × Client D :=
  invokeSimple H commandLoopExit (idOperation loopId)

def cflatCallEnter (callId caller : UInt64) : Env → Client D → Reply × Client D :=
  invokeSimple H commandCallEnter (idPairOperation callId caller)

/-- A refusal would be reported as a call-return mismatch. -/
def cflatCallReturn (callId : UInt64) : Env → Client D → Reply × Client D :=
  invokeSimple H commandCallReturn (idOperation callId)

def cflatFinalize : Env → Client D → Reply × Client D :=
  invokeSimple H commandFinalize emptyOperation

/-- `*size` is set to the size of the report, or to the size it needs. -/
def cflatGetAuth (out : Memref) (env : Env) (client : Client D) : Reply × Client D :=
  if !client.initialized then (.buffer (-1) out, client)
  else
    let ((res, params), client) :=
      teecInvokeCommand H env.command ⟨env.alloc, commandGetAuth, memrefOperation out⟩ client
    let reply := firstMemref params
    if res = some .success then (.buffer 0 reply, client)
    else if res = some .shortBuffer then (.buffer (-2) reply, client)
    else (.buffer (-1) out, client)

/-- A buffer that is too small is a failure like any other. -/
def cflatGetLog (out : Memref) (env : Env) (client : Client D) : Reply × Client D :=
  if !client.initialized then (.buffer (-1) out, client)
  else
    let ((res, params), client) :=
      teecInvokeCommand H env.command ⟨env.alloc, commandGetLog, memrefOperation out⟩ client
    if res = some .success then (.buffer 0 (firstMemref params), client)
    else (.buffer (-1) out, client)

def cflatCleanup (client : Client D) : Client D :=
  if client.initialized then
    { client with
      initialized := false
      sess := none
      teecLog := .finalizeContext :: .closeSession :: client.teecLog }
  else client

/-! ## The machine of the library -/

inductive Action
  | init
  | recordNode (nodeId : UInt64)
  | loopEnter (loopId : UInt64)
  | loopExit (loopId : UInt64)
  | callEnter (callId caller : UInt64)
  | callReturn (callId : UInt64)
  | finalize
  | getAuth (out : Memref)
  | getLog (out : Memref)
  | cleanup
  deriving DecidableEq, Repr

/-- A call of a host function, with what the TEE does during it. -/
structure Call where
  action : Action
  env : Env
  deriving DecidableEq, Repr

def host : Machine (Client D) Call Reply := fun client call =>
  match call.action with
  | .init => cflatInit H call.env client
  | .recordNode nodeId => cflatRecordNode H nodeId call.env client
  | .loopEnter loopId => cflatLoopEnter H loopId call.env client
  | .loopExit loopId => cflatLoopExit H loopId call.env client
  | .callEnter callId caller => cflatCallEnter H callId caller call.env client
  | .callReturn callId => cflatCallReturn H callId call.env client
  | .finalize => cflatFinalize H call.env client
  | .getAuth out => cflatGetAuth H out call.env client
  | .getLog out => cflatGetLog H out call.env client
  | .cleanup => (.cleanedUp, cflatCleanup client)

variable {H} {client : Client D}

/-! ## The client after a call -/

theorem teecInvokeCommand_initialized (tr : Transport) (call : TaCall) (client : Client D) :
    (teecInvokeCommand H tr call client).2.initialized = client.initialized := by
  unfold teecInvokeCommand
  cases client.sess with
  | none => rfl
  | some ctx => cases tr <;> rfl

theorem teecInvokeCommand_teecLog (tr : Transport) (call : TaCall) (client : Client D) :
    (teecInvokeCommand H tr call client).2.teecLog =
      .invokeCommand call.cmdId :: client.teecLog := by
  unfold teecInvokeCommand
  cases client.sess with
  | none => rfl
  | some ctx => cases tr <;> rfl

theorem snd_invokeSimple (cmdId : UInt32) (op : Operation) (env : Env)
    (h : client.initialized = true) :
    (invokeSimple H cmdId op env client).2 =
      (teecInvokeCommand H env.command ⟨env.alloc, cmdId, op⟩ client).2 := by
  simp only [invokeSimple, h, Bool.not_true, Bool.false_eq_true, if_false]

theorem snd_cflatGetAuth (out : Memref) (env : Env) (h : client.initialized = true) :
    (cflatGetAuth H out env client).2 = (teecInvokeCommand H env.command
      ⟨env.alloc, commandGetAuth, memrefOperation out⟩ client).2 := by
  simp only [cflatGetAuth, h, Bool.not_true, Bool.false_eq_true, if_false]
  split
  · rfl
  split <;> rfl

theorem snd_cflatGetLog (out : Memref) (env : Env) (h : client.initialized = true) :
    (cflatGetLog H out env client).2 = (teecInvokeCommand H env.command
      ⟨env.alloc, commandGetLog, memrefOperation out⟩ client).2 := by
  simp only [cflatGetLog, h, Bool.not_true, Bool.false_eq_true, if_false]
  split <;> rfl

end Host
end CFlat
