import CFlat.SecureWorld.Dispatch

/-!
# Client — the runtime library in the normal world

`libcflat.c`: the hooks that instrumented code calls, and `cflat_finalize_and_print`.  The runtime
holds two flags, a counter and one session of the trusted application.  What the TEE does with a
call is an input (`Env`): it may fail to give a context or a session, lose a command on its way in
or its reply on the way out, and let `TEE_AllocateOperation` fail inside a CMD_INIT.
-/

namespace CFlat
namespace Runtime

open Lib SecureWorld

/-! ## The TEE as the runtime sees it -/

/-- What happens to one `TEEC_InvokeCommand`: it goes through, it never arrives, or it is executed
and its reply is lost. -/
inductive Transport
  | delivered
  | lost
  | replyLost
  deriving DecidableEq, Repr

/-- What the TEE does with the calls that one runtime function may make. -/
structure Env where
  /-- `TEEC_InitializeContext` succeeds. -/
  context : Bool
  /-- `TEEC_OpenSession` succeeds. -/
  session : Bool
  /-- The CMD_INIT of `ensure_init`. -/
  init : Transport
  initAlloc : AllocOutcome
  /-- The CMD_INIT of `maybe_reinit`. -/
  reinit : Transport
  reinitAlloc : AllocOutcome
  /-- The command of a hook, or CMD_FINALIZE. -/
  command : Transport
  getAuth : Transport
  deriving DecidableEq, Repr

/-- The calls of the TEE Client API. -/
inductive TeecCall
  | initializeContext (succeeds : Bool)
  | openSession (succeeds : Bool)
  | invokeCommand (cmdId : UInt32)
  | closeSession
  | finalizeContext
  deriving DecidableEq, Repr

/-- A command as the trusted application executes it. -/
structure TaCall where
  alloc : AllocOutcome
  cmdId : UInt32
  op : Operation
  deriving DecidableEq, Repr

/-- The static variables of the runtime; `sess` is the context of the session they refer to, if it
is open.  Two ghost fields, newest entry first: `executed` lists the commands that this session has
executed, with their results, and `teecLog` all calls of the TEE Client API. -/
structure Client (D : Type) where
  initialized : Bool
  needsReinit : Bool
  worldSwitchCount : UInt32
  sess : Option (SessionCtx D)
  executed : List (TaCall × TeeResult)
  teecLog : List TeecCall

/-- What a runtime function prints, or for a hook what its command returned, which the hook does
not look at. -/
inductive Output
  | contextFailed
  | sessionFailed
  | initFailed (res : Option TeeResult)
  | hookDone (res : Option TeeResult)
  | notInitialized
  | finalizeFailed (res : Option TeeResult)
  | getAuthFailed (res : Option TeeResult)
  | attestation (auth : List UInt8) (worldSwitches : UInt32)
  | cleanedUp
  deriving DecidableEq, Repr

variable {D : Type} (H : Sha256 D)

/-- The runtime at program start. -/
def Client.start : Client D := ⟨false, false, 0, none, [], []⟩

/-- `TEEC_InvokeCommand` on the session, counted as a world switch.  A result is seen only if
neither the command nor its reply is lost. -/
def teecInvokeCommand (tr : Transport) (call : TaCall) (client : Client D) :
    (Option TeeResult × Vector Param 4) × Client D :=
  let client :=
    { client with
      worldSwitchCount := client.worldSwitchCount + 1
      teecLog := .invokeCommand call.cmdId :: client.teecLog }
  -- Counted whatever becomes of the command; a lost one leaves the session as it was.
  match client.sess with
  | none => ((none, call.op.params), client)
  | some ctx =>
      let ((res, params), ctx) := taInvokeCommandEntryPoint H call.alloc ctx call.cmdId call.op
      let served := { client with sess := some ctx, executed := (call, res) :: client.executed }
      match tr with
      | .delivered => ((some res, params), served)
      | .replyLost => ((none, call.op.params), served)
      | .lost => ((none, call.op.params), client)

/-! ## The functions of the runtime -/

/-- What is printed when the runtime could not be initialised; nothing otherwise. -/
def ensureInit (env : Env) (client : Client D) : Option Output × Client D :=
  if client.initialized then (none, client)
  else if !env.context then
    (some .contextFailed,
      { client with teecLog := .initializeContext false :: client.teecLog })
  else if !env.session then
    -- The context that was just opened is not closed again.
    (some .sessionFailed,
      { client with teecLog := .openSession false :: .initializeContext true :: client.teecLog })
  else
    let client :=
      { client with
        sess := some (taOpenSessionEntryPoint H)
        executed := []
        teecLog := .openSession true :: .initializeContext true :: client.teecLog }
    let ((res, _), client) :=
      teecInvokeCommand H env.init ⟨env.initAlloc, commandInit, emptyOperation⟩ client
    -- The session stays open, but the next hook opens another one.
    if res ≠ some .success then (some (.initFailed res), client)
    else (none, { client with initialized := true })

def maybeReinit (env : Env) (client : Client D) : Client D :=
  if !client.needsReinit then client
  else
    -- The result of the command is not looked at.
    let (_, client) :=
      teecInvokeCommand H env.reinit ⟨env.reinitAlloc, commandInit, emptyOperation⟩ client
    { client with needsReinit := false }

/-- The body that the hooks share: `reinits` says whether the hook calls `maybe_reinit`. -/
def invokeHook (reinits : Bool) (cmdId : UInt32) (op : Operation) (env : Env)
    (client : Client D) : Output × Client D :=
  match ensureInit H env client with
  | (some out, client) => (out, client)
  | (none, client) =>
      -- Only the hooks that may start a cycle send the pending CMD_INIT.
      let client := if reinits then maybeReinit H env client else client
      let ((res, _), client) := teecInvokeCommand H env.command ⟨env.reinitAlloc, cmdId, op⟩ client
      (.hookDone res, client)

def cflatRecordNode (nodeId : UInt64) : Env → Client D → Output × Client D :=
  invokeHook H true commandRecordNode (idOperation nodeId)

def cflatLoopEnter (loopId : UInt64) : Env → Client D → Output × Client D :=
  invokeHook H true commandLoopEnter (idOperation loopId)

def cflatLoopExit (loopId : UInt64) : Env → Client D → Output × Client D :=
  invokeHook H false commandLoopExit (idOperation loopId)

def cflatLoopIteration (loopId : UInt64) : Env → Client D → Output × Client D :=
  invokeHook H false commandLoopIteration (idOperation loopId)

def cflatCallEnter (callId caller : UInt64) : Env → Client D → Output × Client D :=
  invokeHook H true commandCallEnter (idPairOperation callId caller)

def cflatCallReturn (callId : UInt64) : Env → Client D → Output × Client D :=
  invokeHook H false commandCallReturn (idOperation callId)

/-- The hook of an event. -/
def hook : Event → Env → Client D → Output × Client D
  | .recordNode nodeId => cflatRecordNode H nodeId
  | .loopEnter loopId => cflatLoopEnter H loopId
  | .loopExit loopId => cflatLoopExit H loopId
  | .loopIteration loopId => cflatLoopIteration H loopId
  | .callEnter callId caller => cflatCallEnter H callId caller
  | .callReturn callId => cflatCallReturn H callId

/-- The client's buffer for the report. -/
def authBuffer : Memref := ⟨List.replicate 8192 0, 8192⟩

def cflatFinalizeAndPrint (env : Env) (client : Client D) : Output × Client D :=
  if !client.initialized then (.notInitialized, client)
  else
    let ((res, _), client) :=
      teecInvokeCommand H env.command ⟨env.reinitAlloc, commandFinalize, emptyOperation⟩ client
    -- Nothing is fetched and no reset is asked for.
    if res ≠ some .success then (.finalizeFailed res, client)
    else
      let ((res, params), client) :=
        teecInvokeCommand H env.getAuth
          ⟨env.reinitAlloc, commandGetAuth, memrefOperation authBuffer⟩ client
      if res ≠ some .success then (.getAuthFailed res, client)
      else
        -- The reset waits for the next forward hook, after the returns that are still pending.
        let client := { client with needsReinit := true }
        let out := (params.get 0).memref
        (.attestation (out.buffer.take out.size.toNat) client.worldSwitchCount, client)

/-- The destructor at program exit; no command reaches the session any more. -/
def cflatCleanup (client : Client D) : Client D :=
  if client.initialized then
    { client with
      sess := none
      teecLog := .finalizeContext :: .closeSession :: client.teecLog }
  else client

/-! ## The machine of the runtime -/

inductive Action
  | hook (e : Event)
  | finalizeAndPrint
  | cleanup
  deriving DecidableEq, Repr

/-- A call of a runtime function, with what the TEE does during it. -/
structure Call where
  action : Action
  env : Env
  deriving DecidableEq, Repr

/-- A TEE that never fails. -/
def Env.reliable : Env where
  context := true
  session := true
  init := .delivered
  initAlloc := .ok 1
  reinit := .delivered
  reinitAlloc := .ok 2
  command := .delivered
  getAuth := .delivered

/-- A call that the TEE serves without failure. -/
def Call.reliable (action : Action) : Call := ⟨action, .reliable⟩

def runtime : Machine (Client D) Call Output := fun client call =>
  match call.action with
  | .hook e => hook H e call.env client
  | .finalizeAndPrint => cflatFinalizeAndPrint H call.env client
  | .cleanup => (.cleanedUp, cflatCleanup client)

variable {H}

/-- Only a hook has an effect on a runtime that is not initialised. -/
theorem runtime_uninitialized {client : Client D} {call : Call} (h : client.initialized = false)
    (haction : ∀ e, call.action ≠ .hook e) : (runtime H client call).2 = client := by
  rcases call with ⟨action, env⟩
  cases action with
  | hook e => exact absurd rfl (haction e)
  | finalizeAndPrint => simp [runtime, cflatFinalizeAndPrint, h]
  | cleanup => simp [runtime, cflatCleanup, h]

/-- All hooks are the shared body at their own command. -/
theorem hook_eq (e : Event) :
    hook (D := D) H e = invokeHook H e.isForward (eventCommand e) (eventOperation e) := by
  cases e <;> rfl

end Runtime
end CFlat
