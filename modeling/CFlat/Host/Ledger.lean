import CFlat.Host.Lifecycle
import CFlat.Host.Retrieval
import CFlat.Runtime.Cycles
import CFlat.SecureWorld.Checkpoint

/-!
# Ledger — the reports of the host library accumulate

`cflat_finalize` of the host library starts no new cycle, unlike `cflat_finalize_and_print` of the
runtime.  `Ledger` is what then remains of a client: the events that reached the trusted application
since the last `cflat_init`, and those of them that the stored report shows.  `host_keeps_ledger`
says that the library refines it, whatever commands and replies are lost, as long as no CMD_FINALIZE
finds a loop open.
-/

namespace CFlat
namespace Host

open Lib SecureWorld CFlat.Runtime

variable {D : Type} {H : Sha256 D} {client : Client D}

/-! ## The abstract machine -/

structure Ledger where
  isOpen : Bool
  events : List Event
  /-- The events at the last CMD_FINALIZE. -/
  reported : Option (List Event)
  deriving DecidableEq, Repr

variable (H) in
/-- The session of a client that sends these events and nothing else. -/
def soloSession (es : List Event) : SessionCtx D :=
  beforeFinalize H (taOpenSessionEntryPoint H) 1 es

namespace Ledger

def closed : Ledger := ⟨false, [], none⟩

variable (H) in
/-- An event, answered as in a session without any CMD_FINALIZE. -/
def take (e : Event) (env : Env) (r : Ledger) : Reply × Ledger :=
  if !r.isOpen then (.code (-1), r)
  else
    (.code (if env.command = .delivered ∧ (handle H (soloSession H r.events) e).1 = .success then 0
      else -1),
      if env.command.arrives then { r with events := r.events ++ [e] } else r)

def finalize (env : Env) (r : Ledger) : Reply × Ledger :=
  if !r.isOpen then (.code (-1), r)
  else
    (.code (if env.command = .delivered then 0 else -1),
      if env.command.arrives then { r with reported := some r.events } else r)

variable (H) in
/-- The report of a session that saw exactly the events reported. -/
def getAuth (out : Memref) (env : Env) (r : Ledger) : Reply :=
  if !r.isOpen then .buffer (-1) out
  else
    match r.reported with
    | none => .buffer (-1) out
    | some es => getAuthReply (sessionReport H es) env.command out

/-- The log is always empty. -/
def getLog (out : Memref) (env : Env) (r : Ledger) : Reply :=
  if r.isOpen ∧ env.command = .delivered then .buffer 0 { out with size := 0 }
  else .buffer (-1) out

end Ledger

variable (H) in
def ledger : Machine Ledger Call Reply := fun r call =>
  match call.action with
  | .init => (.code 0, ⟨true, [], none⟩)
  | .recordNode nodeId => r.take H (.recordNode nodeId) call.env
  | .loopEnter loopId => r.take H (.loopEnter loopId) call.env
  | .loopExit loopId => r.take H (.loopExit loopId) call.env
  | .callEnter callId caller => r.take H (.callEnter callId caller) call.env
  | .callReturn callId => r.take H (.callReturn callId) call.env
  | .finalize => r.finalize call.env
  | .getAuth out => (r.getAuth H out call.env, r)
  | .getLog out => (r.getLog out call.env, r)
  | .cleanup => (.cleanedUp, { r with isOpen := false })

variable (H) in
/-- The call returns, and a CMD_FINALIZE that it brings to a session finds no loop open. -/
structure Orderly (r : Ledger) (call : Call) : Prop where
  returns : call.returns = true
  shut : call.action = .finalize → r.isOpen = true → call.env.command.arrives = true →
    (soloSession H r.events).activeCount = 0

instance (r : Ledger) (call : Call) : Decidable (Orderly H r call) :=
  decidable_of_iff (call.returns = true ∧
      (call.action = .finalize → r.isOpen = true → call.env.command.arrives = true →
        (soloSession H r.events).activeCount = 0))
    ⟨fun h => ⟨h.1, h.2⟩, fun h => ⟨h.returns, h.shut⟩⟩

/-! ## Sessions -/

variable (H) in
/-- What a session stores, by the events of its report. -/
def Reported : Option (List Event) → SessionCtx D → Prop
  | none, ctx => Unstored ctx
  | some es, ctx => Stored (sessionReport H es) ctx

theorem Reported.event {reported : Option (List Event)} {ctx : SessionCtx D}
    (h : Reported H reported ctx) (e : Event) : Reported H reported (handle H ctx e).2 := by
  cases reported with
  | none =>
      have hne : Cmd.event e ≠ .finalize := by simp
      exact Unstored.exec h hne
  | some es =>
      have hinit : ∀ alloc, Cmd.event e ≠ .init alloc := by simp
      exact Stored.exec h hinit (by simp)

/-- A session and what the ledger says of it. -/
structure Shows (H : Sha256 D) (ctx : SessionCtx D) (r : Ledger) : Prop where
  alike : Alike (soloSession H r.events) ctx
  reported : Reported H r.reported ctx
  logIdx : ctx.logIdx = 0

theorem shows_init (handle : Handle) :
    Shows H (cmdInit H (.ok handle) (taOpenSessionEntryPoint H)).2 ⟨true, [], none⟩ where
  alike := alike_init 1 handle _
  reported := unstored_init (.ok handle) _
  logIdx := by rw [cmdInit_ok]

theorem soloSession_append (es : List Event) (e : Event) :
    soloSession H (es ++ [e]) = (handle H (soloSession H es) e).2 :=
  Machine.run_append (handle H) _ es [e]

theorem sessionReport_eq (es : List Event) :
    sessionReport H es = (soloSession H es).measured.encode H := report_cycle _ 1 es

section Shows

variable {ctx : SessionCtx D} {r : Ledger} (h : Shows H ctx r)
include h

theorem Shows.event (e : Event) :
    (handle H ctx e).1 = (handle H (soloSession H r.events) e).1 ∧
      Shows H (handle H ctx e).2 { r with events := r.events ++ [e] } := by
  rcases h.alike.handle (H := H) e with ⟨hreply, halike⟩
  refine ⟨hreply, ?_, h.reported.event e, ?_⟩
  · rw [soloSession_append]
    exact halike
  · exact (storeFrame_handle h.alike.ready.wellFormed e).logIdx.trans h.logIdx

/-- A CMD_FINALIZE that finds no loop open stores a report of all events, and goes unnoticed by the
later ones. -/
theorem Shows.finalize (hshut : (soloSession H r.events).activeCount = 0) :
    Shows H (cmdFinalize H ctx).2 { r with reported := some r.events } where
  alike := h.alike.finalize hshut
  reported := by
    have hstored := stored_finalize (H := H) h.alike.ready.wellFormed
    rwa [h.alike.measured, ← sessionReport_eq] at hstored
  logIdx := h.logIdx

end Shows

/-! ## One call -/

/-- A client and what the ledger says of it. -/
inductive Keeps (H : Sha256 D) (client : Client D) (r : Ledger) : Prop
  | idle (initialized : client.initialized = false) (isOpen : r.isOpen = false)
  | connected {ctx : SessionCtx D} (initialized : client.initialized = true)
      (isOpen : r.isOpen = true) (sess : client.sess = some ctx) (session : Shows H ctx r)

/-- What a command of an initialised client brings back. -/
theorem invokeSimple_connected {ctx : SessionCtx D} (hinit : client.initialized = true)
    (hsess : client.sess = some ctx) (cmdId : UInt32) (op : Operation) (env : Env) :
    (invokeSimple H cmdId op env client).1 =
        .code (if env.command = .delivered ∧
          (invoke H ctx ⟨env.alloc, cmdId, op⟩).1.1 = .success then 0 else -1) ∧
      (invokeSimple H cmdId op env client).2.initialized = true ∧
      (invokeSimple H cmdId op env client).2.sess =
        some (if env.command.arrives then (invoke H ctx ⟨env.alloc, cmdId, op⟩).2 else ctx) := by
  refine ⟨?_, ?_, ?_⟩
  · simp only [invokeSimple, hinit, Bool.not_true, Bool.false_eq_true, if_false,
      teecInvokeCommand, hsess]
    cases env.command <;> simp [SecureWorld.invoke]
  · rw [snd_invokeSimple cmdId op env hinit, teecInvokeCommand_initialized, hinit]
  · rw [snd_invokeSimple cmdId op env hinit]
    exact teecInvokeCommand_sess env.command ⟨env.alloc, cmdId, op⟩ hsess

/-- A measurement function. -/
theorem keeps_take {r : Ledger} (h : Keeps H client r) (e : Event) (env : Env) :
    (invokeSimple H (eventCommand e) (eventOperation e) env client).1 = (r.take H e env).1 ∧
      Keeps H (invokeSimple H (eventCommand e) (eventOperation e) env client).2
        (r.take H e env).2 := by
  cases h with
  | idle initialized isOpen =>
      simp only [invokeSimple, Ledger.take, initialized, isOpen, Bool.not_false, if_true, true_and]
      exact .idle initialized isOpen
  | @connected ctx initialized isOpen sess session =>
      rcases invokeSimple_connected (H := H) initialized sess (eventCommand e) (eventOperation e)
        env with ⟨hreply, hinit, hsess⟩
      rcases session.event e with ⟨hresult, hnext⟩
      simp only [SecureWorld.invoke, dispatch_eventOperation] at hreply hsess
      -- The session answers as one that saw the events alone, whatever was finalised in between.
      rw [Ledger.take, if_neg (by simp [isOpen])]
      refine ⟨by rw [hreply, hresult], ?_⟩
      cases harrives : env.command.arrives with
      | true =>
          rw [harrives, if_pos rfl] at hsess
          rw [if_pos rfl]
          exact .connected hinit isOpen hsess hnext
      | false =>
          rw [harrives] at hsess
          exact .connected hinit isOpen hsess session

theorem keeps_finalize {r : Ledger} (h : Keeps H client r) {env : Env}
    (hcall : Orderly H r ⟨.finalize, env⟩) :
    (cflatFinalize H env client).1 = (r.finalize env).1 ∧
      Keeps H (cflatFinalize H env client).2 (r.finalize env).2 := by
  cases h with
  | idle initialized isOpen =>
      simp only [cflatFinalize, invokeSimple, Ledger.finalize, initialized, isOpen, Bool.not_false,
        if_true, true_and]
      exact .idle initialized isOpen
  | @connected ctx initialized isOpen sess session =>
      rcases invokeSimple_connected (H := H) initialized sess commandFinalize emptyOperation env
        with ⟨hreply, hinit, hsess⟩
      have hresult : (cmdFinalize H ctx).1 = .success := rfl
      simp only [SecureWorld.invoke, dispatch_finalize, hresult, and_true] at hreply hsess
      rw [Ledger.finalize, if_neg (by simp [isOpen])]
      refine ⟨hreply, ?_⟩
      cases harrives : env.command.arrives with
      | true =>
          rw [harrives, if_pos rfl] at hsess
          rw [if_pos rfl]
          exact .connected hinit isOpen hsess
            (session.finalize (hcall.shut rfl isOpen harrives))
      | false =>
          rw [harrives] at hsess
          exact .connected hinit isOpen hsess session

/-- A `cflat_init` that returns opens a session of its own. -/
theorem keeps_init {env : Env} (hreturns : Call.returns ⟨.init, env⟩ = true) :
    (cflatInit H env client).1 = .code 0 ∧
      Keeps H (cflatInit H env client).2 ⟨true, [], none⟩ := by
  have hinit : (cflatInit H env client).2.initialized = true := (init_log hreturns).2
  rcases env with ⟨context, session, alloc, command⟩
  simp only [Call.returns, bne_self_eq_false, Bool.false_or, Bool.and_eq_true, beq_iff_eq]
    at hreturns
  rcases hreturns with ⟨⟨⟨rfl, rfl⟩, rfl⟩, halloc⟩
  cases alloc with
  | fail err clears => cases halloc
  | ok handle =>
      refine ⟨?_, .connected hinit rfl ?_ (shows_init handle)⟩
      · simp [cflatInit, teecInvokeCommand, dispatch_init, cmdInit_ok]
      · simp [cflatInit, teecInvokeCommand, dispatch_init, cmdInit_ok]

theorem keeps_getAuth {r : Ledger} (h : Keeps H client r) (out : Memref) (env : Env) :
    (cflatGetAuth H out env client).1 = r.getAuth H out env ∧
      Keeps H (cflatGetAuth H out env client).2 r := by
  cases h with
  | idle initialized isOpen =>
      simp only [cflatGetAuth, Ledger.getAuth, initialized, isOpen, Bool.not_false, if_true,
        true_and]
      exact .idle initialized isOpen
  | @connected ctx initialized isOpen sess session =>
      have hreported := session.reported
      constructor
      · cases hr : r.reported with
        | none =>
            rw [hr] at hreported
            -- Without a report CMD_GET_AUTH is refused, whatever becomes of the reply.
            have hrefused : cmdGetAuth ctx out = (.badState, out) := Unstored.getAuth hreported out
            simp only [cflatGetAuth, Ledger.getAuth, initialized, isOpen, hr, teecInvokeCommand,
              sess, dispatch_getAuth, hrefused]
            cases env.command <;> simp
        | some es =>
            rw [hr] at hreported
            have hholds : Holds (sessionReport H es) client := ⟨initialized, ctx, sess, hreported⟩
            simp [Ledger.getAuth, isOpen, hr, hholds.getAuth]
      · have hsess := teecInvokeCommand_sess (H := H) env.command
          ⟨env.alloc, commandGetAuth, memrefOperation out⟩ sess
        -- Fetching a report leaves the session as it was.
        have hsame : (SecureWorld.invoke H ctx
            ⟨env.alloc, commandGetAuth, memrefOperation out⟩).2 = ctx := by
          simp only [SecureWorld.invoke, dispatch_getAuth]
        rw [hsame, ite_self] at hsess
        rw [snd_cflatGetAuth out env initialized]
        exact .connected ((teecInvokeCommand_initialized _ _ _).trans initialized) isOpen hsess
          session

theorem keeps_getLog {r : Ledger} (h : Keeps H client r) (out : Memref) (env : Env) :
    (cflatGetLog H out env client).1 = r.getLog out env ∧
      Keeps H (cflatGetLog H out env client).2 r := by
  cases h with
  | idle initialized isOpen =>
      simp only [cflatGetLog, Ledger.getLog, initialized, isOpen, Bool.not_false, if_true,
        Bool.false_eq_true, false_and, if_false, true_and]
      exact .idle initialized isOpen
  | @connected ctx initialized isOpen sess session =>
      have hempty : cmdGetLog ctx out = (.success, { out with size := 0 }) := by
        simp [cmdGetLog, session.logIdx]
      constructor
      · simp only [cflatGetLog, Ledger.getLog, initialized, isOpen, teecInvokeCommand, sess,
          dispatch_getLog, hempty]
        cases env.command <;> simp [firstMemref]
      · have hsess := teecInvokeCommand_sess (H := H) env.command
          ⟨env.alloc, commandGetLog, memrefOperation out⟩ sess
        have hsame : (SecureWorld.invoke H ctx
            ⟨env.alloc, commandGetLog, memrefOperation out⟩).2 = ctx := by
          simp only [SecureWorld.invoke, dispatch_getLog]
        rw [hsame, ite_self] at hsess
        rw [snd_cflatGetLog out env initialized]
        exact .connected ((teecInvokeCommand_initialized _ _ _).trans initialized) isOpen hsess
          session

theorem keeps_cleanup (r : Ledger) :
    Keeps H (cflatCleanup client) { r with isOpen := false } := by
  refine .idle ?_ rfl
  cases hinit : client.initialized with
  | true => simp [cflatCleanup, hinit]
  | false => simp [cflatCleanup, hinit]

/-- The step lemma. -/
theorem keeps_step {r : Ledger} {call : Call} (hcall : Orderly H r call) (h : Keeps H client r) :
    (host H client call).1 = (ledger H r call).1 ∧
      Keeps H (host H client call).2 (ledger H r call).2 := by
  rcases call with ⟨action, env⟩
  cases action with
  | init => exact keeps_init hcall.returns
  | recordNode nodeId => exact keeps_take h (.recordNode nodeId) env
  | loopEnter loopId => exact keeps_take h (.loopEnter loopId) env
  | loopExit loopId => exact keeps_take h (.loopExit loopId) env
  | callEnter callId caller => exact keeps_take h (.callEnter callId caller) env
  | callReturn callId => exact keeps_take h (.callReturn callId) env
  | finalize => exact keeps_finalize h hcall
  | getAuth out => exact keeps_getAuth h out env
  | getLog out => exact keeps_getLog h out env
  | cleanup => exact ⟨rfl, keeps_cleanup r⟩

/-- The reports of the host library accumulate: as long as no CMD_FINALIZE finds a loop open, every
answer is the one that the ledger gives, so that each report shows all events that reached the
trusted application since the last `cflat_init`, as if there had been no other CMD_FINALIZE. -/
theorem host_keeps_ledger (H : Sha256 D) {calls : List Call}
    (hcalls : (ledger H).StepsMeet (Orderly H) .closed calls) :
    (host H).replies .start calls = (ledger H).replies .closed calls := by
  have hsim := (host H).sim_run_of_stepsMeet (ledger H) id
    (fun _ _ _ hcall h => keeps_step hcall h) (.idle rfl rfl : Keeps H .start .closed) hcalls
  rw [List.map_id] at hsim
  exact hsim.1

/-- Two finalisations, an event that is lost and one whose reply is lost. -/
def twoReports : List Call :=
  [⟨.init, .reliable⟩, ⟨.recordNode 1, .reliable⟩, ⟨.loopEnter 7, .reliable⟩,
    ⟨.loopExit 7, .reliable⟩, ⟨.finalize, .reliable⟩,
    ⟨.recordNode 2, { Env.reliable with command := .lost }⟩,
    ⟨.recordNode 3, { Env.reliable with command := .replyLost }⟩, ⟨.finalize, .reliable⟩,
    ⟨.getAuth authBuffer, .reliable⟩]

/-- The second report shows the first part of the run as well. -/
theorem host_keeps_ledger_twoReports :
    ((ledger Sha256.free).run .closed twoReports).reported =
        some [.recordNode 1, .loopEnter 7, .loopExit 7, .recordNode 3] ∧
      (host Sha256.free).replies .start twoReports =
        (ledger Sha256.free).replies .closed twoReports :=
  ⟨by decide +kernel, host_keeps_ledger Sha256.free (by decide +kernel)⟩

end Host
end CFlat
