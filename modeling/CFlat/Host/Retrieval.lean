import CFlat.Host.Client
import CFlat.Runtime.Link
import CFlat.SecureWorld.Bounds
import CFlat.SecureWorld.Snapshot

/-!
# Retrieval — fetching a report through the host library

`cflat_get_auth` answers -2 when the buffer is too small, and reports the size it needs.  As long as
no report is taken and no session opened in between, the retry with that size gets the same report
in full.
-/

namespace CFlat
namespace Host

open Lib SecureWorld CFlat.Runtime

variable {D : Type} {H : Sha256 D} {client : Client D}

/-! ## Clients whose session holds a report -/

/-- The session of an initialised client holds these bytes as its report. -/
def Holds (auth : List UInt8) (client : Client D) : Prop :=
  client.initialized = true ∧ ∃ ctx, client.sess = some ctx ∧ Stored auth ctx

/-- The calls that neither open nor close a session nor take a report. -/
def Call.keepsReport (call : Call) : Bool :=
  match call.action with
  | .init => false
  | .finalize => false
  | .cleanup => false
  | _ => true

/-- The session after a command: executed, or as it was. -/
theorem teecInvokeCommand_sess (tr : Transport) (call : TaCall) {ctx : SessionCtx D}
    (h : client.sess = some ctx) :
    (teecInvokeCommand H tr call client).2.sess =
      some (if tr.arrives then (invoke H ctx ⟨call.alloc, call.cmdId, call.op⟩).2 else ctx) := by
  cases tr <;> simp [teecInvokeCommand, h, invoke]

theorem Holds.invoke {auth : List UInt8} (h : Holds auth client) (tr : Transport) {call : TaCall}
    (hcall : (⟨call.alloc, call.cmdId, call.op⟩ : RawCall).keepsReport = true) :
    Holds auth (teecInvokeCommand H tr call client).2 := by
  rcases h with ⟨hinit, ctx, hsess, hstored⟩
  refine ⟨(teecInvokeCommand_initialized tr call client).trans hinit, _,
    teecInvokeCommand_sess tr call hsess, ?_⟩
  split
  · exact hstored.invoke hcall
  · exact hstored

theorem Holds.invokeSimple {auth : List UInt8} (h : Holds auth client) {cmdId : UInt32}
    {op : Operation} {env : Env}
    (hcall : (⟨env.alloc, cmdId, op⟩ : RawCall).keepsReport = true) :
    Holds auth (Host.invokeSimple H cmdId op env client).2 := by
  rw [snd_invokeSimple cmdId op env h.1]
  exact h.invoke env.command hcall

theorem Holds.step {auth : List UInt8} (h : Holds auth client) {call : Call}
    (hcall : call.keepsReport = true) : Holds auth (host H client call).2 := by
  rcases call with ⟨action, env⟩
  cases action with
  | init => cases hcall
  | recordNode nodeId => exact h.invokeSimple rfl
  | loopEnter loopId => exact h.invokeSimple rfl
  | loopExit loopId => exact h.invokeSimple rfl
  | callEnter callId caller => exact h.invokeSimple rfl
  | callReturn callId => exact h.invokeSimple rfl
  | finalize => cases hcall
  | getAuth out =>
      simp only [host, snd_cflatGetAuth out env h.1]
      exact h.invoke env.command rfl
  | getLog out =>
      simp only [host, snd_cflatGetLog out env h.1]
      exact h.invoke env.command rfl
  | cleanup => cases hcall

theorem Holds.run {auth : List UInt8} (h : Holds auth client) {calls : List Call}
    (hcalls : ∀ call ∈ calls, call.keepsReport = true) :
    Holds auth ((host H).run client calls) :=
  (host H).run_invariant (I := Holds auth) (fun _ _ hcall h => h.step hcall) h calls hcalls

/-! ## The answers of `cflat_get_auth` -/

/-- The answer while these bytes are stored: 0 with the bytes, -2 with their size, or -1 when the
command fails on its way. -/
def getAuthReply (auth : List UInt8) (tr : Transport) (out : Memref) : Reply :=
  match tr with
  | .delivered =>
      if out.size < .ofNat auth.length then .buffer (-2) { out with size := .ofNat auth.length }
      else .buffer 0 ⟨auth ++ out.buffer.drop auth.length, .ofNat auth.length⟩
  | _ => .buffer (-1) out

theorem Holds.getAuth {auth : List UInt8} (h : Holds auth client) (out : Memref) (env : Env) :
    (cflatGetAuth H out env client).1 = getAuthReply auth env.command out := by
  rcases h with ⟨hinit, ctx, hsess, hstored⟩
  have hserved : taInvokeCommandEntryPoint H env.alloc ctx commandGetAuth (memrefOperation out) =
      (((snapshotReply auth out).1,
        #v[{ Param.none with memref := (snapshotReply auth out).2 }, .none, .none, .none]),
        ctx) := by
    rw [dispatch_getAuth, hstored.getAuth]
  simp only [cflatGetAuth, hinit, Bool.not_true, Bool.false_eq_true, if_false, teecInvokeCommand,
    hsess, hserved]
  cases env.command with
  | lost => rfl
  | replyLost => rfl
  | delivered =>
      simp only [getAuthReply, snapshotReply]
      split <;> rfl

theorem getAuthReply_short {auth : List UInt8} {tr : Transport} {out reply : Memref}
    (h : getAuthReply auth tr out = .buffer (-2) reply) :
    reply.size = .ofNat auth.length := by
  cases tr with
  | delivered =>
      simp only [getAuthReply] at h
      split at h
      · cases h
        rfl
      · cases h
  | lost => cases h
  | replyLost => cases h

/-- A buffer of the size that is asked for is large enough. -/
theorem getAuthReply_fits {auth : List UInt8} {out : Memref} (h : out.size = .ofNat auth.length) :
    getAuthReply auth .delivered out =
      .buffer 0 ⟨auth ++ out.buffer.drop auth.length, .ofNat auth.length⟩ := by
  simp only [getAuthReply, h, UInt32.lt_irrefl, if_false]

/-! ## Runs -/

/-- An initialised client has an open session, and an open session is well formed. -/
structure Connected (client : Client D) : Prop where
  isOpen : client.initialized = true → ∃ ctx, client.sess = some ctx
  wellFormed : ∀ ctx, client.sess = some ctx → WellFormed ctx

theorem Connected.invoke (h : Connected client) (tr : Transport) (call : TaCall) :
    Connected (teecInvokeCommand H tr call client).2 := by
  cases hsess : client.sess with
  | none =>
      have hnone : (teecInvokeCommand H tr call client).2.sess = none := by
        simp [teecInvokeCommand, hsess]
      have hinit := teecInvokeCommand_initialized (H := H) tr call client
      refine ⟨fun hinit' => ?_, fun ctx hctx => ?_⟩
      · rcases h.isOpen (hinit.symm.trans hinit') with ⟨ctx, hctx⟩
        rw [hsess] at hctx
        cases hctx
      · rw [hnone] at hctx
        cases hctx
  | some ctx =>
      have hnext := teecInvokeCommand_sess (H := H) tr call hsess
      refine ⟨fun _ => ⟨_, hnext⟩, fun ctx' hctx => ?_⟩
      rw [hnext] at hctx
      rcases Option.some.inj hctx with rfl
      split
      · exact wellFormed_invoke (h.wellFormed ctx hsess) _
      · exact h.wellFormed ctx hsess

theorem Connected.invokeSimple (h : Connected client) (cmdId : UInt32) (op : Operation)
    (env : Env) : Connected (Host.invokeSimple H cmdId op env client).2 := by
  simp only [Host.invokeSimple]
  split
  · exact h
  · exact h.invoke env.command _

theorem Connected.init (h : Connected client) (env : Env) :
    Connected (cflatInit H env client).2 := by
  simp only [cflatInit]
  split
  · exact ⟨h.isOpen, h.wellFormed⟩
  split
  · exact ⟨h.isOpen, h.wellFormed⟩
  · -- A new session is opened, and CMD_INIT is sent to it.
    have hopened : Connected
        { client with
          sess := some (taOpenSessionEntryPoint H)
          teecLog := .openSession true :: .initializeContext true :: client.teecLog } := by
      refine ⟨fun _ => ⟨_, rfl⟩, fun ctx hctx => ?_⟩
      rcases Option.some.inj hctx with rfl
      exact wellFormed_open
    have hsent := hopened.invoke (H := H) env.command
      ⟨env.alloc, commandInit, emptyOperation⟩
    split
    · exact hsent
    · exact ⟨fun _ => ⟨_, teecInvokeCommand_sess _ _ rfl⟩, hsent.wellFormed⟩

theorem Connected.step (h : Connected client) (call : Call) :
    Connected (host H client call).2 := by
  rcases call with ⟨action, env⟩
  cases action with
  | init => exact h.init env
  | recordNode nodeId => exact h.invokeSimple _ _ env
  | loopEnter loopId => exact h.invokeSimple _ _ env
  | loopExit loopId => exact h.invokeSimple _ _ env
  | callEnter callId caller => exact h.invokeSimple _ _ env
  | callReturn callId => exact h.invokeSimple _ _ env
  | finalize => exact h.invokeSimple _ _ env
  | getAuth out =>
      cases hinit : client.initialized with
      | true =>
          simp only [host, snd_cflatGetAuth out env hinit]
          exact h.invoke env.command _
      | false =>
          simp only [host, cflatGetAuth, hinit]
          exact h
  | getLog out =>
      cases hinit : client.initialized with
      | true =>
          simp only [host, snd_cflatGetLog out env hinit]
          exact h.invoke env.command _
      | false =>
          simp only [host, cflatGetLog, hinit]
          exact h
  | cleanup =>
      simp only [host, cflatCleanup]
      split
      · exact ⟨by simp, by simp⟩
      · exact h

variable (H) in
/-- A retry of `cflat_get_auth` succeeds: after a CMD_FINALIZE that this client sends in a session,
if some `cflat_get_auth` answers -2, then the next one with the size it asked for, should its
command get through, returns 0 and the report of the CMD_FINALIZE in full, whatever the client
measures and fetches in between. -/
def RetrySucceeds (client : Client D) : Prop :=
  ∀ (ctx : SessionCtx D) (fin : Call) (later₁ later₂ : List Call) (out₁ out₂ reply : Memref)
    (env₁ env₂ : Env),
    client.initialized = true → client.sess = some ctx → fin.action = .finalize →
      fin.env.command.arrives = true →
      (∀ call ∈ later₁ ++ later₂, call.keepsReport = true) →
      let client₁ := (host H).run (host H client fin).2 later₁
      (host H client₁ ⟨.getAuth out₁, env₁⟩).1 = .buffer (-2) reply →
      out₂.size = reply.size → env₂.command = .delivered →
      let client₂ := (host H).run (host H client₁ ⟨.getAuth out₁, env₁⟩).2 later₂
      (host H client₂ ⟨.getAuth out₂, env₂⟩).1 =
        .buffer 0 ⟨ctx.measured.encode H ++ out₂.buffer.drop (ctx.measured.encode H).length,
          out₂.size⟩

theorem holds_finalize {ctx : SessionCtx D} (hinit : client.initialized = true)
    (hsess : client.sess = some ctx) (hwf : WellFormed ctx) {fin : Call}
    (haction : fin.action = .finalize) (harrives : fin.env.command.arrives = true) :
    Holds (ctx.measured.encode H) (host H client fin).2 := by
  simp only [host, haction, cflatFinalize, invokeSimple, hinit, Bool.not_true, Bool.false_eq_true,
    if_false]
  refine ⟨(teecInvokeCommand_initialized _ _ client).trans hinit, _,
    teecInvokeCommand_sess _ _ hsess, ?_⟩
  rw [if_pos harrives, invoke_finalize ctx rfl]
  exact stored_finalize hwf

theorem Connected.retrySucceeds (h : Connected client) : RetrySucceeds H client := by
  intro ctx fin later₁ later₂ out₁ out₂ reply env₁ env₂ hinit hsess haction harrives hlater client₁
    hfirst hsize hdelivered client₂
  have hwf := h.wellFormed ctx hsess
  have hholds : Holds (ctx.measured.encode H) client₁ :=
    (holds_finalize hinit hsess hwf haction harrives).run
      (fun call hcall => hlater call (List.mem_append_left _ hcall))
  have hfetched : Holds (ctx.measured.encode H) (host H client₁ ⟨.getAuth out₁, env₁⟩).2 :=
    hholds.step rfl
  have hholds₂ : Holds (ctx.measured.encode H) client₂ :=
    hfetched.run (fun call hcall => hlater call (List.mem_append_right _ hcall))
  -- The size that the first call reports is the size of the report.
  have hasked : reply.size = .ofNat (ctx.measured.encode H).length :=
    getAuthReply_short ((hholds.getAuth out₁ env₁).symm.trans hfirst)
  have hanswer := hholds₂.getAuth (H := H) out₂ env₂
  rw [hdelivered, getAuthReply_fits (hsize.trans hasked), ← hasked, ← hsize] at hanswer
  exact hanswer

theorem connected_run (calls : List Call) : Connected ((host H).run .start calls) :=
  (host H).run_invariant (I := Connected) (P := fun _ => True) (fun _ call _ h => h.step call)
    ⟨by simp [Client.start], by simp [Client.start]⟩ calls (fun _ _ => trivial)

/-- The report is a stable snapshot: in every session GET_AUTH answers from the state in which the
last CMD_FINALIZE was taken, or not at all between a CMD_INIT and the next CMD_FINALIZE; and in
every run of a client the retry of a `cflat_get_auth` that was too short gets that report. -/
theorem report_stable (H : Sha256 D) :
    (∀ calls : List RawCall,
        StableSnapshot H ((invoke H).run (taOpenSessionEntryPoint H) calls)) ∧
      ∀ calls : List Call, RetrySucceeds H ((host H).run .start calls) :=
  ⟨fun calls => stableSnapshot_of_wellFormed (bounded_run calls).toWellFormed,
    fun calls => (connected_run calls).retrySucceeds⟩

end Host
end CFlat
