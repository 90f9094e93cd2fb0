import CFlat.SecureWorld.Isolation
import CFlat.Runtime.Client

/-!
# Link — the runtime once it is initialised

A runtime with an open session is a pending-reset flag beside the context of the trusted
application.  `linkExec` is this abstract machine: a forward hook sends the pending CMD_INIT first,
a command that is not lost takes effect, and a finalisation that gets through prints the report
and sets the flag.  `linked_step` and `linked_run` say that the runtime refines it, whatever the
TEE loses or refuses.
-/

namespace CFlat
namespace Runtime

open Lib SecureWorld

variable {D : Type} {H : Sha256 D} {client : Client D} {ctx : SessionCtx D} {env : Env}

/-! ## The abstract machine -/

/-- What is left of an initialised runtime: whether a CMD_INIT is pending, and the session. -/
structure Link (D : Type) where
  pending : Bool
  ctx : SessionCtx D

/-- A command that arrives takes effect. -/
def Transport.arrives : Transport → Bool
  | .delivered => true
  | .replyLost => true
  | .lost => false

@[simp] theorem arrives_delivered : Transport.delivered.arrives = true := rfl

@[simp] theorem arrives_replyLost : Transport.replyLost.arrives = true := rfl

@[simp] theorem arrives_lost : Transport.lost.arrives = false := rfl

/-- The report bytes that a call fetches as an attestation. -/
def Output.auth? : Output → Option (List UInt8)
  | .attestation auth _ => some auth
  | _ => none

variable (H) in
/-- The pending CMD_INIT, if there is one. -/
def Link.reinit (env : Env) (link : Link D) : Link D where
  pending := false
  ctx :=
    if link.pending && env.reinit.arrives then (cmdInit H env.reinitAlloc link.ctx).2 else link.ctx

variable (H) in
/-- The session in which the command of a hook is issued. -/
def Link.prepare (e : Event) (env : Env) (link : Link D) : Link D :=
  if e.isForward then link.reinit H env else link

variable (H) in
/-- The two commands of a finalisation; GET_AUTH is issued only when the first reply arrives. -/
def Link.finalize (env : Env) (link : Link D) : Option (List UInt8) × Link D :=
  if env.command.arrives then
    let ctx := (cmdFinalize H link.ctx).2
    if env.command = .delivered ∧ env.getAuth = .delivered then (some ctx.report, ⟨true, ctx⟩)
    else (none, { link with ctx := ctx })
  else (none, link)

variable (H) in
/-- An initialised runtime, with the report bytes that each call fetches. -/
def linkExec : Machine (Link D) Call (Option (List UInt8)) := fun link call =>
  match call.action with
  | .hook e =>
      let link := link.prepare H e call.env
      (none,
        if call.env.command.arrives then { link with ctx := (handle H link.ctx e).2 } else link)
  | .finalizeAndPrint => link.finalize H call.env
  | .cleanup => (none, link)

/-! ## One command -/

/-- The client is initialised and holds this link. -/
structure Linked (client : Client D) (link : Link D) : Prop where
  initialized : client.initialized = true
  needsReinit : client.needsReinit = link.pending
  sess : client.sess = some link.ctx
  ready : Ready link.ctx

/-- What the client sees of a command: its result, unless the command or its reply is lost. -/
def Transport.answer {R : Type} (res : R) : Transport → Option R
  | .delivered => some res
  | .replyLost => none
  | .lost => none

@[simp] theorem answer_delivered {R : Type} (res : R) :
    Transport.delivered.answer res = some res := rfl

@[simp] theorem answer_replyLost {R : Type} (res : R) : Transport.replyLost.answer res = none := rfl

@[simp] theorem answer_lost {R : Type} (res : R) : Transport.lost.answer res = none := rfl

/-- A command of a client with an open session. -/
structure Invoked (tr : Transport) (call : TaCall) (client client' : Client D)
    (out : Option TeeResult × Vector Param 4) (served : TeeResult × Vector Param 4)
    (before after : SessionCtx D) : Prop where
  initialized : client'.initialized = client.initialized
  needsReinit : client'.needsReinit = client.needsReinit
  sess : client'.sess = some (if tr.arrives then after else before)
  result : out.1 = tr.answer served.1
  params : tr = .delivered → out.2 = served.2
  executed : client'.executed =
    if tr.arrives then (call, served.1) :: client.executed else client.executed

theorem invoked_of_sess (tr : Transport) (call : TaCall) (h : client.sess = some ctx) :
    Invoked tr call client (teecInvokeCommand H tr call client).2
      (teecInvokeCommand H tr call client).1
      (taInvokeCommandEntryPoint H call.alloc ctx call.cmdId call.op).1 ctx
      (taInvokeCommandEntryPoint H call.alloc ctx call.cmdId call.op).2 := by
  cases tr <;> constructor <;>
    simp [teecInvokeCommand, h, Transport.arrives, Transport.answer]

theorem ready_init (alloc : AllocOutcome) (h : Ready ctx) : Ready (cmdInit H alloc ctx).2 where
  wellFormed := wellFormed_init alloc ctx
  initialized := by
    cases alloc with
    | ok handle => rw [cmdInit_ok]
    | fail err clears =>
        rw [cmdInit_fail]
        exact h.initialized

theorem Link.ready_reinit {link : Link D} (env : Env) (h : Ready link.ctx) :
    Ready (link.reinit H env).ctx := by
  simp only [Link.reinit]
  split
  · exact ready_init _ h
  · exact h

/-! ## The functions of an initialised runtime -/

theorem maybeReinit_linked {link : Link D} (env : Env) (h : Linked client link) :
    Linked (maybeReinit H env client) (link.reinit H env) := by
  have hready := link.ready_reinit (H := H) env h.ready
  -- With nothing pending the client is left alone.
  by_cases hpending : link.pending = true
  · have hinv := invoked_of_sess (H := H) env.reinit
      ⟨env.reinitAlloc, commandInit, emptyOperation⟩ h.sess
    have hneeds : client.needsReinit = true := h.needsReinit.trans hpending
    refine ⟨?_, ?_, ?_, hready⟩
    · simp [maybeReinit, hneeds, hinv.initialized, h.initialized]
    · simp [maybeReinit, hneeds, Link.reinit]
    · simp [maybeReinit, hneeds, Link.reinit, hinv.sess, hpending, dispatch_init]
  · have hneeds : client.needsReinit = false := by simpa [hpending] using h.needsReinit
    refine ⟨?_, ?_, ?_, hready⟩
    · simp [maybeReinit, hneeds, h.initialized]
    · simp [maybeReinit, hneeds, Link.reinit]
    · simp [maybeReinit, hneeds, Link.reinit, h.sess, hpending]

theorem ensureInit_initialized (env : Env) (h : client.initialized = true) :
    ensureInit H env client = (none, client) := by
  simp [ensureInit, h]

/-- A hook in an initialised runtime: its answer, and the link it leaves. -/
theorem hook_linked {link : Link D} (e : Event) (env : Env) (h : Linked client link) :
    (hook H e env client).1 =
        .hookDone (env.command.answer (handle H (link.prepare H e env).ctx e).1) ∧
      Linked (hook H e env client).2 (linkExec H link ⟨.hook e, env⟩).2 := by
  rw [hook_eq]
  simp only [invokeHook, ensureInit_initialized env h.initialized, linkExec]
  have hprepared : Linked (if e.isForward then maybeReinit H env client else client)
      (link.prepare H e env) := by
    simp only [Link.prepare]
    split
    · exact maybeReinit_linked env h
    · exact h
  have hinv := invoked_of_sess (H := H) env.command
    ⟨env.reinitAlloc, eventCommand e, eventOperation e⟩ hprepared.sess
  rw [dispatch_eventOperation] at hinv
  refine ⟨congrArg Output.hookDone hinv.result, ?_, ?_, ?_, ?_⟩
  · exact hinv.initialized.trans hprepared.initialized
  · refine hinv.needsReinit.trans (hprepared.needsReinit.trans ?_)
    split <;> rfl
  · refine hinv.sess.trans ?_
    split <;> rfl
  · split
    · exact ready_handle hprepared.ready e
    · exact hprepared.ready

/-! ## Finalisation -/

/-- GET_AUTH after a CMD_FINALIZE hands out the report: it fits the client's buffer. -/
theorem getAuth_finalized (h : WellFormed ctx) :
    (cmdGetAuth (cmdFinalize H ctx).2 authBuffer).1 = .success ∧
      (cmdGetAuth (cmdFinalize H ctx).2 authBuffer).2.buffer.take
          (cmdGetAuth (cmdFinalize H ctx).2 authBuffer).2.size.toNat =
        (cmdFinalize H ctx).2.report := by
  have hcap := length_live_le h
  simp only [authCapacity, maxLoopRecords] at hcap
  have hnat := toNat_authSize_cmdFinalize (H := H) h
  have hpos := authSize_cmdFinalize_ne_zero (H := H) h
  -- At most 5156 bytes are copied into 8192.
  have hfits : ¬ authBuffer.size < (cmdFinalize H ctx).2.authSize := by
    have hbuffer : authBuffer.size.toNat = 8192 := rfl
    rw [UInt32.lt_iff_toNat_lt, hnat, hbuffer]
    omega
  have hlength : ((cmdFinalize H ctx).2.finalAuth.toList.take
      (cmdFinalize H ctx).2.authSize.toNat).length = (cmdFinalize H ctx).2.authSize.toNat := by
    rw [hnat, List.length_take, Vector.length_toList]
    simp only [authCapacity, maxLoopRecords]
    omega
  simp only [cmdGetAuth, hpos, hfits, if_false, true_and]
  rw [SessionCtx.report, List.take_left' hlength]

theorem finalize_linked {link : Link D} (env : Env) (h : Linked client link) :
    (cflatFinalizeAndPrint H env client).1.auth? = (link.finalize H env).1 ∧
      Linked (cflatFinalizeAndPrint H env client).2 (link.finalize H env).2 := by
  have hready := ready_finalize (H := H) h.ready
  rcases getAuth_finalized (H := H) h.ready.wellFormed with ⟨hsuccess, hreport⟩
  have hfin := invoked_of_sess (H := H) env.command
    ⟨env.reinitAlloc, commandFinalize, emptyOperation⟩ h.sess
  rw [dispatch_finalize] at hfin
  simp only [cflatFinalizeAndPrint, h.initialized, Bool.not_true, Bool.false_eq_true, if_false,
    Link.finalize]
  generalize teecInvokeCommand H env.command _ client = fin at hfin ⊢
  rcases fin with ⟨⟨res, params⟩, client₁⟩
  obtain rfl : res = env.command.answer .success := hfin.result
  have hinit := hfin.initialized.trans h.initialized
  have hneeds := hfin.needsReinit.trans h.needsReinit
  have hsess := hfin.sess
  cases hcommand : env.command with
  | lost =>
      simp only [hcommand] at hsess
      simp only [answer_lost]
      exact ⟨rfl, hinit, hneeds, hsess, h.ready⟩
  | replyLost =>
      simp only [hcommand] at hsess
      simp only [answer_replyLost]
      exact ⟨rfl, hinit, hneeds, hsess, hready⟩
  | delivered =>
      simp only [hcommand, arrives_delivered, if_true] at hsess
      have hget := invoked_of_sess (H := H) env.getAuth
        ⟨env.reinitAlloc, commandGetAuth, memrefOperation authBuffer⟩ hsess
      rw [dispatch_getAuth] at hget
      simp only [answer_delivered, arrives_delivered, if_true, ne_eq, not_true_eq_false, if_false,
        true_and]
      generalize teecInvokeCommand H env.getAuth _ client₁ = got at hget ⊢
      rcases got with ⟨⟨res₂, params₂⟩, client₂⟩
      obtain rfl : res₂ = env.getAuth.answer .success := by
        rw [← hsuccess]
        exact hget.result
      have hinit₂ := hget.initialized.trans hinit
      have hneeds₂ := hget.needsReinit.trans hneeds
      have hsess₂ := hget.sess
      cases hgetAuth : env.getAuth with
      | lost =>
          simp only [hgetAuth] at hsess₂
          exact ⟨rfl, hinit₂, hneeds₂, hsess₂, hready⟩
      | replyLost =>
          simp only [hgetAuth] at hsess₂
          exact ⟨rfl, hinit₂, hneeds₂, hsess₂, hready⟩
      | delivered =>
          simp only [hgetAuth] at hsess₂
          have hparams : params₂ = _ := hget.params hgetAuth
          refine ⟨?_, hinit₂, rfl, hsess₂, hready⟩
          rw [hparams]
          exact congrArg some hreport

/-! ## Refinement -/

/-- A hook or a finalisation, not the destructor. -/
def Call.isMeasurement (call : Call) : Bool := call.action != .cleanup

/-- The step lemma: an initialised runtime does what its link does. -/
theorem linked_step {link : Link D} {call : Call} (hcall : call.isMeasurement = true)
    (h : Linked client link) :
    (runtime H client call).1.auth? = (linkExec H link call).1 ∧
      Linked (runtime H client call).2 (linkExec H link call).2 := by
  rcases call with ⟨action, env⟩
  cases action with
  | hook e =>
      rcases hook_linked (H := H) e env h with ⟨hreply, hlinked⟩
      refine ⟨?_, hlinked⟩
      simp only [runtime, hreply]
      rfl
  | finalizeAndPrint => exact finalize_linked env h
  | cleanup => cases hcall

/-- The run lemma. -/
theorem linked_run {link : Link D} {calls : List Call}
    (hcalls : ∀ call ∈ calls, call.isMeasurement = true) (h : Linked client link) :
    ((runtime H).replies client calls).map Output.auth? = (linkExec H).replies link calls ∧
      Linked ((runtime H).run client calls) ((linkExec H).run link calls) :=
  (runtime H).sim_run (linkExec H) Output.auth? (fun _ _ _ hcall h => linked_step hcall h) h hcalls

/-! ## The first hook -/

/-- The TEE lets the runtime open its session. -/
structure Env.Opens (env : Env) : Prop where
  context : env.context = true
  session : env.session = true
  init : env.init = .delivered
  initAlloc : ∃ handle, env.initAlloc = .ok handle

variable (H) in
/-- What `ensure_init` does to a runtime that is not initialised: it fails, or it leaves the link of
a fresh session. -/
inductive EnsureInitCase (client : Client D) (env : Env) : Option Output × Client D → Prop
  | failed {out : Output} {client' : Client D} (cause : ¬ env.Opens) (quiet : out.auth? = none)
      (initialized : client'.initialized = false)
      (needsReinit : client'.needsReinit = client.needsReinit) :
      EnsureInitCase client env (some out, client')
  | opened {client' : Client D} {handle : Handle} (opens : env.Opens)
      (linked : Linked client'
        ⟨client.needsReinit, (cmdInit H (.ok handle) (taOpenSessionEntryPoint H)).2⟩) :
      EnsureInitCase client env (none, client')

theorem ensureInit_case (client : Client D) (env : Env) (h : client.initialized = false) :
    EnsureInitCase H client env (ensureInit H env client) := by
  rw [ensureInit, if_neg (by simp [h])]
  cases hcontext : env.context with
  | false => exact .failed (fun ho => by simpa [hcontext] using ho.context) rfl h rfl
  | true =>
      cases hsession : env.session with
      | false => exact .failed (fun ho => by simpa [hsession] using ho.session) rfl h rfl
      | true =>
          have hinv := @invoked_of_sess D H
            { client with
              sess := some (taOpenSessionEntryPoint H)
              executed := []
              teecLog := .openSession true :: .initializeContext true :: client.teecLog }
            _ env.init ⟨env.initAlloc, commandInit, emptyOperation⟩ rfl
          rw [dispatch_init] at hinv
          simp only [Bool.not_true, Bool.false_eq_true, if_false]
          generalize teecInvokeCommand H env.init _ _ = out at hinv ⊢
          rcases out with ⟨⟨res, params⟩, client₁⟩
          obtain rfl : res = env.init.answer (cmdInit H env.initAlloc _).1 := hinv.result
          have hinit := hinv.initialized.trans h
          have hneeds := hinv.needsReinit
          have hsess := hinv.sess
          cases htr : env.init with
          | lost => exact .failed (fun ho => by simpa [htr] using ho.init) rfl hinit hneeds
          | replyLost => exact .failed (fun ho => by simpa [htr] using ho.init) rfl hinit hneeds
          | delivered =>
              simp only [htr, arrives_delivered, if_true] at hsess
              cases halloc : env.initAlloc with
              | fail err clears =>
                  -- The reply arrives and reports the failed allocation.
                  have herr : some (cmdInit H (.fail err clears) (taOpenSessionEntryPoint H)).1 ≠
                      some .success := by
                    rw [cmdInit_fail]
                    cases err <;> simp [AllocError.toResult]
                  simp only [answer_delivered, herr, ne_eq, not_false_eq_true, if_true]
                  exact .failed (fun ho => by simpa [halloc] using ho.initAlloc) rfl hinit hneeds
              | ok handle =>
                  have hok : (cmdInit H (.ok handle) (taOpenSessionEntryPoint H)).1 =
                      .success := by rw [cmdInit_ok]
                  simp only [answer_delivered, hok, ne_eq, not_true_eq_false, if_false]
                  rw [halloc] at hsess
                  exact .opened ⟨hcontext, hsession, htr, handle, halloc⟩
                    ⟨rfl, hneeds, hsess, (measuring_init_ok handle _).ready⟩

theorem hook_of_ensureInit {client' : Client D} (e : Event)
    (h : ensureInit H env client = (none, client')) (hinit : client'.initialized = true) :
    hook H e env client = hook H e env client' := by
  simp only [hook_eq, invokeHook, h, ensureInit_initialized env hinit]

/-- A call of a runtime that is not initialised leaves it so and prints nothing of interest, or it
acts on a fresh session. -/
theorem step_uninitialized {call : Call} (hcall : call.isMeasurement = true)
    (h : client.initialized = false) :
    ((runtime H client call).1.auth? = none ∧ (runtime H client call).2.initialized = false ∧
        (runtime H client call).2.needsReinit = client.needsReinit ∧
        (call.action ≠ .finalizeAndPrint → ¬ call.env.Opens)) ∨
      ∃ (client' : Client D) (handle : Handle),
        runtime H client call = runtime H client' call ∧
          Linked client'
            ⟨client.needsReinit, (cmdInit H (.ok handle) (taOpenSessionEntryPoint H)).2⟩ := by
  rcases call with ⟨action, env⟩
  cases action with
  | cleanup => cases hcall
  | finalizeAndPrint =>
      left
      simp [runtime, cflatFinalizeAndPrint, h, Output.auth?]
  | hook e =>
      have hcase := ensureInit_case (H := H) client env h
      generalize hout : ensureInit H env client = out at hcase
      cases hcase with
      | failed cause quiet initialized needsReinit =>
          left
          simp only [runtime, hook_eq, invokeHook, hout]
          exact ⟨quiet, initialized, needsReinit, fun _ => cause⟩
      | @opened client' handle opens linked =>
          right
          exact ⟨client', handle, hook_of_ensureInit e hout linked.initialized, linked⟩

/-- Whether or not the session is open yet. -/
def Started (client : Client D) : Prop :=
  (client.initialized = false ∧ client.needsReinit = false) ∨ ∃ link, Linked client link

variable (H) in
/-- All that a call can do: it finds no session and opens none, or it acts on an open one. -/
inductive StepCase (client : Client D) (call : Call) : Prop
  | dormant (closed : client.initialized = false)
      (quiet : (runtime H client call).1.auth? = none)
      (initialized : (runtime H client call).2.initialized = false)
      (needsReinit : (runtime H client call).2.needsReinit = false)
      (cause : call.action ≠ .finalizeAndPrint → ¬ call.env.Opens)
  | acts {client' : Client D} {link : Link D} (linked : Linked client' link)
      (same : runtime H client call = runtime H client' call)

theorem Started.step_case {call : Call} (hcall : call.isMeasurement = true) (h : Started client) :
    StepCase H client call := by
  rcases h with ⟨hinit, hneeds⟩ | ⟨link, hlinked⟩
  · rcases step_uninitialized (H := H) hcall hinit with hdormant | ⟨client', handle, same, hlinked⟩
    · rcases hdormant with ⟨quiet, hinit', hneeds', cause⟩
      exact .dormant hinit quiet hinit' (hneeds'.trans hneeds) cause
    · exact .acts hlinked same
  · exact .acts hlinked rfl

theorem started_step {call : Call} (hcall : call.isMeasurement = true) (h : Started client) :
    Started (runtime H client call).2 := by
  cases h.step_case (H := H) hcall with
  | dormant _ _ initialized needsReinit => exact .inl ⟨initialized, needsReinit⟩
  | acts linked same =>
      rw [same]
      exact .inr ⟨_, (linked_step hcall linked).2⟩

theorem started_run {calls : List Call} (hcalls : ∀ call ∈ calls, call.isMeasurement = true) :
    Started ((runtime H).run Client.start calls) :=
  (runtime H).run_invariant (I := Started) (fun _ _ hcall h => started_step hcall h)
    (.inl ⟨rfl, rfl⟩) calls hcalls

end Runtime
end CFlat
