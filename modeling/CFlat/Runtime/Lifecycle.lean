import CFlat.Runtime.Link
import CFlat.Runtime.Resources

/-!
# Lifecycle — contexts and sessions of the runtime library

`libcflat.c` opens its context and session at the first hook and closes them in its destructor.
`clean_iff_inPhase` says for which runs it keeps the discipline of `CFlat.Runtime.Resources`: it
neither closes what a failed initialisation has opened nor notices its own cleanup.
-/

namespace CFlat
namespace Runtime

open Lib SecureWorld

/-! ## The calls of the runtime functions -/

variable {D : Type} {H : Sha256 D} {client : Client D}

/-- The TEE gives a context and a session, and the first CMD_INIT succeeds. -/
def Env.opens (env : Env) : Bool :=
  env.context && env.session && env.init == .delivered && env.initAlloc.succeeds

theorem opens_iff (env : Env) : env.opens = true ↔ env.Opens := by
  simp only [Env.opens, Bool.and_eq_true, beq_iff_eq]
  constructor
  · rintro ⟨⟨⟨hcontext, hsession⟩, hinit⟩, halloc⟩
    refine ⟨hcontext, hsession, hinit, ?_⟩
    cases hout : env.initAlloc with
    | ok handle => exact ⟨handle, rfl⟩
    | fail err clears =>
        rw [hout] at halloc
        cases halloc
  · rintro ⟨hcontext, hsession, hinit, handle, halloc⟩
    exact ⟨⟨⟨hcontext, hsession⟩, hinit⟩, by rw [halloc]; rfl⟩

/-- The calls of an `ensure_init` that finds the runtime not initialised. -/
def initLog (env : Env) (log : List TeecCall) : List TeecCall :=
  if !env.context then .initializeContext false :: log
  else if !env.session then .openSession false :: .initializeContext true :: log
  else openLog log

theorem teecInvokeCommand_log (tr : Transport) (call : TaCall) (client : Client D) :
    (teecInvokeCommand H tr call client).2.teecLog = issue [call.cmdId] client.teecLog ∧
      (teecInvokeCommand H tr call client).2.initialized = client.initialized := by
  unfold teecInvokeCommand
  cases client.sess with
  | none => exact ⟨rfl, rfl⟩
  | some ctx => cases tr <;> exact ⟨rfl, rfl⟩

theorem maybeReinit_log (env : Env) (client : Client D) :
    ∃ cmdIds, (maybeReinit H env client).teecLog = issue cmdIds client.teecLog ∧
      (maybeReinit H env client).initialized = client.initialized := by
  cases hpending : client.needsReinit with
  | false => exact ⟨[], by simp [maybeReinit, hpending, issue]⟩
  | true =>
      rcases teecInvokeCommand_log (H := H) env.reinit
        ⟨env.reinitAlloc, commandInit, emptyOperation⟩ client with ⟨hlog, hinit⟩
      exact ⟨[commandInit], by simpa [maybeReinit, hpending] using hlog,
        by simpa [maybeReinit, hpending] using hinit⟩

/-- What `ensure_init` calls and whether it succeeds. -/
theorem ensureInit_log (env : Env) (h : client.initialized = false) :
    (ensureInit H env client).2.teecLog = initLog env client.teecLog ∧
      (ensureInit H env client).2.initialized = env.opens ∧
      ((ensureInit H env client).1 = none ↔ env.opens = true) := by
  rw [ensureInit, if_neg (by simp [h])]
  cases hcontext : env.context with
  | false => simp [initLog, Env.opens, hcontext, h]
  | true =>
      cases hsession : env.session with
      | false => simp [initLog, Env.opens, hcontext, hsession, h]
      | true =>
          cases htr : env.init with
          | lost =>
              simp [initLog, openLog, Env.opens, hcontext, hsession, htr, h, teecInvokeCommand,
                issue]
          | replyLost =>
              simp [initLog, openLog, Env.opens, hcontext, hsession, htr, h, teecInvokeCommand,
                issue]
          | delivered =>
              cases halloc : env.initAlloc with
              | ok handle =>
                  simp [initLog, openLog, Env.opens, hcontext, hsession, htr, halloc,
                    teecInvokeCommand, issue, dispatch_init, cmdInit_ok, AllocOutcome.succeeds]
              | fail err clears =>
                  have herr : err.toResult ≠ .success := by
                    cases err <;> simp [AllocError.toResult]
                  simp [initLog, openLog, Env.opens, hcontext, hsession, htr, halloc, h,
                    teecInvokeCommand, issue, dispatch_init, cmdInit_fail, AllocOutcome.succeeds,
                    herr]

/-- The commands of a hook in an initialised runtime. -/
theorem hook_log (e : Event) (env : Env) (h : client.initialized = true) :
    ∃ cmdIds, cmdIds ≠ [] ∧ (hook H e env client).2.teecLog = issue cmdIds client.teecLog ∧
      (hook H e env client).2.initialized = true := by
  rw [hook_eq]
  simp only [invokeHook, ensureInit_initialized env h]
  have hprepared : ∃ cmdIds,
      (if e.isForward then maybeReinit H env client else client).teecLog =
          issue cmdIds client.teecLog ∧
        (if e.isForward then maybeReinit H env client else client).initialized = true := by
    split
    · rcases maybeReinit_log (H := H) env client with ⟨cmdIds, hlog, hinit⟩
      exact ⟨cmdIds, hlog, hinit.trans h⟩
    · exact ⟨[], rfl, h⟩
  rcases hprepared with ⟨cmdIds, hlog, hinit⟩
  rcases teecInvokeCommand_log (H := H) env.command
    ⟨env.reinitAlloc, eventCommand e, eventOperation e⟩
    (if e.isForward then maybeReinit H env client else client) with ⟨hlog', hinit'⟩
  refine ⟨eventCommand e :: cmdIds, by simp, ?_, hinit'.trans hinit⟩
  rw [hlog', hlog]
  rfl

/-- A hook in a runtime that is not initialised. -/
theorem hook_log_uninitialized (e : Event) (env : Env) (h : client.initialized = false) :
    ∃ cmdIds, (env.opens = false → cmdIds = []) ∧
      (hook H e env client).2.teecLog = issue cmdIds (initLog env client.teecLog) ∧
      (hook H e env client).2.initialized = env.opens := by
  rcases ensureInit_log (H := H) env h with ⟨hlog, hinit, hnone⟩
  cases hopens : env.opens with
  | false =>
      refine ⟨[], fun _ => rfl, ?_⟩
      rw [hopens] at hinit hnone
      rw [hook_eq, invokeHook]
      generalize ensureInit H env client = out at hlog hinit hnone
      rcases out with ⟨res, client'⟩
      cases res with
      | none => simp at hnone
      | some out => exact ⟨hlog, hinit⟩
  | true =>
      rw [hopens] at hinit hnone
      have hout : ensureInit H env client = (none, (ensureInit H env client).2) :=
        Prod.ext (hnone.2 rfl) rfl
      rcases hook_log (H := H) e env hinit with ⟨cmdIds, _, hlog', hinit'⟩
      refine ⟨cmdIds, fun hfalse => absurd hfalse (by simp), ?_, ?_⟩
      · rw [hook_of_ensureInit e hout hinit, hlog', hlog]
      · rw [hook_of_ensureInit e hout hinit, hinit']

/-- The commands of a finalisation in an initialised runtime. -/
theorem finalize_log (env : Env) (h : client.initialized = true) :
    ∃ cmdIds, cmdIds ≠ [] ∧
      (cflatFinalizeAndPrint H env client).2.teecLog = issue cmdIds client.teecLog ∧
      (cflatFinalizeAndPrint H env client).2.initialized = true := by
  rcases teecInvokeCommand_log (H := H) env.command
    ⟨env.reinitAlloc, commandFinalize, emptyOperation⟩ client with ⟨hlog, hinit⟩
  simp only [cflatFinalizeAndPrint, h, Bool.not_true, Bool.false_eq_true, if_false]
  generalize teecInvokeCommand H env.command _ client = fin at hlog hinit ⊢
  rcases fin with ⟨⟨res, params⟩, client₁⟩
  by_cases hres : res ≠ some .success
  · rw [if_pos hres]
    exact ⟨[commandFinalize], by simp, hlog, hinit.trans h⟩
  · rw [if_neg hres]
    rcases teecInvokeCommand_log (H := H) env.getAuth
      ⟨env.reinitAlloc, commandGetAuth, memrefOperation authBuffer⟩ client₁ with ⟨hlog', hinit'⟩
    generalize teecInvokeCommand H env.getAuth _ client₁ = got at hlog' hinit' ⊢
    rcases got with ⟨⟨res', params'⟩, client₂⟩
    have hboth : client₂.teecLog = issue [commandGetAuth, commandFinalize] client.teecLog := by
      rw [hlog', hlog]
      rfl
    refine ⟨[commandGetAuth, commandFinalize], by simp, ?_⟩
    split
    · exact ⟨hboth, hinit'.trans (hinit.trans h)⟩
    · exact ⟨hboth, hinit'.trans (hinit.trans h)⟩

/-! ## Phases -/

/-- Where a runtime stands: nothing opened yet, a context left open by a failed initialisation,
initialised, or cleaned up. -/
inductive Phase
  | unopened
  | leaked
  | opened
  | cleaned
  deriving DecidableEq, Repr

namespace Phase

/-- The initialised flag of a runtime in this phase: a cleanup does not reset it. -/
def isInitialized : Phase → Bool
  | unopened => false
  | leaked => false
  | opened => true
  | cleaned => true

/-- The phase after a call, as a matter of what the TEE did during it. -/
def next : Phase → Call → Phase
  | unopened, ⟨.hook _, env⟩ =>
      if !env.context then unopened else if env.opens then opened else leaked
  | opened, ⟨.cleanup, _⟩ => cleaned
  | phase, _ => phase

end Phase

/-- The calls that keep the discipline: behind a failed initialisation there is no cleanup and no
hook that gets another context, and behind the cleanup of an initialised runtime only another
cleanup. -/
structure InPhase (s : Client D × Phase) (call : Call) : Prop where
  leaked : s.2 = .leaked → call.action ≠ .cleanup ∧
    ∀ e, call.action = .hook e → call.env.context = false
  cleaned : s.2 = .cleaned → call.action = .cleanup

variable (H) in
/-- A call leaves the discipline of contexts and sessions kept, and a cleanup leaves none open. -/
structure Clean (s : Client D × Phase) (call : Call) : Prop where
  disciplined : Disciplined (runtime H s.1 call).2.teecLog
  closed : call.action = .cleanup → (resources (runtime H s.1 call).2.teecLog).contexts = 0 ∧
    (resources (runtime H s.1 call).2.teecLog).sessions = 0

/-- What is open in a phase. -/
def Phase.Holds (r : Resources) : Phase → Prop
  | .unopened => r = .closed
  | .leaked => r.ctx = true ∧ r.contexts = 1
  | .opened => r = .opened
  | .cleaned => r = .closed

/-- What the phase says of the runtime, as long as the calls keep the discipline. -/
structure PhaseInv (s : Client D × Phase) : Prop where
  disciplined : Disciplined s.1.teecLog
  initialized : s.1.initialized = s.2.isInitialized
  held : s.2.Holds (resources s.1.teecLog)

theorem phaseInv_start : PhaseInv ((.start, .unopened) : Client D × Phase) := ⟨trivial, rfl, rfl⟩

/-! ## One call -/

/-- An initialisation that finds nothing open. -/
theorem initLog_unopened {log : List TeecCall} (h : Disciplined log)
    (hclosed : resources log = .closed) (env : Env) :
    Disciplined (initLog env log) ∧
      ((if !env.context then .unopened else if env.opens then .opened else .leaked : Phase).Holds
        (resources (initLog env log))) := by
  rcases disciplined_initializeContext h hclosed with ⟨hopening, hcontext⟩
  rcases disciplined_openLog h hclosed with ⟨hdisciplined, hopened⟩
  cases hctx : env.context with
  | false =>
      simp only [initLog, hctx]
      exact ⟨disciplined_quiet h (by simp) (by simp) (by simp), hclosed⟩
  | true =>
      cases hsession : env.session with
      | false =>
          have hopens : env.opens = false := by simp [Env.opens, hsession]
          have hsame : resources (.openSession false :: .initializeContext true :: log) =
              ⟨1, 0, true, false⟩ := hcontext
          simp only [initLog, hctx, hsession, hopens]
          refine ⟨disciplined_quiet hopening (by simp) (by simp) (by simp), ?_⟩
          exact ⟨congrArg Resources.ctx hsame, congrArg Resources.contexts hsame⟩
      | true =>
          simp only [initLog, hctx, hsession]
          refine ⟨hdisciplined, ?_⟩
          -- With or without success the context and the session are open.
          cases env.opens with
          | true => exact hopened
          | false => exact ⟨congrArg Resources.ctx hopened, congrArg Resources.contexts hopened⟩

theorem not_disciplined_initLog {log : List TeecCall} (hctx : (resources log).ctx = true)
    {env : Env} (hcontext : env.context = true) : ¬ Disciplined (initLog env log) := by
  intro h
  simp only [initLog, hcontext, Bool.not_true, Bool.false_eq_true, if_false] at h
  split at h
  · exact not_allowed_over hctx h.2.1
  · exact not_disciplined_openLog hctx h

/-- A call that leaves a runtime that is not initialised as it is. -/
theorem PhaseInv.same {phase : Phase} (h : PhaseInv (client, phase)) {call : Call}
    (hsame : (runtime H client call).2 = client) (hphase : phase.next call = phase) :
    Disciplined (runtime H client call).2.teecLog ∧
      PhaseInv ((runtime H).monitored Phase.next (client, phase) call).2 := by
  simp only [Machine.monitored, hsame, hphase]
  exact ⟨h.disciplined, h⟩

/-- A call of an initialised runtime that is not its cleanup: it issues commands. -/
theorem initialized_log (h : client.initialized = true) {call : Call}
    (haction : call.action ≠ .cleanup) :
    ∃ cmdIds, cmdIds ≠ [] ∧ (runtime H client call).2.teecLog = issue cmdIds client.teecLog ∧
      (runtime H client call).2.initialized = true := by
  rcases call with ⟨action, env⟩
  cases action with
  | hook e => exact hook_log e env h
  | finalizeAndPrint => exact finalize_log env h
  | cleanup => exact absurd rfl haction

theorem cleanup_log (h : client.initialized = true) :
    (cflatCleanup client).teecLog = .finalizeContext :: .closeSession :: client.teecLog ∧
      (cflatCleanup client).initialized = true := by
  simp [cflatCleanup, h]

theorem step_unopened (h : PhaseInv (client, .unopened)) (call : Call) :
    Clean H (client, .unopened) call ∧
      PhaseInv ((runtime H).monitored Phase.next (client, .unopened) call).2 := by
  have hinit : client.initialized = false := h.initialized
  have hclosed : resources client.teecLog = .closed := h.held
  rcases call with ⟨action, env⟩
  cases action with
  | hook e =>
      rcases hook_log_uninitialized (H := H) e env hinit with ⟨cmdIds, hnone, hlog, hinit'⟩
      rcases initLog_unopened h.disciplined hclosed env with ⟨hdisciplined, hholds⟩
      have hissued : Disciplined (hook H e env client).2.teecLog := by
        rw [hlog]
        cases hopens : env.opens with
        | false =>
            rw [hnone hopens]
            exact hdisciplined
        | true =>
            have hcontext : env.context = true := by
              simp only [Env.opens, Bool.and_eq_true] at hopens
              exact hopens.1.1.1
            rw [hcontext, hopens] at hholds
            exact disciplined_issue hdisciplined hholds cmdIds
      refine ⟨⟨hissued, by simp⟩, hissued, ?_, ?_⟩
      · simp only [Machine.monitored, runtime, Phase.next, hinit']
        cases hcontext : env.context with
        | false => simp [Env.opens, hcontext, Phase.isInitialized]
        | true => cases env.opens <;> rfl
      · simp only [Machine.monitored, runtime, Phase.next, hlog, resources_issue]
        exact hholds
  | finalizeAndPrint =>
      have hsame : (runtime H client ⟨.finalizeAndPrint, env⟩).2 = client :=
        runtime_uninitialized hinit (by simp)
      rcases h.same hsame rfl with ⟨hkept, hinv⟩
      exact ⟨⟨hkept, by simp⟩, hinv⟩
  | cleanup =>
      have hsame : (runtime H client ⟨.cleanup, env⟩).2 = client :=
        runtime_uninitialized hinit (by simp)
      rcases h.same hsame rfl with ⟨hkept, hinv⟩
      refine ⟨⟨hkept, fun _ => ?_⟩, hinv⟩
      rw [hsame, hclosed]
      exact ⟨rfl, rfl⟩

theorem step_leaked (h : PhaseInv (client, .leaked)) (call : Call) :
    (Clean H (client, .leaked) call ↔ InPhase (client, .leaked) call) ∧
      (InPhase (client, .leaked) call →
        PhaseInv ((runtime H).monitored Phase.next (client, .leaked) call).2) := by
  have hinit : client.initialized = false := h.initialized
  rcases (h.held : Phase.leaked.Holds _) with ⟨hctx, hcontexts⟩
  rcases call with ⟨action, env⟩
  cases action with
  | hook e =>
      rcases hook_log_uninitialized (H := H) e env hinit with ⟨cmdIds, hnone, hlog, hinit'⟩
      cases hcontext : env.context with
      | true =>
          have hnot : ¬ InPhase (client, .leaked) ⟨.hook e, env⟩ := by
            intro hphase
            rw [(hphase.leaked rfl).2 e rfl] at hcontext
            cases hcontext
          refine ⟨iff_of_false (fun hclean => ?_) hnot, fun hphase => absurd hphase hnot⟩
          have hdisciplined := hclean.disciplined
          simp only [runtime, hlog] at hdisciplined
          exact not_disciplined_initLog hctx hcontext (disciplined_of_issue hdisciplined)
      | false =>
          -- Only the call that fails is added to the log.
          have hopens : env.opens = false := by simp [Env.opens, hcontext]
          have hlog' : (hook H e env client).2.teecLog =
              .initializeContext false :: client.teecLog := by
            rw [hlog, hnone hopens, initLog, hcontext]
            rfl
          have hkept : Disciplined (hook H e env client).2.teecLog := by
            rw [hlog']
            exact disciplined_quiet h.disciplined (by simp) (by simp) (by simp)
          refine ⟨iff_of_true ⟨hkept, by simp⟩ ⟨fun _ => ⟨by simp, ?_⟩, by simp⟩,
            fun _ => ⟨hkept, hinit'.trans hopens, ?_⟩⟩
          · exact fun _ _ => hcontext
          · simp only [Machine.monitored, runtime, Phase.next, hlog']
            exact ⟨hctx, hcontexts⟩
  | finalizeAndPrint =>
      have hsame : (runtime H client ⟨.finalizeAndPrint, env⟩).2 = client :=
        runtime_uninitialized hinit (by simp)
      rcases h.same hsame rfl with ⟨hkept, hinv⟩
      exact ⟨iff_of_true ⟨hkept, by simp⟩ ⟨by simp, by simp⟩, fun _ => hinv⟩
  | cleanup =>
      have hsame : (runtime H client ⟨.cleanup, env⟩).2 = client :=
        runtime_uninitialized hinit (by simp)
      have hnot : ¬ InPhase (client, .leaked) ⟨.cleanup, env⟩ := fun hphase =>
        (hphase.leaked rfl).1 rfl
      refine ⟨iff_of_false (fun hclean => ?_) hnot, fun hphase => absurd hphase hnot⟩
      -- The context stays open.
      have hclosed := (hclean.closed rfl).1
      rw [hsame, hcontexts] at hclosed
      cases hclosed

theorem step_opened (h : PhaseInv (client, .opened)) (call : Call) :
    Clean H (client, .opened) call ∧
      PhaseInv ((runtime H).monitored Phase.next (client, .opened) call).2 := by
  have hinit : client.initialized = true := h.initialized
  have hopened : resources client.teecLog = .opened := h.held
  by_cases haction : call.action = .cleanup
  · rcases call with ⟨action, env⟩
    cases haction
    rcases cleanup_log hinit with ⟨hlog, hinit'⟩
    have hclosed : resources (cflatCleanup client).teecLog = .closed := by
      rw [hlog, resources, resources, hopened]
      rfl
    have hkept : Disciplined (cflatCleanup client).teecLog := by
      rw [hlog]
      exact disciplined_close h.disciplined
    refine ⟨⟨hkept, fun _ => ?_⟩, hkept, hinit', hclosed⟩
    simp only [runtime, hclosed]
    exact ⟨rfl, rfl⟩
  · rcases initialized_log (H := H) hinit haction with ⟨cmdIds, _, hlog, hinit'⟩
    have hissued : Disciplined (runtime H client call).2.teecLog := by
      rw [hlog]
      exact disciplined_issue h.disciplined hopened cmdIds
    have hphase : Phase.next .opened call = .opened := by
      rcases call with ⟨action, env⟩
      cases action with
      | cleanup => exact absurd rfl haction
      | _ => rfl
    refine ⟨⟨hissued, fun heq => absurd heq haction⟩, hissued, ?_, ?_⟩
    · simp only [Machine.monitored, hphase]
      exact hinit'
    · simp only [Machine.monitored, hphase, hlog, resources_issue]
      exact hopened

theorem step_cleaned (h : PhaseInv (client, .cleaned)) (call : Call) :
    (Clean H (client, .cleaned) call ↔ InPhase (client, .cleaned) call) ∧
      (InPhase (client, .cleaned) call →
        PhaseInv ((runtime H).monitored Phase.next (client, .cleaned) call).2) := by
  have hinit : client.initialized = true := h.initialized
  have hclosed : resources client.teecLog = .closed := h.held
  by_cases haction : call.action = .cleanup
  · rcases call with ⟨action, env⟩
    cases haction
    rcases cleanup_log hinit with ⟨hlog, hinit'⟩
    have hclosed' : resources (cflatCleanup client).teecLog = .closed := by
      rw [hlog, resources, resources, hclosed]
      rfl
    have hkept : Disciplined (cflatCleanup client).teecLog := by
      rw [hlog]
      exact disciplined_close h.disciplined
    refine ⟨iff_of_true ⟨hkept, fun _ => ?_⟩ ⟨by simp, fun _ => rfl⟩,
      fun _ => ⟨hkept, hinit', hclosed'⟩⟩
    simp only [runtime, hclosed']
    exact ⟨rfl, rfl⟩
  · -- The flag is still set, so a hook or a finalisation issues commands.
    have hnot : ¬ InPhase (client, .cleaned) call := fun hphase => haction (hphase.cleaned rfl)
    refine ⟨iff_of_false (fun hclean => ?_) hnot, fun hphase => absurd hphase hnot⟩
    rcases initialized_log (H := H) hinit haction with ⟨cmdIds, hne, hlog, _⟩
    have hdisciplined := hclean.disciplined
    simp only [hlog] at hdisciplined
    have hsess := sess_of_disciplined_issue hdisciplined hne
    rw [hclosed] at hsess
    cases hsess

/-! ## Runs -/

theorem PhaseInv.step {s : Client D × Phase} (h : PhaseInv s) (call : Call) :
    (Clean H s call ↔ InPhase s call) ∧
      (InPhase s call → PhaseInv ((runtime H).monitored Phase.next s call).2) := by
  rcases s with ⟨client, phase⟩
  cases phase with
  | unopened =>
      rcases step_unopened (H := H) h call with ⟨hclean, hnext⟩
      exact ⟨iff_of_true hclean ⟨by simp, by simp⟩, fun _ => hnext⟩
  | leaked => exact step_leaked h call
  | opened =>
      rcases step_opened (H := H) h call with ⟨hclean, hnext⟩
      exact ⟨iff_of_true hclean ⟨by simp, by simp⟩, fun _ => hnext⟩
  | cleaned => exact step_cleaned h call

/-- A run of the runtime keeps the discipline exactly when its calls keep to their phase. -/
theorem clean_iff_inPhase (calls : List Call) :
    ((runtime H).monitored Phase.next).StepsMeet (Clean H) (.start, .unopened) calls ↔
      ((runtime H).monitored Phase.next).StepsMeet InPhase (.start, .unopened) calls :=
  Machine.stepsMeet_iff _ (J := PhaseInv) (P := fun _ _ => True)
    (fun _ call h _ hphase => (h.step call).2 hphase) (fun _ call h _ => (h.step call).1)
    phaseInv_start calls (Machine.stepsMeet_of_forall _ (fun _ _ => trivial) _ _)

end Runtime
end CFlat
