import CFlat.Host.Client
import CFlat.Runtime.Lifecycle

/-!
# Lifecycle — contexts and sessions of the host library

`cflat_host.c` closes its context and session in `cflat_cleanup` and notices it, but `cflat_init`
does not look whether they are open.  `discipline_kept_iff` says of both libraries for which runs
they keep the discipline of `CFlat.Runtime.Resources`.
-/

namespace CFlat
namespace Host

open Lib SecureWorld CFlat.Runtime

variable {D : Type} {H : Sha256 D} {client : Client D}

/-! ## The calls of the host functions -/

/-- The call returns: a failing `cflat_init` ends the process. -/
def Call.returns (call : Call) : Bool :=
  call.action != .init ||
    (call.env.context && call.env.session && call.env.command == .delivered &&
      call.env.alloc.succeeds)

theorem init_log {env : Env} (h : Call.returns ⟨.init, env⟩ = true) :
    (cflatInit H env client).2.teecLog = openLog client.teecLog ∧
      (cflatInit H env client).2.initialized = true := by
  rcases env with ⟨context, session, alloc, command⟩
  simp only [Call.returns, bne_self_eq_false, Bool.false_or, Bool.and_eq_true, beq_iff_eq] at h
  rcases h with ⟨⟨⟨rfl, rfl⟩, rfl⟩, halloc⟩
  cases alloc with
  | ok handle =>
      simp [cflatInit, teecInvokeCommand, dispatch_init, cmdInit_ok, openLog, issue]
  | fail err clears => cases halloc

/-- A client that is not initialised issues no command. -/
theorem host_uninitialized (h : client.initialized = false) {call : Call}
    (hinit : call.action ≠ .init) : (host H client call).2 = client := by
  rcases call with ⟨action, env⟩
  cases action with
  | init => exact absurd rfl hinit
  | cleanup => simp [host, cflatCleanup, h]
  | recordNode nodeId => simp [host, cflatRecordNode, invokeSimple, h]
  | loopEnter loopId => simp [host, cflatLoopEnter, invokeSimple, h]
  | loopExit loopId => simp [host, cflatLoopExit, invokeSimple, h]
  | callEnter callId caller => simp [host, cflatCallEnter, invokeSimple, h]
  | callReturn callId => simp [host, cflatCallReturn, invokeSimple, h]
  | finalize => simp [host, cflatFinalize, invokeSimple, h]
  | getAuth out => simp [host, cflatGetAuth, h]
  | getLog out => simp [host, cflatGetLog, h]

/-- The measurement calls of an initialised client issue one command. -/
theorem host_invokes (h : client.initialized = true) {call : Call} (hinit : call.action ≠ .init)
    (hcleanup : call.action ≠ .cleanup) :
    ∃ taCall, (host H client call).2 =
      (teecInvokeCommand H call.env.command taCall client).2 := by
  rcases call with ⟨action, env⟩
  cases action with
  | init => exact absurd rfl hinit
  | cleanup => exact absurd rfl hcleanup
  | recordNode nodeId => exact ⟨_, snd_invokeSimple _ _ env h⟩
  | loopEnter loopId => exact ⟨_, snd_invokeSimple _ _ env h⟩
  | loopExit loopId => exact ⟨_, snd_invokeSimple _ _ env h⟩
  | callEnter callId caller => exact ⟨_, snd_invokeSimple _ _ env h⟩
  | callReturn callId => exact ⟨_, snd_invokeSimple _ _ env h⟩
  | finalize => exact ⟨_, snd_invokeSimple _ _ env h⟩
  | getAuth out => exact ⟨_, snd_cflatGetAuth out env h⟩
  | getLog out => exact ⟨_, snd_cflatGetLog out env h⟩

/-! ## One call -/

/-- Whether a client is between a `cflat_init` and the next `cflat_cleanup`. -/
def nextOpen (isOpen : Bool) (call : Call) : Bool :=
  match call.action with
  | .init => true
  | .cleanup => false
  | _ => isOpen

/-- The calls that keep the discipline: no `cflat_init` between a `cflat_init` and the next
`cflat_cleanup`. -/
def InitOnce (s : Client D × Bool) (call : Call) : Prop := call.action = .init → s.2 = false

variable (H) in
/-- A call leaves the discipline of contexts and sessions kept, and a cleanup leaves none open. -/
structure Clean (s : Client D × Bool) (call : Call) : Prop where
  disciplined : Disciplined (host H s.1 call).2.teecLog
  closed : call.action = .cleanup → (resources (host H s.1 call).2.teecLog).contexts = 0 ∧
    (resources (host H s.1 call).2.teecLog).sessions = 0

/-- What is known of a client, as long as the calls keep the discipline. -/
structure OpenInv (s : Client D × Bool) : Prop where
  disciplined : Disciplined s.1.teecLog
  initialized : s.1.initialized = s.2
  held : resources s.1.teecLog = if s.2 then .opened else .closed

/-- A `cflat_init` opens a context and a session, over the old ones if there are any. -/
theorem OpenInv.init {s : Client D × Bool} (h : OpenInv s) {env : Env}
    (hreturns : Call.returns ⟨.init, env⟩ = true) :
    (Clean H s ⟨.init, env⟩ ↔ InitOnce s ⟨.init, env⟩) ∧
      (InitOnce s ⟨.init, env⟩ → OpenInv ((host H).monitored nextOpen s ⟨.init, env⟩).2) := by
  rcases s with ⟨client, isOpen⟩
  have hlog : (host H client ⟨.init, env⟩).2.teecLog = openLog client.teecLog :=
    (init_log hreturns).1
  have hinit' : (host H client ⟨.init, env⟩).2.initialized = true := (init_log hreturns).2
  have hresources := h.held
  cases isOpen with
  | true =>
      have hnot : ¬ InitOnce (client, true) ⟨.init, env⟩ := fun honce => nomatch honce rfl
      refine ⟨iff_of_false (fun hclean => ?_) hnot, fun honce => absurd honce hnot⟩
      have hdisciplined := hclean.disciplined
      rw [hlog] at hdisciplined
      exact not_disciplined_openLog (congrArg Resources.ctx hresources) hdisciplined
  | false =>
      rcases disciplined_openLog h.disciplined hresources with ⟨hdisciplined, hopened⟩
      rw [← hlog] at hdisciplined hopened
      exact ⟨iff_of_true ⟨hdisciplined, by simp⟩ (fun _ => rfl),
        fun _ => ⟨hdisciplined, hinit', hopened⟩⟩

theorem OpenInv.cleanup (h : OpenInv (client, true)) (env : Env) :
    Clean H (client, true) ⟨.cleanup, env⟩ ∧
      OpenInv ((host H).monitored nextOpen (client, true) ⟨.cleanup, env⟩).2 := by
  have hinit : client.initialized = true := h.initialized
  have hlog : (cflatCleanup client).teecLog =
      .finalizeContext :: .closeSession :: client.teecLog := by simp [cflatCleanup, hinit]
  have hinit' : (cflatCleanup client).initialized = false := by simp [cflatCleanup, hinit]
  have hresources : resources client.teecLog = .opened := h.held
  have hclosed : resources (cflatCleanup client).teecLog = .closed := by
    rw [hlog, resources, resources, hresources]
    rfl
  have hkept : Disciplined (cflatCleanup client).teecLog := by
    rw [hlog]
    exact disciplined_close h.disciplined
  refine ⟨⟨hkept, fun _ => ?_⟩, hkept, hinit', hclosed⟩
  simp only [host, hclosed]
  exact ⟨rfl, rfl⟩

theorem OpenInv.measure (h : OpenInv (client, true)) {call : Call} (hinit : call.action ≠ .init)
    (hcleanup : call.action ≠ .cleanup) :
    Clean H (client, true) call ∧
      OpenInv ((host H).monitored nextOpen (client, true) call).2 := by
  rcases host_invokes (H := H) h.initialized hinit hcleanup with ⟨taCall, hnext⟩
  have hopened : resources client.teecLog = .opened := h.held
  have hlog : (host H client call).2.teecLog = issue [taCall.cmdId] client.teecLog := by
    rw [hnext]
    exact teecInvokeCommand_teecLog ..
  have hinit' : (host H client call).2.initialized = true := by
    rw [hnext, teecInvokeCommand_initialized]
    exact h.initialized
  have hkept : Disciplined (host H client call).2.teecLog := by
    rw [hlog]
    exact disciplined_issue h.disciplined hopened _
  have hstill : nextOpen true call = true := by
    unfold nextOpen
    split
    · rfl
    · exact absurd ‹_› hcleanup
    · rfl
  refine ⟨⟨hkept, fun heq => absurd heq hcleanup⟩, hkept, ?_, ?_⟩
  · simp only [Machine.monitored, hstill]
    exact hinit'
  · simp only [Machine.monitored, hstill, hlog, resources_issue]
    exact hopened

/-- Without an open session nothing is called. -/
theorem OpenInv.idle (h : OpenInv (client, false)) {call : Call} (hinit : call.action ≠ .init) :
    Clean H (client, false) call ∧
      OpenInv ((host H).monitored nextOpen (client, false) call).2 := by
  have hsame : (host H client call).2 = client := host_uninitialized h.initialized hinit
  have hclosed : resources client.teecLog = .closed := h.held
  have hstill : nextOpen false call = false := by
    unfold nextOpen
    split
    · exact absurd ‹_› hinit
    · rfl
    · rfl
  refine ⟨⟨?_, fun _ => ?_⟩, ?_⟩
  · rw [hsame]
    exact h.disciplined
  · rw [hsame, hclosed]
    exact ⟨rfl, rfl⟩
  · simp only [Machine.monitored, hsame, hstill]
    exact h

/-! ## Runs -/

theorem OpenInv.step {s : Client D × Bool} (h : OpenInv s) {call : Call}
    (hreturns : call.returns = true) :
    (Clean H s call ↔ InitOnce s call) ∧
      (InitOnce s call → OpenInv ((host H).monitored nextOpen s call).2) := by
  by_cases hinit : call.action = .init
  · rcases call with ⟨action, env⟩
    obtain rfl : action = .init := hinit
    exact h.init hreturns
  · have honce : InitOnce s call := fun heq => absurd heq hinit
    have hother : Clean H s call ∧ OpenInv ((host H).monitored nextOpen s call).2 := by
      rcases s with ⟨client, isOpen⟩
      cases isOpen with
      | false => exact h.idle hinit
      | true =>
          by_cases hcleanup : call.action = .cleanup
          · rcases call with ⟨action, env⟩
            obtain rfl : action = .cleanup := hcleanup
            exact h.cleanup env
          · exact h.measure hinit hcleanup
    exact ⟨iff_of_true hother.1 honce, fun _ => hother.2⟩

theorem openInv_start : OpenInv ((.start, false) : Client D × Bool) := ⟨trivial, rfl, rfl⟩

theorem clean_iff_initOnce {calls : List Call} (hcalls : ∀ call ∈ calls, call.returns = true) :
    ((host H).monitored nextOpen).StepsMeet (Clean H) (.start, false) calls ↔
      ((host H).monitored nextOpen).StepsMeet InitOnce (.start, false) calls :=
  Machine.stepsMeet_iff _ (J := OpenInv) (P := fun _ call => call.returns = true)
    (fun _ _ h hreturns honce => (h.step hreturns).2 honce)
    (fun _ _ h hreturns => (h.step hreturns).1)
    openInv_start calls (Machine.stepsMeet_of_inputs _ hcalls _)

/-- Both client libraries keep the discipline of contexts and sessions exactly in these runs:
`libcflat.c` when its calls keep to their phase, and `cflat_host.c`, as long as its initialisations
return, when each of them finds nothing open. -/
theorem discipline_kept_iff (H : Sha256 D) :
    (∀ calls : List Runtime.Call,
        ((runtime H).monitored Phase.next).StepsMeet (Runtime.Clean H) (.start, .unopened) calls ↔
          ((runtime H).monitored Phase.next).StepsMeet InPhase (.start, .unopened) calls) ∧
      ∀ calls : List Call, (∀ call ∈ calls, call.returns = true) →
        (((host H).monitored nextOpen).StepsMeet (Clean H) (.start, false) calls ↔
          ((host H).monitored nextOpen).StepsMeet InitOnce (.start, false) calls) :=
  ⟨clean_iff_inPhase, fun _ => clean_iff_initOnce⟩

/-- Everything that a host call asks of the TEE succeeds. -/
def Env.reliable : Env := ⟨true, true, .ok 1, .delivered⟩

/-- Two sessions of the host library, one after the other. -/
theorem discipline_kept_iff_twoSessions :
    ((host Sha256.free).monitored nextOpen).StepsMeet (Clean Sha256.free) (.start, false)
      [⟨.init, .reliable⟩, ⟨.finalize, .reliable⟩, ⟨.cleanup, .reliable⟩, ⟨.init, .reliable⟩] :=
  ((discipline_kept_iff Sha256.free).2 _ (by decide)).2
    ⟨fun _ => rfl, by simp [InitOnce], by simp [InitOnce], fun _ => rfl, trivial⟩

/-- A hook after one that got a context but no session, and a second `cflat_init`. -/
theorem discipline_broken_by_retry :
    (¬ ∀ calls : List Runtime.Call,
        ((runtime Sha256.free).monitored Phase.next).StepsMeet (Runtime.Clean Sha256.free)
          (.start, .unopened) calls) ∧
      ¬ ∀ calls : List Call, (∀ call ∈ calls, call.returns = true) →
        ((host Sha256.free).monitored nextOpen).StepsMeet (Clean Sha256.free) (.start, false)
          calls := by
  constructor
  · intro h
    rcases h [⟨.hook (.recordNode 5), { Runtime.Env.reliable with session := false }⟩,
      .reliable (.hook (.recordNode 6))] with ⟨_, hclean, _⟩
    exact absurd (contexts_le hclean.disciplined) (by decide +kernel)
  · intro h
    rcases h [⟨.init, .reliable⟩, ⟨.init, .reliable⟩] (by decide) with ⟨_, hclean, _⟩
    exact absurd (contexts_le hclean.disciplined) (by decide +kernel)

end Host
end CFlat
