import CFlat.SecureWorld.Steps

/-!
# Refusals — the events that the trusted application does not take

`handle_case` lists why an event is refused; a refused event leaves the context as it was.  So a
session is the same after all the commands it was sent as after those that took effect
(`run_accepted`).
-/

namespace CFlat
namespace SecureWorld

open Lib

variable {D : Type} {H : Sha256 D}

/-- Why an event is refused, and with which result. -/
inductive Refused (ctx : SessionCtx D) : Event → TeeResult → Prop
  | notInitialized (nodeId : UInt64) (h : ctx.isInitialized = false) :
      Refused ctx (.recordNode nodeId) .badState
  | enter (loopId : UInt64) (h : EnterRefused ctx loopId) :
      Refused ctx (.loopEnter loopId) .overflow
  | noLoopOpen (loopId : UInt64) (h : ctx.loopDepth ≤ 0) :
      Refused ctx (.loopExit loopId) .badState
  | loopNotOpen (loopId : UInt64) (h : ∀ rec ∈ ctx.live, isActiveOf loopId rec = false) :
      Refused ctx (.loopExit loopId) .itemNotFound
  | callStackFull (callId caller : UInt64) (h : ctx.callDepth ≥ maxCallDepth) :
      Refused ctx (.callEnter callId caller) .overflow

/-- An event succeeds, or it is refused for one of these reasons and changes nothing. -/
theorem handle_case {ctx : SessionCtx D} (hwf : WellFormed ctx) (e : Event) :
    (handle H ctx e).1 = .success ∨
      Refused ctx e (handle H ctx e).1 ∧ (handle H ctx e).2 = ctx := by
  cases e with
  | recordNode nodeId =>
      cases hinit : ctx.isInitialized with
      | true => simp [handle, cmdRecordNode, updateHash, hinit]
      | false =>
          right
          simp only [handle, cmdRecordNode, updateHash, hinit, Bool.not_false, if_true, and_true]
          exact .notInitialized nodeId hinit
  | loopEnter loopId =>
      have hcase := cmdLoopEnter_case (H := H) hwf loopId
      simp only [handle]
      generalize cmdLoopEnter H ctx loopId = out at hcase ⊢
      cases hcase with
      | refused h => exact .inr ⟨.enter loopId h, rfl⟩
      | reopens => exact .inl rfl
      | allocates => exact .inl rfl
  | loopExit loopId =>
      have hcase := cmdLoopExit_case ctx loopId
      simp only [handle]
      generalize cmdLoopExit ctx loopId = out at hcase ⊢
      cases hcase with
      | underflow h => exact .inr ⟨.noLoopOpen loopId h, rfl⟩
      | notFound _ h => exact .inr ⟨.loopNotOpen loopId h, rfl⟩
      | closes => exact .inl rfl
  | loopIteration loopId =>
      have hcase := cmdLoopIteration_case ctx loopId
      simp only [handle]
      generalize cmdLoopIteration ctx loopId = out at hcase ⊢
      cases hcase with
      | ignored => exact .inl rfl
      | counts => exact .inl rfl
  | callEnter callId caller =>
      by_cases hfull : ctx.callDepth ≥ maxCallDepth
      · right
        simp only [handle, cmdCallEnter, hfull, if_true, and_true]
        exact .callStackFull callId caller hfull
      · left
        simp only [handle, cmdCallEnter, hfull, if_false]
  | callReturn callId => exact .inl (result_callReturn ctx callId)

def Cmd.isInit : Cmd → Bool
  | .init _ => true
  | _ => false

/-- A command other than CMD_INIT that does not succeed changes nothing. -/
theorem exec_refused {ctx : SessionCtx D} (hwf : WellFormed ctx) {cmd : Cmd}
    (hcmd : cmd.isInit = false) (hres : (exec H ctx cmd).1.result ≠ .success) :
    (exec H ctx cmd).2 = ctx := by
  cases cmd with
  | init alloc => cases hcmd
  | event e =>
      rcases handle_case (H := H) hwf e with hsuccess | ⟨_, hsame⟩
      · exact absurd hsuccess hres
      · exact hsame
  | finalize => exact absurd rfl hres
  | getAuth out => rfl
  | getLog out => rfl

/-! ## What a session has accepted -/

/-- The commands of a session that took effect: those that succeeded, and every CMD_INIT. -/
def accepted (log : List (Cmd × TeeResult)) : List Cmd :=
  (log.filter fun entry => entry.2 == .success || entry.1.isInit).map Prod.fst

/-- The log lists commands with the results that they get, from this context on. -/
def Logs (H : Sha256 D) (ctx : SessionCtx D) (log : List (Cmd × TeeResult)) : Prop :=
  ((exec H).replies ctx (log.map Prod.fst)).map Reply.result = log.map Prod.snd

theorem logs_cons {ctx : SessionCtx D} {cmd : Cmd} {res : TeeResult}
    {log : List (Cmd × TeeResult)} :
    Logs H ctx ((cmd, res) :: log) ↔
      (exec H ctx cmd).1.result = res ∧ Logs H (exec H ctx cmd).2 log := by
  simp [Logs]

/-- The commands that did not take effect need not have been sent. -/
theorem run_accepted {log : List (Cmd × TeeResult)} {ctx : SessionCtx D} (hwf : WellFormed ctx)
    (hlog : Logs H ctx log) :
    (exec H).run ctx (accepted log) = (exec H).run ctx (log.map Prod.fst) := by
  induction log generalizing ctx with
  | nil => rfl
  | cons entry log ih =>
      rcases entry with ⟨cmd, res⟩
      rcases logs_cons.1 hlog with ⟨hres, hrest⟩
      have hrun := ih (wellFormed_exec hwf cmd) hrest
      by_cases heffect : (res == .success || cmd.isInit) = true
      -- A command that took effect is executed in both runs.
      · simp only [accepted, List.filter_cons, heffect, if_true, List.map_cons, Machine.run_cons]
        exact hrun
      · obtain ⟨hfailed, hinit⟩ : res ≠ .success ∧ cmd.isInit = false := by simpa using heffect
        -- A command that did not leaves the context as it was.
        have hsame : (exec H ctx cmd).2 = ctx := exec_refused hwf hinit (hres ▸ hfailed)
        rw [hsame] at hrun
        simp only [accepted, List.filter_cons, heffect, List.map_cons, Machine.run_cons, hsame]
        exact hrun

end SecureWorld
end CFlat
