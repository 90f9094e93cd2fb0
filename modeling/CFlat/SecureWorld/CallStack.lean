import CFlat.SecureWorld.Isolation

/-!
# CallStack — what the call commands can and cannot show

`cmd_call_return` moves the call depth and compares nothing; no other command reads the call stack.
`calls_unchecked` says what follows: returns always succeed, entries are refused by the depth alone,
and neither the other replies nor the report tell a run from the same run without its call events.
`callDepth_nest` says that balanced calls give the depth back.
-/

namespace CFlat
namespace SecureWorld

open Lib

variable {D : Type} {H : Sha256 D}

/-! ## Contexts that differ in their call stacks -/

/-- The context with another call stack. -/
def SessionCtx.withCalls (ctx : SessionCtx D) (stack : Vector CallRecord maxCallDepth)
    (depth : Int) : SessionCtx D :=
  { ctx with callStack := stack, callDepth := depth }

theorem updateHash_withCalls (ctx : SessionCtx D) (stack : Vector CallRecord maxCallDepth)
    (depth : Int) (nodeId : UInt64) :
    updateHash H (ctx.withCalls stack depth) nodeId =
      ((updateHash H ctx nodeId).1, (updateHash H ctx nodeId).2.withCalls stack depth) := by
  cases hinit : ctx.isInitialized <;> simp [updateHash, SessionCtx.withCalls, hinit]

theorem openRecord_withCalls (ctx : SessionCtx D) (stack : Vector CallRecord maxCallDepth)
    (depth : Int) (i : Nat) (loopId : UInt64) :
    openRecord H (ctx.withCalls stack depth) i loopId =
      (openRecord H ctx i loopId).withCalls stack depth := by
  cases hinit : ctx.isInitialized <;>
    simp [openRecord, updateHash, SessionCtx.withCalls, SessionCtx.modifyLoop, hinit]

/-- Only the call commands read or write the call stack. -/
theorem handle_withCalls (ctx : SessionCtx D) (stack : Vector CallRecord maxCallDepth) (depth : Int)
    {e : Event} (he : e.isCall = false) :
    handle H (ctx.withCalls stack depth) e =
      ((handle H ctx e).1, (handle H ctx e).2.withCalls stack depth) := by
  have hdepth : (ctx.withCalls stack depth).loopDepth = ctx.loopDepth := rfl
  have hcount : (ctx.withCalls stack depth).loopCount = ctx.loopCount := rfl
  have hlive : (ctx.withCalls stack depth).live = ctx.live := rfl
  cases e with
  | recordNode nodeId => exact updateHash_withCalls ctx stack depth nodeId
  | loopEnter loopId =>
      simp only [handle, cmdLoopEnter, hdepth, hcount, hlive]
      split
      · rfl
      split
      · rw [openRecord_withCalls]
      split
      · rfl
      · -- A new record: the slot is set before it is opened.
        exact congrArg (Prod.mk _) (openRecord_withCalls
          { ctx.modifyLoop ctx.loopCount.toNat (LoopRecord.recycled loopId ctx.loopDepth) with
            loopCount := ctx.loopCount + 1 } stack depth _ loopId)
  | loopExit loopId =>
      simp only [handle, cmdLoopExit, hdepth, hlive]
      split
      · rfl
      split
      · rfl
      split <;> rfl
  | loopIteration loopId =>
      simp only [handle, cmdLoopIteration, hlive]
      split <;> rfl
  | callEnter callId caller => cases he
  | callReturn callId => cases he

/-- The call commands change nothing else. -/
theorem handle_call (ctx : SessionCtx D) {e : Event} (he : e.isCall = true) :
    ∃ stack depth, (handle H ctx e).2 = ctx.withCalls stack depth := by
  cases e with
  | callEnter callId caller =>
      simp only [handle, cmdCallEnter]
      split
      · exact ⟨ctx.callStack, ctx.callDepth, rfl⟩
      · exact ⟨_, _, rfl⟩
  | callReturn callId =>
      simp only [handle, cmdCallReturn]
      split
      · exact ⟨ctx.callStack, _, rfl⟩
      · exact ⟨ctx.callStack, ctx.callDepth, rfl⟩
  | recordNode nodeId => cases he
  | loopEnter loopId => cases he
  | loopExit loopId => cases he
  | loopIteration loopId => cases he

/-! ## Runs without their call events -/

def Cmd.isCall : Cmd → Bool
  | .event e => e.isCall
  | _ => false

/-- The commands that are no call events. -/
def callFree (cmds : List Cmd) : List Cmd := cmds.filter fun cmd => !cmd.isCall

variable (H) in
/-- The replies to the commands that are no call events. -/
def otherReplies (ctx : SessionCtx D) (cmds : List Cmd) : List Reply :=
  ((cmds.zip ((exec H).replies ctx cmds)).filter fun entry => !entry.1.isCall).map Prod.snd

theorem exec_withCalls (ctx : SessionCtx D) (stack : Vector CallRecord maxCallDepth) (depth : Int)
    {cmd : Cmd} (hcmd : cmd.isCall = false) :
    (exec H (ctx.withCalls stack depth) cmd).1 = (exec H ctx cmd).1 ∧
      ∃ depth', (exec H (ctx.withCalls stack depth) cmd).2 =
        (exec H ctx cmd).2.withCalls stack depth' := by
  cases cmd with
  | init alloc =>
      -- A CMD_INIT resets the depth.
      simp only [exec]
      cases alloc with
      | ok handle =>
          rw [cmdInit_ok, cmdInit_ok]
          exact ⟨rfl, 0, rfl⟩
      | fail err clears =>
          rw [cmdInit_fail, cmdInit_fail]
          exact ⟨rfl, 0, rfl⟩
  | event e =>
      simp only [exec, handle_withCalls ctx stack depth hcmd]
      exact ⟨trivial, depth, rfl⟩
  | finalize => exact ⟨rfl, depth, rfl⟩
  | getAuth out => exact ⟨rfl, depth, rfl⟩
  | getLog out => exact ⟨rfl, depth, rfl⟩

/-- The run lemma: without its call events a run gives the same other replies and leaves the same
context, up to the call stack. -/
theorem run_callFree (cmds : List Cmd) :
    ∀ (ctx : SessionCtx D) (stack : Vector CallRecord maxCallDepth) (depth : Int),
      otherReplies H (ctx.withCalls stack depth) cmds = (exec H).replies ctx (callFree cmds) ∧
        ∃ stack' depth', (exec H).run (ctx.withCalls stack depth) cmds =
          ((exec H).run ctx (callFree cmds)).withCalls stack' depth' := by
  induction cmds with
  | nil => exact fun ctx stack depth => ⟨rfl, stack, depth, rfl⟩
  | cons cmd cmds ih =>
      intro ctx stack depth
      cases hcmd : cmd.isCall with
      | true =>
          -- The event is dropped on the other side, where nothing happens.
          have hstep : ∃ stack' depth', (exec H (ctx.withCalls stack depth) cmd).2 =
              ctx.withCalls stack' depth' := by
            cases cmd with
            | event e =>
                rcases handle_call (H := H) (ctx.withCalls stack depth) hcmd with ⟨s, d, hsame⟩
                exact ⟨s, d, hsame⟩
            | _ => cases hcmd
          rcases hstep with ⟨stack', depth', hstep⟩
          have hrest := ih ctx stack' depth'
          rw [← hstep] at hrest
          simpa [otherReplies, callFree, hcmd] using hrest
      | false =>
          rcases exec_withCalls (H := H) ctx stack depth hcmd with ⟨hreply, depth', hstep⟩
          rcases ih (exec H ctx cmd).2 stack depth' with ⟨hreplies, hrun⟩
          rw [← hstep] at hreplies hrun
          refine ⟨?_, by simpa [callFree, hcmd] using hrun⟩
          simp only [otherReplies] at hreplies
          simp [otherReplies, callFree, hcmd, hreply, hreplies]

/-! ## Open calls -/

/-- The number of open calls after one more command: it stops at the capacity and at zero. -/
def countCalls (n : Nat) : Cmd → Nat
  | .init _ => 0
  | .event (.callEnter _ _) => min (n + 1) maxCallDepth
  | .event (.callReturn _) => n - 1
  | _ => n

/-- The number of calls that are open after a history of commands. -/
def openCalls (history : List Cmd) : Nat := history.foldl countCalls 0

theorem callDepth_handle (ctx : SessionCtx D) {e : Event} (he : e.isCall = false) :
    (handle H ctx e).2.callDepth = ctx.callDepth := by
  have hsame := handle_withCalls (H := H) ctx ctx.callStack ctx.callDepth he
  exact congrArg (fun out => out.2.callDepth) hsame

theorem callDepth_exec {ctx : SessionCtx D} (hwf : WellFormed ctx) (cmd : Cmd) :
    (exec H ctx cmd).2.callDepth = countCalls ctx.callDepth.toNat cmd := by
  have hnonneg := hwf.callDepth_nonneg
  have hle := hwf.callDepth_le
  have hcast : ctx.callDepth = ctx.callDepth.toNat := by omega
  cases cmd with
  | init alloc =>
      cases alloc with
      | ok handle => simp [exec, cmdInit_ok, countCalls]
      | fail err clears => simp [exec, cmdInit_fail, countCalls]
  | event e =>
      cases e with
      | callEnter callId caller =>
          simp only [exec, handle, cmdCallEnter, countCalls]
          split
          · simp only
            omega
          · simp only
            omega
      | callReturn callId =>
          simp only [exec, handle, cmdCallReturn, countCalls]
          split
          · simp only
            omega
          · simp only
            omega
      | _ =>
          -- The other events leave the depth alone.
          simp only [exec, countCalls]
          rw [callDepth_handle ctx (by rfl)]
          exact hcast
  | finalize => exact hcast
  | getAuth out => exact hcast
  | getLog out => exact hcast

/-- The call depth of a session counts its open calls. -/
theorem callDepth_run {ctx : SessionCtx D} (hwf : WellFormed ctx) (cmds : List Cmd) :
    ((exec H).run ctx cmds).callDepth = cmds.foldl countCalls ctx.callDepth.toNat := by
  induction cmds generalizing ctx with
  | nil =>
      have hnonneg := hwf.callDepth_nonneg
      simp only [Machine.run_nil, List.foldl_nil]
      omega
  | cons cmd cmds ih =>
      rw [Machine.run_cons, ih (wellFormed_exec hwf cmd), callDepth_exec hwf]
      rfl

theorem callDepth_eq_openCalls (history : List Cmd) :
    (afterHistory H history).callDepth = openCalls history :=
  callDepth_run wellFormed_open history

/-! ## What a misplaced return shows -/

variable (H) in
/-- What the call commands show of a session after these commands: a return succeeds, whatever its
id and whether or not a call is open; an entry is refused when 32 calls are open; the other replies
and the report are those of the same commands without the call events. -/
structure CallsUnchecked (cmds : List Cmd) : Prop where
  callReturn : ∀ callId,
    (exec H (afterHistory H cmds) (.event (.callReturn callId))).1.result = .success
  callEnter : ∀ callId caller,
    (exec H (afterHistory H cmds) (.event (.callEnter callId caller))).1.result =
      if openCalls cmds = maxCallDepth then .overflow else .success
  replies : otherReplies H (taOpenSessionEntryPoint H) cmds =
    (exec H).replies (taOpenSessionEntryPoint H) (callFree cmds)
  report : (afterHistory H cmds).report = (afterHistory H (callFree cmds)).report

/-- Call returns are not checked against the call stack, in any session. -/
theorem calls_unchecked (H : Sha256 D) (cmds : List Cmd) : CallsUnchecked H cmds where
  callReturn := fun callId => result_callReturn _ callId
  callEnter := by
    intro callId caller
    have hdepth := callDepth_eq_openCalls (H := H) cmds
    have hle := (wellFormed_run (H := H) (wellFormed_open (H := H)) cmds).callDepth_le
    rw [afterHistory] at hdepth ⊢
    simp only [exec, handle, cmdCallEnter]
    by_cases hfull : openCalls cmds = maxCallDepth
    · rw [if_pos (by omega), if_pos hfull]
    · rw [if_neg (by omega), if_neg hfull]
  replies := (run_callFree cmds (taOpenSessionEntryPoint H) (Vector.replicate _ ⟨0, 0⟩) 0).1
  report := by
    rcases run_callFree (H := H) cmds (taOpenSessionEntryPoint H) (Vector.replicate _ ⟨0, 0⟩) 0
      with ⟨_, stack, depth, hrun⟩
    -- The report does not read the call stack.
    have hreport := congrArg SessionCtx.report hrun
    exact hreport

/-- Every return has the id of the most recently opened call, given the ids of the open ones. -/
def returnsMatch : List UInt64 → List Event → Bool
  | _, [] => true
  | opened, .callEnter callId _ :: es =>
      -- The TA accepts 32 open calls.
      returnsMatch (if opened.length < maxCallDepth then callId :: opened else opened) es
  | [], .callReturn _ :: _ => false
  | callId' :: opened, .callReturn callId :: es => callId == callId' && returnsMatch opened es
  | opened, _ :: es => returnsMatch opened es

/-- The events that are no call returns. -/
def returnFree (es : List Event) : List Event :=
  es.filter fun
    | .callReturn _ => false
    | _ => true

variable (H) in
/-- A run is told from another one: one of its commands fails, or the reports differ. -/
def ToldApart (es es' : List Event) : Prop :=
  (∃ reply ∈ (exec H).replies (taOpenSessionEntryPoint H) (cycle 1 es), reply.result ≠ .success) ∨
    ((exec H).run (taOpenSessionEntryPoint H) (cycle 1 es)).report ≠
      ((exec H).run (taOpenSessionEntryPoint H) (cycle 1 es')).report

/-- A return with the id of another call passes for the matching one. -/
theorem misplaced_returns_not_told_apart :
    ¬ ∀ es es' : List Event, returnsMatch [] es = false → returnsMatch [] es' = true →
        returnFree es = returnFree es' → ToldApart Sha256.free es es' := by
  intro h
  have hid := h [.callEnter 1 2, .callReturn 9] [.callEnter 1 2, .callReturn 1] rfl rfl rfl
  rcases hid with hfailed | hreport
  · exact absurd hfailed (by decide +kernel)
  · have hsame : cycleReport Sha256.free (taOpenSessionEntryPoint Sha256.free) 1
          [.callEnter 1 2, .callReturn 9] =
        cycleReport Sha256.free (taOpenSessionEntryPoint Sha256.free) 1
          [.callEnter 1 2, .callReturn 1] := by decide +kernel
    rw [report_cycle, report_cycle, hsame] at hreport
    exact hreport rfl

/-! ## Balanced calls -/

/-- A call: the ids of its entry, and the id that its return brings. -/
structure CallSite where
  callId : UInt64
  caller : UInt64
  returnId : UInt64
  deriving DecidableEq, Repr

def CallSite.enter (site : CallSite) : Event := .callEnter site.callId site.caller

def CallSite.exit (site : CallSite) : Event := .callReturn site.returnId

theorem callDepth_enter (ctx : SessionCtx D) (hroom : ctx.callDepth < maxCallDepth)
    (site : CallSite) : (handle H ctx site.enter).2.callDepth = ctx.callDepth + 1 := by
  simp only [CallSite.enter, handle, cmdCallEnter, if_neg (Int.not_le.2 hroom)]

theorem callDepth_exit (ctx : SessionCtx D) (hopen : 0 < ctx.callDepth) (site : CallSite) :
    (handle H ctx site.exit).2.callDepth = ctx.callDepth - 1 := by
  simp only [CallSite.exit, handle, cmdCallReturn, if_pos hopen]

/-- Balanced calls give the depth back, as long as the call stack has room for their nesting. -/
theorem callDepth_nest {A : Type*} (event : A → Event) (t : Nest CallSite A) :
    ∀ ctx : SessionCtx D, 0 ≤ ctx.callDepth → ctx.callDepth + t.depth ≤ maxCallDepth →
      (∀ a ∈ t.leaves, (event a).isCall = false) →
        (Machine.run (handle H) ctx (t.flatten CallSite.enter CallSite.exit event)).callDepth =
          ctx.callDepth := by
  induction t with
  | nil =>
      intro ctx _ _ _
      rfl
  | leaf a rest ih =>
      intro ctx hnonneg hroom hleaves
      have hstep := callDepth_handle (H := H) ctx (hleaves a (by simp [Nest.leaves]))
      rw [Nest.flatten, Machine.run_cons, ih _ (by rwa [hstep]) (by rwa [hstep])
        (fun b hb => hleaves b (by simp [Nest.leaves, hb])), hstep]
  | loop site body rest ihBody ihRest =>
      intro ctx hnonneg hroom hleaves
      simp only [Nest.depth] at hroom
      have hlt : ctx.callDepth < maxCallDepth := by omega
      have henter := callDepth_enter (H := H) ctx hlt site
      have hbody := ihBody (handle H ctx site.enter).2 (by omega) (by omega)
        (fun b hb => hleaves b (by simp [Nest.leaves, hb]))
      have hexit := callDepth_exit (H := H) (Machine.run (handle H) (handle H ctx site.enter).2
        (body.flatten CallSite.enter CallSite.exit event)) (by omega) site
      rw [Nest.flatten, Machine.run_cons, Machine.run_append, Machine.run_cons,
        ihRest _ (by omega) (by omega) (fun b hb => hleaves b (by simp [Nest.leaves, hb]))]
      omega

end SecureWorld
end CFlat
