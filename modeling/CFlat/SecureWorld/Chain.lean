import CFlat.SecureWorld.Isolation

/-!
# Chain — the hash of a run without loops

As long as no loop is entered, the hash is the chain of the recorded ids, whatever other commands
come between them.  With collision-free digests the final hash therefore identifies the recorded ids
(`finalHash_eq_iff`).
-/

namespace CFlat
namespace SecureWorld

open Lib

variable {D : Type} {H : Sha256 D}

theorem currentHash_handle {ctx : SessionCtx D} (hinit : ctx.isInitialized = true) {e : Event}
    (he : e.isBracket = false) :
    (handle H ctx e).2.currentHash = chain H.digest ctx.currentHash e.node?.toList := by
  cases e with
  | recordNode nodeId => simp [handle, cmdRecordNode_of_initialized hinit, Event.node?, chain]
  | loopEnter loopId => cases he
  | loopExit loopId => cases he
  | loopIteration loopId => exact (frame_iteration ctx loopId).currentHash
  | callEnter callId caller => exact currentHash_callEnter ctx callId caller
  | callReturn callId => exact currentHash_callReturn ctx callId

/-- The run lemma. -/
theorem currentHash_run {ctx : SessionCtx D} (hready : Ready ctx) {es : List Event}
    (hes : ∀ e ∈ es, e.isBracket = false) :
    (Machine.run (handle H) ctx es).currentHash =
      chain H.digest ctx.currentHash (es.filterMap Event.node?) := by
  induction es generalizing ctx with
  | nil => rfl
  | cons e es ih =>
      have hstep := currentHash_handle (H := H) hready.initialized (hes e (by simp))
      have hrest := ih (ready_handle (H := H) hready e) (fun e' he' => hes e' (by simp [he']))
      calc
        (Machine.run (handle H) (handle H ctx e).2 es).currentHash
            = chain H.digest (chain H.digest ctx.currentHash e.node?.toList)
                (es.filterMap Event.node?) := by rw [hrest, hstep]
        _ = chain H.digest ctx.currentHash ((e :: es).filterMap Event.node?) := by
              rw [List.filterMap_cons]
              cases e.node? <;> rfl

/-- The final hash of a cycle without loops. -/
theorem finalHash_cycle {es : List Event} (hes : ∀ e ∈ es, e.isBracket = false)
    (ctx : SessionCtx D) (handle : Handle) :
    (cycleReport H ctx handle es).finalHash = chain H.digest H.zero (es.filterMap Event.node?) := by
  have hhash : (cmdInit H (.ok handle) ctx).2.currentHash = H.zero := by rw [cmdInit_ok]
  rw [← hhash]
  exact currentHash_run (measuring_init_ok handle ctx).ready hes

/-! ## Runs of commands -/

/-- The commands of a run without loops: no CMD_INIT and no `loop_enter`. -/
def Cmd.isLinear : Cmd → Bool
  | .init _ => false
  | .event (.loopEnter _) => false
  | _ => true

/-- The id that a command records. -/
def Cmd.node? : Cmd → Option UInt64
  | .event e => e.node?
  | _ => none

/-- An initialised session in which no loop is open. -/
structure Linear (ctx : SessionCtx D) : Prop where
  ready : Ready ctx
  loopDepth : ctx.loopDepth = 0

theorem linear_init (handle : Handle) (ctx : SessionCtx D) :
    Linear (cmdInit H (.ok handle) ctx).2 :=
  ⟨(measuring_init_ok handle ctx).ready, by rw [cmdInit_ok]⟩

/-- Without open loops every `loop_exit` is refused. -/
theorem Linear.loopExit {ctx : SessionCtx D} (h : Linear ctx) (loopId : UInt64) :
    handle H ctx (.loopExit loopId) = (.badState, ctx) := by
  simp [handle, cmdLoopExit, h.loopDepth]

theorem Linear.event {ctx : SessionCtx D} (h : Linear ctx) {e : Event}
    (he : (Cmd.event e).isLinear = true) :
    Linear (handle H ctx e).2 ∧
      (handle H ctx e).2.currentHash = chain H.digest ctx.currentHash e.node?.toList := by
  have hready := ready_handle (H := H) h.ready e
  have hinit := h.ready.initialized
  cases e with
  | recordNode nodeId =>
      have hdepth := (tableFrame_recordNode (H := H) ctx nodeId).loopDepth
      exact ⟨⟨hready, hdepth.trans h.loopDepth⟩, currentHash_handle hinit rfl⟩
  | loopEnter loopId => cases he
  | loopExit loopId =>
      rw [h.loopExit]
      exact ⟨h, rfl⟩
  | loopIteration loopId =>
      have hdepth := (frame_iteration ctx loopId).loopDepth
      exact ⟨⟨hready, hdepth.trans h.loopDepth⟩, currentHash_handle hinit rfl⟩
  | callEnter callId caller =>
      have hdepth := (tableFrame_callEnter ctx callId caller).loopDepth
      exact ⟨⟨hready, hdepth.trans h.loopDepth⟩, currentHash_handle hinit rfl⟩
  | callReturn callId =>
      have hdepth := (tableFrame_callReturn ctx callId).loopDepth
      exact ⟨⟨hready, hdepth.trans h.loopDepth⟩, currentHash_handle hinit rfl⟩

/-- The step lemma: of these commands only `record_node` touches the hash. -/
theorem Linear.exec {ctx : SessionCtx D} (h : Linear ctx) {cmd : Cmd} (hcmd : cmd.isLinear = true) :
    Linear (SecureWorld.exec H ctx cmd).2 ∧
      (SecureWorld.exec H ctx cmd).2.currentHash =
        chain H.digest ctx.currentHash cmd.node?.toList := by
  cases cmd with
  | init alloc => cases hcmd
  | event e => exact h.event hcmd
  | finalize => exact ⟨⟨ready_finalize h.ready, h.loopDepth⟩, rfl⟩
  | getAuth out => exact ⟨h, rfl⟩
  | getLog out => exact ⟨h, rfl⟩

/-- The run lemma. -/
theorem Linear.run {ctx : SessionCtx D} (h : Linear ctx) {cmds : List Cmd}
    (hcmds : ∀ cmd ∈ cmds, cmd.isLinear = true) :
    ((SecureWorld.exec H).run ctx cmds).currentHash =
      chain H.digest ctx.currentHash (cmds.filterMap Cmd.node?) := by
  induction cmds generalizing ctx with
  | nil => rfl
  | cons cmd cmds ih =>
      rcases h.exec (H := H) (hcmds cmd (by simp)) with ⟨hlinear, hstep⟩
      have hrest := ih hlinear (fun cmd' hcmd' => hcmds cmd' (by simp [hcmd']))
      calc
        ((SecureWorld.exec H).run (SecureWorld.exec H ctx cmd).2 cmds).currentHash
            = chain H.digest (chain H.digest ctx.currentHash cmd.node?.toList)
                (cmds.filterMap Cmd.node?) := by rw [hrest, hstep]
        _ = chain H.digest ctx.currentHash ((cmd :: cmds).filterMap Cmd.node?) := by
              rw [List.filterMap_cons]
              cases cmd.node? <;> rfl

/-! ## The final hash -/

/-- The hash in the report of a run: after some history of the session, a successful CMD_INIT, these
commands and a CMD_FINALIZE. -/
def finalHash (H : Sha256 D) (history : List Cmd) (handle : Handle) (cmds : List Cmd) : D :=
  ((exec H).run (cmdInit H (.ok handle) (afterHistory H history)).2 cmds).measured.finalHash

theorem finalHash_eq_chain (history : List Cmd) (handle : Handle) {cmds : List Cmd}
    (hcmds : ∀ cmd ∈ cmds, cmd.isLinear = true) :
    finalHash H history handle cmds = chain H.digest H.zero (cmds.filterMap Cmd.node?) := by
  have hzero : (cmdInit H (.ok handle) (afterHistory H history)).2.currentHash = H.zero := by
    rw [cmdInit_ok]
  rw [← hzero]
  exact (linear_init handle (afterHistory H history)).run hcmds

/-- Two runs without loops have the same final hash exactly when they recorded the same nodes,
whatever else was sent in between and whatever the sessions did before. -/
theorem finalHash_eq_iff (hH : CollisionFree H.digest H.zero) (history₁ history₂ : List Cmd)
    (handle₁ handle₂ : Handle) (cmds₁ cmds₂ : List Cmd)
    (h₁ : ∀ cmd ∈ cmds₁, cmd.isLinear = true) (h₂ : ∀ cmd ∈ cmds₂, cmd.isLinear = true) :
    finalHash H history₁ handle₁ cmds₁ = finalHash H history₂ handle₂ cmds₂ ↔
      cmds₁.filterMap Cmd.node? = cmds₂.filterMap Cmd.node? := by
  rw [finalHash_eq_chain history₁ handle₁ h₁, finalHash_eq_chain history₂ handle₂ h₂]
  exact hH.chain_injective.eq_iff

/-- Two nodes with a call, an unmatched exit and an early CMD_FINALIZE between them. -/
theorem finalHash_eq_iff_interleaved :
    finalHash Sha256.free [] 1
        [.event (.recordNode 5), .event (.callEnter 8 9), .event (.loopExit 3), .finalize,
          .event (.recordNode 6)] =
      finalHash Sha256.free [.event (.loopEnter 3)] 2
        [.event (.recordNode 5), .event (.recordNode 6)] ↔
      [(5 : UInt64), 6] = [5, 6] :=
  finalHash_eq_iff collisionFree_free [] [.event (.loopEnter 3)] 1 2 _ _ (by decide) (by decide)

end SecureWorld
end CFlat
