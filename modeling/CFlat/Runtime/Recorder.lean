import CFlat.SecureWorld.Chain
import CFlat.Runtime.Cycles
import CFlat.Runtime.Lifecycle

/-!
# Recorder — a runtime without loops is a list of ids

As long as no loop is entered, all that the runtime and the trusted application hold between two
calls is whether a session is open, whether a reset is pending, and the ids recorded in the current
cycle.  `Recorder` is this machine, and `attestations_eq_recorded` says that the runtime refines it,
whatever the TEE loses or refuses.
-/

namespace CFlat
namespace Runtime

open Lib SecureWorld

variable {D : Type} {H : Sha256 D} {client : Client D} {link : Link D}

/-! ## The abstract machine -/

structure Recorder where
  started : Bool
  pending : Bool
  ids : List UInt64
  deriving DecidableEq, Repr

namespace Recorder

def start : Recorder := ⟨false, false, []⟩

/-- A pending reset empties the list when its CMD_INIT arrives, and is forgotten when it does
not. -/
def reinit (env : Env) (r : Recorder) : Recorder where
  started := r.started
  pending := false
  ids := if r.pending && env.reinit.arrives then [] else r.ids

def prepare (e : Event) (env : Env) (r : Recorder) : Recorder :=
  if e.isForward then r.reinit env else r

/-- A hook, once there is a session. -/
def take (e : Event) (env : Env) (r : Recorder) : Recorder :=
  let r := r.prepare e env
  if env.command.arrives then { r with ids := r.ids ++ e.node?.toList } else r

/-- A finalisation, once there is a session. -/
def finalize (env : Env) (r : Recorder) : Option (List UInt64) × Recorder :=
  if env.command = .delivered ∧ env.getAuth = .delivered then
    (some r.ids, { r with pending := true })
  else (none, r)

/-- The ids that each call fetches a report of. -/
def step : Machine Recorder Call (Option (List UInt64)) := fun r call =>
  match call.action with
  | .hook e =>
      if r.started || call.env.opens then (none, take e call.env { r with started := true })
      else (none, r)
  | .finalizeAndPrint => if r.started then r.finalize call.env else (none, r)
  | .cleanup => (none, r)

end Recorder

/-- The lists of ids that a run fetches reports of. -/
def recorded (calls : List Call) : List (List UInt64) :=
  (Recorder.step.replies Recorder.start calls).reduceOption

/-- A hook other than `loop_enter`, or a finalisation. -/
def Call.isLinear (call : Call) : Bool :=
  match call.action with
  | .hook (.loopEnter _) => false
  | .hook _ => true
  | .finalizeAndPrint => true
  | .cleanup => false

theorem Call.isMeasurement_of_isLinear {call : Call} (h : call.isLinear = true) :
    call.isMeasurement = true := by
  rcases call with ⟨action, env⟩
  cases action with
  | cleanup => cases h
  | _ => rfl

theorem Call.event_of_isLinear {call : Call} {e : Event} (h : call.isLinear = true)
    (haction : call.action = .hook e) : (Cmd.event e).isLinear = true := by
  rcases call with ⟨action, env⟩
  subst haction
  cases e with
  | loopEnter loopId => cases h
  | _ => rfl

/-! ## Sessions without loops -/

/-- A session in which no loop has been entered since the last CMD_INIT, and the ids recorded
since then. -/
structure Holds (H : Sha256 D) (ctx : SessionCtx D) (ids : List UInt64) : Prop
    extends Linear ctx where
  loopCount : ctx.loopCount = 0
  currentHash : ctx.currentHash = chain H.digest H.zero ids

theorem holds_init {ctx : SessionCtx D} (alloc : AllocOutcome) (h : Ready ctx) :
    Holds H (cmdInit H alloc ctx).2 [] := by
  have hready := ready_init (H := H) alloc h
  cases alloc with
  | ok handle => exact ⟨⟨hready, by rw [cmdInit_ok]⟩, by rw [cmdInit_ok], by rw [cmdInit_ok]; rfl⟩
  | fail err clears =>
      exact ⟨⟨hready, by rw [cmdInit_fail]⟩, by rw [cmdInit_fail], by rw [cmdInit_fail]; rfl⟩

theorem holds_opened (handle : Handle) :
    Holds H (cmdInit H (.ok handle) (taOpenSessionEntryPoint H)).2 [] :=
  ⟨linear_init handle _, by rw [cmdInit_ok], by rw [cmdInit_ok]; rfl⟩

theorem loopCount_iteration (ctx : SessionCtx D) (loopId : UInt64) :
    (cmdLoopIteration ctx loopId).2.loopCount = ctx.loopCount := by
  have hcase := cmdLoopIteration_case ctx loopId
  generalize cmdLoopIteration ctx loopId = out at hcase ⊢
  cases hcase with
  | ignored => rfl
  | counts h => exact h.loopCount

theorem loopCount_linear {ctx : SessionCtx D} (h : Linear ctx) {e : Event}
    (he : (Cmd.event e).isLinear = true) : (handle H ctx e).2.loopCount = ctx.loopCount := by
  cases e with
  | recordNode nodeId => exact (tableFrame_recordNode ctx nodeId).loopCount
  | loopEnter loopId => cases he
  | loopExit loopId => rw [h.loopExit]
  | loopIteration loopId => exact loopCount_iteration ctx loopId
  | callEnter callId caller => exact (tableFrame_callEnter ctx callId caller).loopCount
  | callReturn callId => exact (tableFrame_callReturn ctx callId).loopCount

theorem Holds.event {ctx : SessionCtx D} {ids : List UInt64} (h : Holds H ctx ids) {e : Event}
    (he : (Cmd.event e).isLinear = true) :
    Holds H (handle H ctx e).2 (ids ++ e.node?.toList) := by
  rcases h.toLinear.event (H := H) he with ⟨hlinear, hhash⟩
  refine ⟨hlinear, (loopCount_linear h.toLinear he).trans h.loopCount, ?_⟩
  rw [hhash, h.currentHash, chain_append]
  rfl

theorem Holds.finalize {ctx : SessionCtx D} {ids : List UInt64} (h : Holds H ctx ids) :
    Holds H (cmdFinalize H ctx).2 ids :=
  ⟨⟨ready_finalize h.ready, h.loopDepth⟩, h.loopCount, h.currentHash⟩

/-- The report of a cycle without loops. -/
def chainReport (H : Sha256 D) (ids : List UInt64) : Report D := ⟨chain H.digest H.zero ids, []⟩

theorem Holds.measured {ctx : SessionCtx D} {ids : List UInt64} (h : Holds H ctx ids) :
    ctx.measured = chainReport H ids := by
  have hlive : ctx.live = [] := by simp [SessionCtx.live, h.loopCount]
  rw [SessionCtx.measured, hlive, h.currentHash]
  rfl

/-! ## One call -/

/-- A runtime and what the recorder says of it. -/
inductive Records (H : Sha256 D) : Client D → Recorder → Prop
  | idle {client : Client D} (initialized : client.initialized = false)
      (needsReinit : client.needsReinit = false) : Records H client .start
  | linked {client : Client D} {link : Link D} {ids : List UInt64} (linked : Linked client link)
      (holds : Holds H link.ctx ids) : Records H client ⟨true, link.pending, ids⟩

/-- The link of a recorder with a session. -/
structure LinkHolds (H : Sha256 D) (link : Link D) (r : Recorder) : Prop where
  started : r.started = true
  pending : r.pending = link.pending
  holds : Holds H link.ctx r.ids

theorem LinkHolds.records {r : Recorder} (h : LinkHolds H link r) (hlinked : Linked client link) :
    Records H client r := by
  rcases r with ⟨started, pending, ids⟩
  obtain rfl : started = true := h.started
  obtain rfl : pending = link.pending := h.pending
  exact .linked hlinked h.holds

theorem LinkHolds.prepare {r : Recorder} (h : LinkHolds H link r) (e : Event) (env : Env) :
    LinkHolds H (link.prepare H e env) (r.prepare e env) := by
  rw [Link.prepare, Recorder.prepare]
  split
  · refine ⟨h.started, rfl, ?_⟩
    simp only [Link.reinit, Recorder.reinit, h.pending]
    split
    · exact holds_init _ h.holds.ready
    · exact h.holds
  · exact h

theorem LinkHolds.take {r : Recorder} (h : LinkHolds H link r) (call : Call) {e : Event}
    (haction : call.action = .hook e) (he : (Cmd.event e).isLinear = true) :
    (linkExec H link call).1 = none ∧
      LinkHolds H (linkExec H link call).2 (r.take e call.env) := by
  have hprepared := h.prepare e call.env
  simp only [linkExec, haction, Recorder.take, true_and]
  split
  · exact ⟨hprepared.started, hprepared.pending, hprepared.holds.event he⟩
  · exact hprepared

theorem LinkHolds.finalize {r : Recorder} (h : LinkHolds H link r) (call : Call)
    (haction : call.action = .finalizeAndPrint) :
    (linkExec H link call).1 =
        (r.finalize call.env).1.map (fun ids => (chainReport H ids).encode H) ∧
      LinkHolds H (linkExec H link call).2 (r.finalize call.env).2 := by
  have hreport : (cmdFinalize H link.ctx).2.report = (chainReport H r.ids).encode H := by
    rw [report_cmdFinalize h.holds.ready.wellFormed, h.holds.measured]
  simp only [linkExec, haction, Link.finalize, Recorder.finalize]
  by_cases hprints : call.env.command = .delivered ∧ call.env.getAuth = .delivered
  · have harrives : call.env.command.arrives = true := by rw [hprints.1]; rfl
    rw [if_pos harrives, if_pos hprints, if_pos hprints]
    exact ⟨congrArg some hreport, h.started, rfl, h.holds.finalize⟩
  · rw [if_neg hprints, if_neg hprints]
    split
    · exact ⟨rfl, h.started, h.pending, h.holds.finalize⟩
    · exact ⟨rfl, h⟩

/-- A call of a runtime that is not initialised. -/
theorem records_idle {call : Call} (hcall : call.isLinear = true)
    (hinit : client.initialized = false) (hneeds : client.needsReinit = false) :
    (runtime H client call).1.auth? =
        (Recorder.step .start call).1.map (fun ids => (chainReport H ids).encode H) ∧
      Records H (runtime H client call).2 (Recorder.step .start call).2 := by
  rcases call with ⟨action, env⟩
  cases action with
  | cleanup => cases hcall
  | finalizeAndPrint =>
      rw [runtime_uninitialized hinit (by simp)]
      exact ⟨by simp [runtime, cflatFinalizeAndPrint, hinit, Output.auth?, Recorder.step,
        Recorder.start], .idle hinit hneeds⟩
  | hook e =>
      have he := Call.event_of_isLinear hcall rfl
      have hcase := ensureInit_case (H := H) client env hinit
      generalize hout : ensureInit H env client = out at hcase
      cases hcase with
      | @failed out client' cause quiet initialized needsReinit =>
          have hclosed : env.opens = false := by
            rw [← Bool.not_eq_true, opens_iff]
            exact cause
          simp only [runtime, hook_eq, invokeHook, hout, Recorder.step, Recorder.start, hclosed,
            Bool.or_false, Bool.false_eq_true, if_false]
          exact ⟨quiet, .idle initialized (needsReinit.trans hneeds)⟩
      | @opened client' handle opens linked =>
          -- The hook acts on the link of a fresh session.
          have hfresh : LinkHolds H
              ⟨client.needsReinit, (cmdInit H (.ok handle) (taOpenSessionEntryPoint H)).2⟩
              ⟨true, false, []⟩ := ⟨rfl, hneeds.symm, holds_opened handle⟩
          have hstep : runtime H client ⟨.hook e, env⟩ = runtime H client' ⟨.hook e, env⟩ :=
            hook_of_ensureInit e hout linked.initialized
          rcases hfresh.take ⟨.hook e, env⟩ rfl he with ⟨hquiet, hholds⟩
          rcases linked_step (H := H) (Call.isMeasurement_of_isLinear hcall) linked with
            ⟨hreply, hlinked⟩
          have hopens := (opens_iff env).2 opens
          simp only [hstep, hreply, hquiet, Recorder.step, Recorder.start, hopens, Bool.or_true,
            if_true]
          exact ⟨rfl, hholds.records hlinked⟩

/-- The step lemma. -/
theorem records_step {r : Recorder} {call : Call} (hcall : call.isLinear = true)
    (h : Records H client r) :
    (runtime H client call).1.auth? =
        (Recorder.step r call).1.map (fun ids => (chainReport H ids).encode H) ∧
      Records H (runtime H client call).2 (Recorder.step r call).2 := by
  cases h with
  | idle initialized needsReinit => exact records_idle hcall initialized needsReinit
  | @linked link ids linked holds =>
      have hholds : LinkHolds H link ⟨true, link.pending, ids⟩ := ⟨rfl, rfl, holds⟩
      rcases linked_step (H := H) (Call.isMeasurement_of_isLinear hcall) linked with
        ⟨hreply, hlinked⟩
      rcases call with ⟨action, env⟩
      cases action with
      | cleanup => cases hcall
      | hook e =>
          rcases hholds.take ⟨.hook e, env⟩ rfl (Call.event_of_isLinear hcall rfl) with
            ⟨hquiet, hnext⟩
          rw [hreply, hquiet]
          exact ⟨rfl, hnext.records hlinked⟩
      | finalizeAndPrint =>
          rcases hholds.finalize ⟨.finalizeAndPrint, env⟩ rfl with ⟨hprints, hnext⟩
          rw [hreply]
          exact ⟨hprints, hnext.records hlinked⟩

/-- The runtime refines the recorder. -/
theorem records_run {r : Recorder} {calls : List Call}
    (hcalls : ∀ call ∈ calls, call.isLinear = true) (h : Records H client r) :
    attestations H client calls =
        ((Recorder.step.replies r calls).reduceOption).map
          (fun ids => (chainReport H ids).encode H) ∧
      Records H ((runtime H).run client calls) (Recorder.step.run r calls) := by
  induction calls generalizing client r with
  | nil => exact ⟨rfl, h⟩
  | cons call calls ih =>
      rcases records_step (hcalls call (by simp)) h with ⟨hreply, hstep⟩
      rcases ih (fun call' hcall' => hcalls call' (by simp [hcall'])) hstep with ⟨hreplies, hrun⟩
      refine ⟨?_, hrun⟩
      rw [attestations] at hreplies ⊢
      rw [Machine.replies_cons, Machine.replies_cons, List.filterMap_cons, hreply, hreplies]
      cases (Recorder.step r call).1 <;> rfl

/-- Without loops, and whatever the TEE loses or refuses, the runtime fetches the hash chains of the
ids that the recorder holds, and no loop record. -/
theorem attestations_eq_recorded (H : Sha256 D) (calls : List Call)
    (hcalls : ∀ call ∈ calls, call.isLinear = true) :
    attestations H Client.start calls =
      (recorded calls).map fun ids => (chainReport H ids).encode H :=
  (records_run hcalls (.idle rfl rfl)).1

/-- A call that is lost and a report whose reset is lost. -/
def lossyCalls : List Call :=
  [.reliable (.hook (.recordNode 1)),
    ⟨.hook (.recordNode 2), { Env.reliable with command := .lost }⟩,
    .reliable .finalizeAndPrint,
    ⟨.hook (.recordNode 3), { Env.reliable with reinit := .lost }⟩,
    .reliable .finalizeAndPrint]

/-- The second report shows both cycles. -/
theorem attestations_eq_recorded_lossyCalls :
    recorded lossyCalls = [[1], [1, 3]] ∧
      attestations Sha256.free Client.start lossyCalls =
        (recorded lossyCalls).map fun ids => (chainReport Sha256.free ids).encode Sha256.free :=
  ⟨by decide, attestations_eq_recorded Sha256.free lossyCalls (by decide)⟩

/-! ## What is recorded, whatever is lost -/

/-- The node that a call asks to record. -/
def Action.node? : Action → Option UInt64
  | .hook e => e.node?
  | _ => none

namespace Recorder

end Recorder

/-! ## A TEE that never fails -/

namespace Recorder

/-- A recorder after some hooks that were all served. -/
def after (r : Recorder) (es : List Event) : Recorder where
  started := r.started || !es.isEmpty
  pending := r.pending && !es.any Event.isForward
  ids := (if r.pending && es.any Event.isForward then [] else r.ids) ++ es.filterMap Event.node?

theorem step_hook {e : Event} {env : Env} (henv : env.Succeeds) (r : Recorder) :
    step r ⟨.hook e, env⟩ = (none, take e env { r with started := true }) := by
  have hopens : env.opens = true := (opens_iff env).2 henv.opens
  simp only [step, hopens, Bool.or_true, if_true]

/-- Only a forward hook records a node. -/
theorem node?_of_not_isForward {e : Event} (h : e.isForward = false) : e.node? = none := by
  cases e <;> first | rfl | cases h

theorem after_take {e : Event} {env : Env} (henv : env.Succeeds) (r : Recorder) (es : List Event) :
    (take e env { r with started := true }).after es = r.after (e :: es) := by
  have harrives : env.command.arrives = true := by rw [henv.command]; rfl
  have hreinit : env.reinit.arrives = true := by rw [henv.reinit]; rfl
  rcases r with ⟨started, pending, ids⟩
  cases he : e.isForward with
  | true =>
      cases pending <;> cases hnode : e.node? <;>
        simp [take, prepare, reinit, after, harrives, hreinit, he, hnode]
  | false =>
      have hnode := node?_of_not_isForward he
      simp [take, prepare, after, harrives, he, hnode]

/-- Hooks report nothing. -/
theorem hooks {es : List Event} {calls : List Call}
    (hcalls : calls.map Call.action = es.map .hook) (henv : ∀ call ∈ calls, call.env.Succeeds)
    (r : Recorder) :
    (step.replies r calls).reduceOption = [] ∧ step.run r calls = r.after es := by
  induction calls generalizing es r with
  | nil =>
      obtain rfl : es = [] := List.map_eq_nil_iff.1 hcalls.symm
      simp [after]
  | cons call calls ih =>
      rcases List.map_eq_cons_iff.1 hcalls.symm with ⟨e, es, rfl, haction, hrest⟩
      rcases call with ⟨action, env⟩
      obtain rfl : Action.hook e = action := haction
      have hsucceeds : env.Succeeds := henv _ List.mem_cons_self
      rcases ih hrest.symm (fun call hcall => henv call (List.mem_cons_of_mem _ hcall))
        (take e env { r with started := true }) with ⟨hreplies, hrun⟩
      rw [Machine.replies_cons, Machine.run_cons, step_hook hsucceeds, ← after_take hsucceeds]
      exact ⟨hreplies, hrun⟩

/-- A finalisation of a started recorder. -/
theorem step_finalize {env : Env} (henv : env.Succeeds) (r : Recorder) :
    step r ⟨.finalizeAndPrint, env⟩ =
      if r.started then (some r.ids, { r with pending := true }) else (none, r) := by
  simp [step, finalize, henv.command, henv.getAuth]

end Recorder

end Runtime
end CFlat
