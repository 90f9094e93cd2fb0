import CFlat.Runtime.Link
import Mathlib.Data.List.TakeWhile
import Mathlib.Data.List.ReduceOption

/-!
# Cycles — the reports of a long-lived runtime

A run in which the TEE never fails is cut into segments by its finalisations.  `report_segments`
says that each printed report is the one a fresh session of the trusted application gives for the
events of its own segment: the lazy first CMD_INIT, the deferred later ones, the marshalling of
ids and the leftovers of earlier segments do not show.
-/

namespace CFlat
namespace Runtime

open Lib SecureWorld

variable {D : Type} {H : Sha256 D} {client : Client D}

/-! ## Segments -/

/-- Every TEE call succeeds. -/
structure Env.Succeeds (env : Env) : Prop where
  opens : env.Opens
  reinit : env.reinit = .delivered
  reinitAlloc : ∃ handle, env.reinitAlloc = .ok handle
  command : env.command = .delivered
  getAuth : env.getAuth = .delivered

/-- The hooks of one segment: a forward hook occurs, only call returns come before the first one,
and the loops are well nested. -/
structure Segment (es : List Event) : Prop where
  forward : ∃ e ∈ es, e.isForward = true
  returns : ∀ e ∈ es.takeWhile (fun e => !e.isForward), ∃ callId, e = .callReturn callId
  nested : WellNested es

/-- The events of a segment from its first forward hook on. -/
def fromFirstForward (es : List Event) : List Event := es.dropWhile fun e => !e.isForward

/-- Each segment's hooks and its finalisation, then the hooks after the last finalisation. -/
def script (segments : List (List Event)) (rest : List Event) : List Action :=
  segments.flatMap (fun es => es.map .hook ++ [.finalizeAndPrint]) ++ rest.map .hook

variable (H) in
/-- The attestations of a run: the report bytes that GET_AUTH hands out at each finalisation that
goes through.  Of these bytes the final hash, the loop ids and the counts are printed. -/
def attestations (client : Client D) (calls : List Call) : List (List UInt8) :=
  ((runtime H).replies client calls).filterMap Output.auth?

variable (H) in
/-- The report of a fresh session of the trusted application over these events. -/
def sessionReport (es : List Event) : List UInt8 :=
  ((exec H).run (taOpenSessionEntryPoint H) (cycle 1 es)).report

theorem attestations_append (client : Client D) (calls₁ calls₂ : List Call) :
    attestations H client (calls₁ ++ calls₂) =
      attestations H client calls₁ ++ attestations H ((runtime H).run client calls₁) calls₂ := by
  simp [attestations, Machine.replies_append]

/-- A segment is call returns, then a forward hook, then anything. -/
theorem Segment.split {es : List Event} (h : Segment es) :
    ∃ returns e rest, es = returns ++ e :: rest ∧ fromFirstForward es = e :: rest ∧
      e.isForward = true ∧ ∀ e' ∈ returns, ∃ callId, e' = .callReturn callId := by
  have happend : es.takeWhile (fun e => !e.isForward) ++ fromFirstForward es = es :=
    List.takeWhile_append_dropWhile
  cases hrest : fromFirstForward es with
  | nil =>
      rcases h.forward with ⟨e, he, hforward⟩
      have hbackward := List.dropWhile_eq_nil_iff.1 hrest e he
      simp [hforward] at hbackward
  | cons e rest =>
      refine ⟨es.takeWhile (fun e => !e.isForward), e, rest, ?_, rfl, ?_, h.returns⟩
      · rw [← hrest, happend]
      · have hhead := List.head?_dropWhile_not (fun e : Event => !e.isForward) es
        simp only [fromFirstForward] at hrest
        simpa [hrest] using hhead

theorem wellNested_of_callReturn_cons {callId : UInt64} {es : List Event}
    (h : WellNested (.callReturn callId :: es)) : WellNested es := by
  rcases h with ⟨t, ht⟩
  cases t with
  | nil => cases ht
  | leaf a rest => exact ⟨rest, (List.cons.inj ht).2⟩
  | loop loopId body rest => cases ht

theorem wellNested_of_returns_append {returns es : List Event}
    (hreturns : ∀ e ∈ returns, ∃ callId, e = .callReturn callId) (h : WellNested (returns ++ es)) :
    WellNested es := by
  induction returns with
  | nil => exact h
  | cons e returns ih =>
      rcases hreturns e (by simp) with ⟨callId, rfl⟩
      exact ih (fun e he => hreturns e (by simp [he])) (wellNested_of_callReturn_cons h)

/-! ## One segment of an initialised runtime -/

variable (H) in
/-- A link at the start of a segment: a reset is pending, or has just been made. -/
inductive Fresh : Link D → Prop
  | pending (ctx : SessionCtx D) : Fresh ⟨true, ctx⟩
  | reset (ctx : SessionCtx D) (handle : Handle) : Fresh ⟨false, (cmdInit H (.ok handle) ctx).2⟩

/-- A hook whose command succeeds. -/
theorem linkExec_hook {e : Event} {call : Call} (haction : call.action = .hook e)
    (henv : call.env.Succeeds) (link : Link D) :
    linkExec H link call =
      (none, { link.prepare H e call.env with
        ctx := (handle H (link.prepare H e call.env).ctx e).2 }) := by
  simp [linkExec, haction, henv.command]

theorem callReturn_init (ctx : SessionCtx D) (handle : Handle) (callId : UInt64) :
    (SecureWorld.handle H (cmdInit H (.ok handle) ctx).2 (.callReturn callId)).2 =
      (cmdInit H (.ok handle) ctx).2 := by
  simp [SecureWorld.handle, cmdCallReturn, cmdInit_ok]

/-- A call return at the start of a segment changes nothing that matters. -/
theorem Fresh.callReturn {link : Link D} (h : Fresh H link) {callId : UInt64} {call : Call}
    (haction : call.action = .hook (.callReturn callId)) (henv : call.env.Succeeds) :
    (linkExec H link call).1 = none ∧ Fresh H (linkExec H link call).2 := by
  rw [linkExec_hook haction henv]
  refine ⟨rfl, ?_⟩
  cases h with
  | pending ctx => exact .pending _
  | reset ctx handle =>
      simp only [Link.prepare, Event.isForward, Bool.false_eq_true, if_false, callReturn_init]
      exact .reset ctx handle

/-- The first forward hook of a segment acts on a context that has just been reset. -/
theorem Fresh.forward {link : Link D} (h : Fresh H link) {e : Event} (he : e.isForward = true)
    {call : Call} (haction : call.action = .hook e) (henv : call.env.Succeeds) :
    ∃ ctx handle, linkExec H link call =
      (none, ⟨false, (SecureWorld.handle H (cmdInit H (.ok handle) ctx).2 e).2⟩) := by
  rw [linkExec_hook haction henv]
  simp only [Link.prepare, he, if_true, Link.reinit]
  cases h with
  | pending ctx =>
      rcases henv.reinitAlloc with ⟨handle, halloc⟩
      exact ⟨ctx, handle, by simp [henv.reinit, halloc]⟩
  | reset ctx handle => exact ⟨ctx, handle, by simp⟩

theorem Fresh.returns {returns : List Event}
    (hreturns : ∀ e ∈ returns, ∃ callId, e = .callReturn callId) {calls : List Call}
    (hcalls : calls.map Call.action = returns.map .hook)
    (henv : ∀ call ∈ calls, call.env.Succeeds) {link : Link D} (h : Fresh H link) :
    ((linkExec H).replies link calls).reduceOption = [] ∧
      Fresh H ((linkExec H).run link calls) := by
  induction calls generalizing returns link with
  | nil => exact ⟨rfl, h⟩
  | cons call calls ih =>
      rcases List.map_eq_cons_iff.1 hcalls.symm with ⟨e, returns, rfl, haction, hrest⟩
      rcases hreturns e (by simp) with ⟨callId, rfl⟩
      rcases h.callReturn haction.symm (henv call (by simp)) with ⟨hreply, hfresh⟩
      obtain ⟨hreplies, hrun⟩ := ih (fun e he => hreturns e (by simp [he])) hrest.symm
        (fun call hcall => henv call (by simp [hcall])) hfresh
      refine ⟨?_, hrun⟩
      rw [Machine.replies_cons, hreply, List.reduceOption_cons_of_none, hreplies]

/-- Hooks while no reset is pending reach the handlers one by one. -/
theorem linkExec_hooks {es : List Event} {calls : List Call}
    (hcalls : calls.map Call.action = es.map .hook) (henv : ∀ call ∈ calls, call.env.Succeeds)
    (ctx : SessionCtx D) :
    ((linkExec H).replies ⟨false, ctx⟩ calls).reduceOption = [] ∧
      (linkExec H).run ⟨false, ctx⟩ calls = ⟨false, Machine.run (handle H) ctx es⟩ := by
  induction calls generalizing es ctx with
  | nil =>
      obtain rfl : es = [] := List.map_eq_nil_iff.1 hcalls.symm
      exact ⟨rfl, rfl⟩
  | cons call calls ih =>
      rcases List.map_eq_cons_iff.1 hcalls.symm with ⟨e, es, rfl, haction, hrest⟩
      have hstep : linkExec H ⟨false, ctx⟩ call = (none, ⟨false, (handle H ctx e).2⟩) := by
        rw [linkExec_hook haction.symm (henv call (by simp))]
        cases he : e.isForward <;> simp [Link.prepare, Link.reinit, he]
      obtain ⟨hreplies, hrun⟩ := ih hrest.symm (fun call hcall => henv call (by simp [hcall]))
        (handle H ctx e).2
      rw [Machine.replies_cons, Machine.run_cons, hstep]
      exact ⟨by rw [List.reduceOption_cons_of_none, hreplies], hrun⟩

/-- A finalisation whose two commands succeed prints the report and leaves a reset pending. -/
theorem linkExec_finalize {call : Call} (haction : call.action = .finalizeAndPrint)
    (henv : call.env.Succeeds) (link : Link D) :
    linkExec H link call =
      (some (cmdFinalize H link.ctx).2.report, ⟨true, (cmdFinalize H link.ctx).2⟩) := by
  simp [linkExec, haction, Link.finalize, henv.command, henv.getAuth]

/-- One segment prints one report, the one of a fresh session. -/
theorem Fresh.segment {es : List Event} (hes : Segment es) {calls : List Call}
    (hcalls : calls.map Call.action = es.map .hook ++ [.finalizeAndPrint])
    (henv : ∀ call ∈ calls, call.env.Succeeds) {link : Link D} (h : Fresh H link) :
    ((linkExec H).replies link calls).reduceOption = [sessionReport H (fromFirstForward es)] ∧
      ∃ ctx, (linkExec H).run link calls = ⟨true, ctx⟩ := by
  rcases hes.split with ⟨returns, e, rest, rfl, hfrom, he, hreturns⟩
  -- The returns in front do not disturb the nesting.
  have hnested : WellNested (e :: rest) := wellNested_of_returns_append hreturns hes.nested
  rw [List.map_append, List.map_cons, List.append_assoc, List.cons_append] at hcalls
  rcases List.map_eq_append_iff.1 hcalls with ⟨calls₁, _, rfl, hcalls₁, hfrom₁⟩
  rcases List.map_eq_cons_iff.1 hfrom₁ with ⟨first, _, rfl, hfirst, hfrom₂⟩
  rcases List.map_eq_append_iff.1 hfrom₂ with ⟨calls₂, _, rfl, hcalls₂, hfrom₃⟩
  rcases List.map_eq_cons_iff.1 hfrom₃ with ⟨last, _, rfl, hlast, hend⟩
  rcases List.map_eq_nil_iff.1 hend with rfl
  simp only [List.mem_append, List.mem_cons, List.not_mem_nil, or_false] at henv
  obtain ⟨hsilent, hfresh⟩ := h.returns hreturns hcalls₁ (fun call hcall => henv call (.inl hcall))
  rcases hfresh.forward he hfirst (henv first (.inr (.inl rfl))) with ⟨ctx, handle, hforward⟩
  obtain ⟨hsilent₂, hrun₂⟩ := linkExec_hooks (H := H) hcalls₂
    (fun call hcall => henv call (.inr (.inr (.inl hcall))))
    (SecureWorld.handle H (cmdInit H (.ok handle) ctx).2 e).2
  have hlast' := linkExec_finalize (H := H) hlast (henv last (.inr (.inr (.inr rfl))))
  -- What the session held before does not show: well-nested events close every slot.
  have hreport := (cycle_isolated (H := H) (everySlotClosed_of_wellNested hnested) ctx
    (taOpenSessionEntryPoint H) handle 1).2
  rw [run_cycle] at hreport
  simp only [Machine.replies_append, Machine.replies_cons, Machine.run_append, Machine.run_cons,
    Machine.run_nil, Machine.replies_nil, hforward, hrun₂, hlast', List.reduceOption_append,
    List.reduceOption_cons_of_none, List.reduceOption_cons_of_some, hsilent, hsilent₂]
  refine ⟨?_, _, rfl⟩
  rw [hfrom, sessionReport, ← hreport]
  rfl

/-! ## Whole runs -/

/-- Before the first hook, or after a printed report. -/
def Boundary (client : Client D) : Prop :=
  (client.initialized = false ∧ client.needsReinit = false) ∨ ∃ ctx, Linked client ⟨true, ctx⟩

/-- The first hook of a segment acts on a fresh link. -/
theorem Boundary.first_hook (h : Boundary client) {call : Call} {e : Event}
    (haction : call.action = .hook e) (henv : call.env.Succeeds) :
    ∃ client' link, runtime H client call = runtime H client' call ∧ Linked client' link ∧
      Fresh H link := by
  rcases h with ⟨hinit, hneeds⟩ | ⟨ctx, hlinked⟩
  · have hcall : call.isMeasurement = true := by simp [Call.isMeasurement, haction]
    rcases step_uninitialized (H := H) hcall hinit with ⟨_, _, _, hcause⟩ | hopened
    · exact absurd henv.opens (hcause (by simp [haction]))
    · rcases hopened with ⟨client', handle, heq, hlinked⟩
      rw [hneeds] at hlinked
      exact ⟨client', _, heq, hlinked, .reset _ handle⟩
  · exact ⟨client, _, rfl, hlinked, .pending ctx⟩

theorem isMeasurement_of_script {calls : List Call} {es : List Event}
    (hcalls : calls.map Call.action = es.map .hook ++ [.finalizeAndPrint]) :
    ∀ call ∈ calls, call.isMeasurement = true := by
  intro call hcall
  have hmem : call.action ∈ es.map Action.hook ++ [.finalizeAndPrint] := by
    rw [← hcalls]
    exact List.mem_map_of_mem hcall
  rcases List.mem_append.1 hmem with hhook | hlast
  · rcases List.mem_map.1 hhook with ⟨e, _, he⟩
    simp [Call.isMeasurement, ← he]
  · simp [Call.isMeasurement, List.mem_singleton.1 hlast]

/-- The step lemma: one segment prints one report and ends at a boundary. -/
theorem Boundary.segment (h : Boundary client) {es : List Event} (hes : Segment es)
    {calls : List Call} (hcalls : calls.map Call.action = es.map .hook ++ [.finalizeAndPrint])
    (henv : ∀ call ∈ calls, call.env.Succeeds) :
    attestations H client calls = [sessionReport H (fromFirstForward es)] ∧
      Boundary ((runtime H).run client calls) := by
  obtain ⟨e, es', rfl⟩ : ∃ e es', es = e :: es' := by
    rcases hes.forward with ⟨e, he, _⟩
    cases es with
    | nil => cases he
    | cons e es' => exact ⟨e, es', rfl⟩
  have hmeasure := isMeasurement_of_script hcalls
  rcases List.map_eq_cons_iff.1 hcalls with ⟨first, rest, rfl, hfirst, _⟩
  obtain ⟨client', link, hsame, hlinked, hfresh⟩ :=
    h.first_hook (H := H) hfirst (henv first (by simp))
  rcases linked_run (H := H) hmeasure hlinked with ⟨hreplies, hend⟩
  rcases hfresh.segment hes hcalls henv with ⟨hreports, ctx, hrun⟩
  rw [hrun] at hend
  -- The first call does the same on the link that it finds or opens.
  have hswap : attestations H client (first :: rest) = attestations H client' (first :: rest) ∧
      (runtime H).run client (first :: rest) = (runtime H).run client' (first :: rest) := by
    simp [attestations, hsame]
  rw [hswap.1, hswap.2]
  refine ⟨?_, .inr ⟨ctx, hend⟩⟩
  calc
    attestations H client' (first :: rest)
        = (((runtime H).replies client' (first :: rest)).map Output.auth?).reduceOption := by
          rw [attestations, List.reduceOption, List.filterMap_map]
          rfl
    _ = ((linkExec H).replies link (first :: rest)).reduceOption := by rw [hreplies]
    _ = [sessionReport H (fromFirstForward (e :: es'))] := hreports

/-- A hook prints no attestation. -/
theorem hook_quiet (h : Started client) {call : Call} {e : Event}
    (haction : call.action = .hook e) : (runtime H client call).1.auth? = none := by
  have hmeasure : call.isMeasurement = true := by simp [Call.isMeasurement, haction]
  cases h.step_case (H := H) hmeasure with
  | dormant _ quiet => exact quiet
  | acts linked same =>
      rw [same, (linked_step (H := H) hmeasure linked).1]
      simp [linkExec, haction]

theorem attestations_hooks {es : List Event} {calls : List Call}
    (hcalls : calls.map Call.action = es.map .hook) (h : Started client) :
    attestations H client calls = [] := by
  induction calls generalizing es client with
  | nil => rfl
  | cons call calls ih =>
      rcases List.map_eq_cons_iff.1 hcalls.symm with ⟨e, es, rfl, haction, hrest⟩
      have hmeasure : call.isMeasurement = true := by simp [Call.isMeasurement, ← haction]
      have hrest' := ih hrest.symm (started_step (H := H) hmeasure h)
      rw [attestations] at hrest' ⊢
      rw [Machine.replies_cons, List.filterMap_cons_none (hook_quiet h haction.symm), hrest']

theorem Boundary.started (h : Boundary client) : Started client := by
  rcases h with hinit | ⟨ctx, hlinked⟩
  · exact .inl hinit
  · exact .inr ⟨_, hlinked⟩

/-- The run lemma, from any boundary. -/
theorem Boundary.script {segments : List (List Event)} (hsegments : ∀ es ∈ segments, Segment es)
    {rest : List Event} {calls : List Call} (hcalls : calls.map Call.action = script segments rest)
    (henv : ∀ call ∈ calls, call.env.Succeeds) (h : Boundary client) :
    attestations H client calls =
      segments.map fun es => sessionReport H (fromFirstForward es) := by
  induction segments generalizing calls client with
  | nil => exact attestations_hooks (by simpa [Runtime.script] using hcalls) h.started
  | cons es segments ih =>
      rw [Runtime.script, List.flatMap_cons, List.append_assoc] at hcalls
      rcases List.map_eq_append_iff.1 hcalls with ⟨calls₁, calls₂, rfl, hcalls₁, hcalls₂⟩
      obtain ⟨hfirst, hboundary⟩ := h.segment (H := H) (hsegments es (by simp)) hcalls₁
        (fun call hcall => henv call (List.mem_append_left _ hcall))
      have hothers := ih (fun es' hes' => hsegments es' (by simp [hes'])) hcalls₂
        (fun call hcall => henv call (List.mem_append_right _ hcall)) hboundary
      calc
        attestations H client (calls₁ ++ calls₂)
            = attestations H client calls₁ ++
                attestations H ((runtime H).run client calls₁) calls₂ := attestations_append ..
        _ = sessionReport H (fromFirstForward es) ::
              segments.map (fun es => sessionReport H (fromFirstForward es)) := by
              rw [hfirst, hothers]
              rfl

/-- The reports of a run in which no TEE call fails are those of fresh sessions, one for each
segment from its first forward hook on. -/
theorem report_segments (segments : List (List Event)) (hsegments : ∀ es ∈ segments, Segment es)
    (rest : List Event) (calls : List Call)
    (hcalls : calls.map Call.action = script segments rest)
    (henv : ∀ call ∈ calls, call.env.Succeeds) :
    attestations H Client.start calls =
      segments.map fun es => sessionReport H (fromFirstForward es) :=
  Boundary.script hsegments hcalls henv (.inl ⟨rfl, rfl⟩)

theorem Env.reliable_succeeds : Env.reliable.Succeeds :=
  ⟨⟨rfl, rfl, rfl, 1, rfl⟩, rfl, ⟨2, rfl⟩, rfl, rfl⟩

theorem report_segments_twoCycles :
    let segments : List (List Event) :=
      [[.recordNode 1, .loopEnter 7, .recordNode 2, .loopExit 7], [.callReturn 4, .recordNode 3]]
    attestations Sha256.free Client.start ((script segments [.loopExit 7]).map Call.reliable) =
      segments.map fun es => sessionReport Sha256.free (fromFirstForward es) := by
  intro segments
  refine report_segments segments ?_ [.loopExit 7] _ ?_ ?_
  · intro es hes
    simp only [segments, List.mem_cons, List.not_mem_nil, or_false] at hes
    rcases hes with rfl | rfl
    · exact ⟨⟨.recordNode 1, by simp, rfl⟩, by simp [Event.isForward],
        .leaf (.node 1) (.loop 7 (.leaf (.node 2) .nil) .nil), rfl⟩
    · exact ⟨⟨.recordNode 3, by simp, rfl⟩, by simp [Event.isForward],
        .leaf (.callReturn 4) (.leaf (.node 3) .nil), rfl⟩
  · simp [Call.reliable, Function.comp_def]
  · intro call hcall
    rcases List.mem_map.1 hcall with ⟨action, _, rfl⟩
    exact Env.reliable_succeeds

end Runtime
end CFlat
