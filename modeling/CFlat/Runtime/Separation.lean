import CFlat.Runtime.Cycles

/-!
# Separation — what a report shows of earlier cycles of the runtime

Two runs have each printed a report, by whatever calls and failures, and go on with the same
calls.  The reset is deferred to the next forward hook, so a second finalisation before that hook
prints the old cycle again (`report_repeats_old_cycle`).  From that hook on, with its CMD_INIT
executed by the trusted application, the two runs are twins: they fetch the same next report, if
every loop record that the new cycle opens is closed once (`next_report_separated`).  A TEE that
serves every call from some printed report on makes good whatever it did before
(`reports_after_recovery`).
-/

namespace CFlat
namespace Runtime

open Lib SecureWorld

variable {D : Type} {H : Sha256 D} {client : Client D}

/-! ## Runs that end with a printed report -/

/-- The call fetches an attestation and prints it, if it is made with a session. -/
def Call.prints (call : Call) : Bool :=
  call.action == .finalizeAndPrint && call.env.command == .delivered &&
    call.env.getAuth == .delivered

/-- The call sends no pending CMD_INIT. -/
def Call.isBackward (call : Call) : Bool :=
  match call.action with
  | .hook e => !e.isForward
  | .finalizeAndPrint => true
  | .cleanup => false

variable (H) in
/-- A run of hooks and finalisations whose last call prints a report. -/
structure EndsPrinting (past : List Call) : Prop where
  measurement : ∀ call ∈ past, call.isMeasurement = true
  prints : ∃ calls last auth, past = calls ++ [last] ∧
    (runtime H ((runtime H).run Client.start calls) last).1.auth? = some auth

theorem Call.isBackward.isMeasurement {call : Call} (h : call.isBackward = true) :
    call.isMeasurement = true := by
  rcases call with ⟨action, env⟩
  cases action with
  | hook e => rfl
  | finalizeAndPrint => rfl
  | cleanup => cases h

theorem linkExec_prints {link : Link D} {call : Call} {auth : List UInt8}
    (h : (linkExec H link call).1 = some auth) : (linkExec H link call).2.pending = true := by
  rcases call with ⟨action, env⟩
  cases action with
  | hook e => cases h
  | cleanup => cases h
  | finalizeAndPrint =>
      simp only [linkExec, Link.finalize] at h ⊢
      split at h
      · split at h
        · rename_i hdelivered
          simp [hdelivered]
        · cases h
      · cases h

/-- After a printed report a reset is pending. -/
theorem EndsPrinting.linked {past : List Call} (h : EndsPrinting H past) :
    ∃ link : Link D, link.pending = true ∧ Linked ((runtime H).run Client.start past) link := by
  rcases h.prints with ⟨calls, last, auth, rfl, hprints⟩
  have hlast : last.isMeasurement = true := h.measurement last (by simp)
  rw [Machine.run_append, Machine.run_cons, Machine.run_nil]
  have hcalls : ∀ call ∈ calls, call.isMeasurement = true :=
    fun call hcall => h.measurement call (List.mem_append_left _ hcall)
  cases (started_run (H := H) hcalls).step_case (H := H) hlast with
  | dormant _ quiet => simp [quiet] at hprints
  | acts linked same =>
      rcases linked_step (H := H) hlast linked with ⟨hreply, hstep⟩
      rw [same] at hprints ⊢
      exact ⟨_, linkExec_prints (hreply.symm.trans hprints), hstep⟩

theorem linkExec_backward {link : Link D} {call : Call} (hcall : call.isBackward = true)
    (h : link.pending = true) : (linkExec H link call).2.pending = true := by
  rcases call with ⟨action, env⟩
  cases action with
  | hook e =>
      have he : e.isForward = false := by simpa [Call.isBackward] using hcall
      simp only [linkExec, Link.prepare, he, Bool.false_eq_true, if_false]
      split
      · exact h
      · exact h
  | finalizeAndPrint =>
      simp only [linkExec, Link.finalize]
      split
      · split
        · rfl
        · exact h
      · exact h
  | cleanup => cases hcall

/-- Calls that send no CMD_INIT leave the reset pending. -/
theorem EndsPrinting.between {past between : List Call} (h : EndsPrinting H past)
    (hbetween : ∀ call ∈ between, call.isBackward = true) :
    ∃ link : Link D, link.pending = true ∧
      Linked ((runtime H).run Client.start (past ++ between)) link := by
  rcases h.linked with ⟨link, hpending, hlinked⟩
  have hmeasure : ∀ call ∈ between, call.isMeasurement = true :=
    fun call hcall => Call.isBackward.isMeasurement (hbetween call hcall)
  rw [Machine.run_append]
  refine ⟨_, ?_, (linked_run (H := H) hmeasure hlinked).2⟩
  exact (linkExec H).run_invariant (I := fun link => link.pending = true)
    (fun _ _ hcall h => linkExec_backward hcall h) hpending between hbetween

/-! ## A new cycle -/

/-- The command that a hook or a finalisation gets through to the session. -/
def Call.delivered? (call : Call) : Option Cmd :=
  if call.env.command.arrives then
    match call.action with
    | .hook e => some (.event e)
    | .finalizeAndPrint => some .finalize
    | .cleanup => none
  else none

/-- The commands of a stretch of calls that reach the session, pending CMD_INITs apart. -/
def delivered (calls : List Call) : List Cmd := calls.filterMap Call.delivered?

/-- The call sends the pending CMD_INIT, and the trusted application executes it. -/
structure Call.Resets (call : Call) : Prop where
  forward : ∃ e, call.action = .hook e ∧ e.isForward = true
  reinit : call.env.reinit.arrives = true

theorem isCycle_delivered (calls : List Call) : ∀ cmd ∈ delivered calls, cmd.isCycle = true := by
  intro cmd hcmd
  rcases List.mem_filterMap.1 hcmd with ⟨⟨action, env⟩, _, hcall⟩
  simp only [Call.delivered?] at hcall
  split at hcall
  · cases action <;> cases hcall <;> rfl
  · cases hcall

/-- What an initialised runtime prints. -/
theorem linkExec_reply (link : Link D) (call : Call) :
    (linkExec H link call).1 =
      if call.prints then some (cmdFinalize H link.ctx).2.report else none := by
  rcases call with ⟨action, env⟩
  cases action with
  | hook e => rfl
  | cleanup => rfl
  | finalizeAndPrint =>
      cases hcommand : env.command <;> cases hgetAuth : env.getAuth <;>
        simp [linkExec, Link.finalize, Call.prints, hcommand, hgetAuth]

/-- With no reset pending, a call that prints no report only delivers its command. -/
theorem linkExec_quiet {call : Call} (hquiet : call.prints = false)
    (ctx : SessionCtx D) :
    (linkExec H ⟨false, ctx⟩ call).2 = ⟨false, (exec H).run ctx call.delivered?.toList⟩ := by
  rcases call with ⟨action, env⟩
  cases action with
  | hook e =>
      cases hcommand : env.command <;> cases he : e.isForward <;>
        simp [linkExec, Link.prepare, Link.reinit, Call.delivered?, hcommand, he, exec]
  | cleanup =>
      cases hcommand : env.command <;> simp [linkExec, Call.delivered?, hcommand]
  | finalizeAndPrint =>
      cases hcommand : env.command <;> cases hgetAuth : env.getAuth <;>
        simp_all [linkExec, Link.finalize, Call.prints, Call.delivered?, exec]

theorem run_delivered_cons (ctx : SessionCtx D) (call : Call) (calls : List Call) :
    (exec H).run ctx (delivered (call :: calls)) =
      (exec H).run ((exec H).run ctx call.delivered?.toList) (delivered calls) := by
  rw [delivered, delivered, List.filterMap_cons]
  cases call.delivered? <;> rfl

theorem linkExec_run_quiet {calls : List Call} (hquiet : ∀ call ∈ calls, call.prints = false)
    (ctx : SessionCtx D) :
    (linkExec H).run ⟨false, ctx⟩ calls = ⟨false, (exec H).run ctx (delivered calls)⟩ := by
  induction calls generalizing ctx with
  | nil => rfl
  | cons call calls ih =>
      rw [Machine.run_cons, linkExec_quiet (hquiet call (by simp)), run_delivered_cons]
      exact ih (fun call' hcall' => hquiet call' (by simp [hcall'])) _

/-- A forward hook with a reset pending starts the cycle on a context that has been reset. -/
theorem linkExec_resets {link : Link D} (hpending : link.pending = true) {first : Call}
    (hfirst : first.Resets) :
    (linkExec H link first).2 =
      ⟨false, (exec H).run (cmdInit H first.env.reinitAlloc link.ctx).2
        first.delivered?.toList⟩ := by
  rcases hfirst.forward with ⟨e, haction, he⟩
  cases hcommand : first.env.command <;>
    simp [linkExec, Link.prepare, Link.reinit, Call.delivered?, haction, he, hpending,
      hfirst.reinit, hcommand, exec]

theorem silent_of_attestations {link : Link D} {calls : List Call}
    (hcalls : ∀ call ∈ calls, call.isMeasurement = true) (h : Linked client link)
    (hquiet : attestations H client calls = []) : ∀ call ∈ calls, call.prints = false := by
  induction calls generalizing client link with
  | nil =>
      intro call hcall
      cases hcall
  | cons call calls ih =>
      rcases linked_step (H := H) (hcalls call (by simp)) h with ⟨hreply, hstep⟩
      have hparts : (runtime H client call).1.auth? = none ∧
          attestations H (runtime H client call).2 calls = [] := by
        simp only [attestations, Machine.replies_cons] at hquiet ⊢
        cases hauth : (runtime H client call).1.auth? with
        | none => exact ⟨rfl, by simpa [List.filterMap_cons_none hauth] using hquiet⟩
        | some auth => simp [List.filterMap_cons_some hauth] at hquiet
      intro call' hcall'
      rcases List.mem_cons.1 hcall' with rfl | hrest
      -- A link prints exactly when the call does.
      · rw [hparts.1, linkExec_reply] at hreply
        cases hprints : call'.prints with
        | false => rfl
        | true => simp [hprints] at hreply
      · exact ih (fun call hcall => hcalls call (by simp [hcall])) hstep hparts.2 call' hrest

/-- The session at the end of a new cycle, in terms of the commands that were delivered. -/
theorem Linked.cycle {link : Link D} (h : Linked client link) (hpending : link.pending = true)
    {first : Call} (hfirst : first.Resets) {cycle : List Call}
    (hcalls : ∀ call ∈ first :: cycle, call.isMeasurement = true)
    (hquiet : ∀ call ∈ cycle, call.prints = false) :
    Linked ((runtime H).run client (first :: cycle))
      ⟨false, (exec H).run (cmdInit H first.env.reinitAlloc link.ctx).2
        (delivered (first :: cycle))⟩ := by
  have hrun := (linked_run (H := H) hcalls h).2
  rwa [Machine.run_cons (linkExec H), linkExec_resets hpending hfirst, linkExec_run_quiet hquiet,
    ← run_delivered_cons] at hrun

/-- The next report of two runs that have both printed one and go on alike: after calls that send
no CMD_INIT, a forward hook whose CMD_INIT the trusted application executes, and calls that print
nothing, the next call fetches the same attestation in both, if every loop record opened since that
hook was closed once. -/
theorem next_report_separated (H : Sha256 D) {past₁ past₂ between cycle : List Call}
    {first last : Call} (h₁ : EndsPrinting H past₁) (h₂ : EndsPrinting H past₂)
    (hbetween : ∀ call ∈ between, call.isBackward = true) (hfirst : first.Resets)
    (hcalls : ∀ call ∈ first :: cycle, call.isMeasurement = true)
    (hlast : last.isMeasurement = true)
    (hquiet : attestations H ((runtime H).run Client.start (past₁ ++ between))
      (first :: cycle) = [])
    (hclosed : EverySlotClosed (delivered (first :: cycle))) :
    (runtime H ((runtime H).run Client.start (past₁ ++ between ++ first :: cycle)) last).1.auth? =
      (runtime H ((runtime H).run Client.start (past₂ ++ between ++ first :: cycle))
        last).1.auth? := by
  rcases h₁.between hbetween with ⟨link₁, hpending₁, hlinked₁⟩
  rcases h₂.between hbetween with ⟨link₂, hpending₂, hlinked₂⟩
  have hsilent : ∀ call ∈ cycle, call.prints = false := by
    have hall := silent_of_attestations hcalls hlinked₁ hquiet
    exact fun call hcall => hall call (List.mem_cons_of_mem _ hcall)
  have hend₁ := hlinked₁.cycle (H := H) hpending₁ hfirst hcalls hsilent
  have hend₂ := hlinked₂.cycle (H := H) hpending₂ hfirst hcalls hsilent
  -- The two contexts are twins since the CMD_INIT of the first hook.
  obtain ⟨_, htwin⟩ := twin_run (H := H) (delivered (first :: cycle)) (isCycle_delivered _)
    (twin_reset (Q := fun _ _ => True) (leftover_trivial link₁.ctx link₂.ctx)
      (ready_init first.env.reinitAlloc hlinked₁.ready)
      (ready_init first.env.reinitAlloc hlinked₂.ready))
  have hprinted : ∀ {client : Client D} {ctx : SessionCtx D}, Linked client ⟨false, ctx⟩ →
      (runtime H client last).1.auth? =
        if last.prints then some (ctx.measured.encode H) else none := by
    intro client ctx hlinked
    rw [(linked_step (H := H) hlast hlinked).1, linkExec_reply,
      report_cmdFinalize hlinked.ready.wellFormed]
  rw [(runtime H).run_append Client.start (past₁ ++ between),
    (runtime H).run_append Client.start (past₂ ++ between), hprinted hend₁, hprinted hend₂,
    htwin.measured_eq hclosed]

/-! ## Runs of a reliable TEE -/

def reliableHooks (es : List Event) : List Call := es.map fun e => .reliable (.hook e)

/-- The first hooks of a reliable run open the session and reach it one by one. -/
theorem linked_reliable (e : Event) (es : List Event) :
    ∃ handle, Linked ((runtime H).run Client.start (reliableHooks (e :: es)))
      ⟨false, Machine.run (SecureWorld.handle H)
        (cmdInit H (.ok handle) (taOpenSessionEntryPoint H)).2 (e :: es)⟩ := by
  have hcalls : ∀ call ∈ reliableHooks (e :: es),
      call.env.Succeeds ∧ call.isMeasurement = true := by
    intro call hcall
    rcases List.mem_map.1 hcall with ⟨_, _, rfl⟩
    exact ⟨Env.reliable_succeeds, rfl⟩
  have hactions : (reliableHooks (e :: es)).map Call.action = (e :: es).map .hook := by
    simp [reliableHooks, Call.reliable, Function.comp_def]
  have hmeasure : (Call.reliable (.hook e)).isMeasurement = true := rfl
  have hstart : (Client.start : Client D).initialized = false := rfl
  rcases step_uninitialized (H := H) hmeasure hstart with
    ⟨_, _, _, hcause⟩ | ⟨client', handle, heq, hlinked⟩
  · exact absurd Env.reliable_succeeds.opens (hcause (by simp [Call.reliable]))
  · refine ⟨handle, ?_⟩
    have hopened : Linked client' ⟨false, _⟩ := hlinked
    have hrun := (linked_run (H := H) (fun call hcall => (hcalls call hcall).2) hopened).2
    rw [(linkExec_hooks (H := H) hactions (fun call hcall => (hcalls call hcall).1) _).2] at hrun
    simpa only [reliableHooks, List.map_cons, Machine.run_cons, heq] using hrun

theorem prints_reliable {link : Link D} (h : Linked client link) :
    (runtime H client (.reliable .finalizeAndPrint)).1.auth? =
      some (cmdFinalize H link.ctx).2.report := by
  have hmeasure : (Call.reliable .finalizeAndPrint).isMeasurement = true := rfl
  rw [(linked_step (H := H) hmeasure h).1]
  exact linkExec_reply link (.reliable .finalizeAndPrint)

theorem endsPrinting_reliable (H : Sha256 D) (e : Event) (es : List Event) :
    EndsPrinting H (reliableHooks (e :: es) ++ [.reliable .finalizeAndPrint]) where
  measurement := by
    intro call hcall
    rcases List.mem_append.1 hcall with hhook | hlast
    · rcases List.mem_map.1 hhook with ⟨_, _, rfl⟩
      rfl
    · rcases List.mem_singleton.1 hlast with rfl
      rfl
  prints := by
    rcases linked_reliable (H := H) e es with ⟨handle, hlinked⟩
    exact ⟨_, _, _, rfl, prints_reliable hlinked⟩

theorem next_report_separated_twoPasts :
    let between : List Call := [.reliable (.hook (.callReturn 9))]
    let cycle : List Call := reliableHooks [.loopEnter 7, .loopExit 7]
    let after (e : Event) : Client (List UInt64) :=
      (runtime Sha256.free).run Client.start
        (reliableHooks [e] ++ [.reliable .finalizeAndPrint] ++ between ++ cycle)
    (runtime Sha256.free (after (.recordNode 1)) (.reliable .finalizeAndPrint)).1.auth? =
      (runtime Sha256.free (after (.recordNode 2)) (.reliable .finalizeAndPrint)).1.auth? := by
  intro between cycle after
  refine next_report_separated Sha256.free (endsPrinting_reliable _ (.recordNode 1) [])
    (endsPrinting_reliable _ (.recordNode 2) []) (by decide) ⟨⟨.loopEnter 7, rfl, rfl⟩, rfl⟩
    (by decide) rfl ?_ (by decide)
  have hhooks : cycle.map Call.action = [.loopEnter 7, .loopExit 7].map .hook := rfl
  exact attestations_hooks hhooks (started_run (by decide))

/-- The second of two finalisations of a cycle of one node. -/
theorem second_report (H : Sha256 D) (nodeId : UInt64) :
    (runtime H ((runtime H).run Client.start
      (reliableHooks [.recordNode nodeId] ++ [.reliable .finalizeAndPrint]))
        (.reliable .finalizeAndPrint)).1.auth? =
      some (Report.encode H ⟨H.digest H.zero nodeId, []⟩) := by
  rcases linked_reliable (H := H) (.recordNode nodeId) [] with ⟨handle, hlinked⟩
  have hmeasure : (Call.reliable .finalizeAndPrint).isMeasurement = true := rfl
  have hfirst := (linked_step (H := H) hmeasure hlinked).2
  rw [linkExec_finalize rfl Env.reliable_succeeds] at hfirst
  have hready := ready_finalize (H := H) hlinked.ready
  rw [Machine.run_append, Machine.run_cons, Machine.run_nil, prints_reliable hfirst,
    report_cmdFinalize hready.wellFormed]
  -- A CMD_FINALIZE leaves the hash and the records, so the second one reports the same.
  rfl

/-- Until the next forward hook a finalisation prints the old cycle again, so two runs that are
finalised twice print different second reports. -/
theorem report_repeats_old_cycle :
    ¬ ∀ (sha : List UInt8 → Digest) (past₁ past₂ after : List Call) (last : Call),
      EndsPrinting (Sha256.ofBytes sha) past₁ → EndsPrinting (Sha256.ofBytes sha) past₂ →
      (∀ call ∈ after ++ [last], call.isMeasurement = true) →
      (∀ past ∈ [past₁, past₂], attestations (Sha256.ofBytes sha)
        ((runtime (Sha256.ofBytes sha)).run Client.start past) after = []) →
      (runtime (Sha256.ofBytes sha)
          ((runtime (Sha256.ofBytes sha)).run Client.start (past₁ ++ after)) last).1.auth? =
        (runtime (Sha256.ofBytes sha)
          ((runtime (Sha256.ofBytes sha)).run Client.start (past₂ ++ after)) last).1.auth? := by
  intro h
  have hsame := h (fun bytes => Vector.replicate 32 (bytes.getD 32 0)) _ _ []
    (.reliable .finalizeAndPrint) (endsPrinting_reliable _ (.recordNode 1) [])
    (endsPrinting_reliable _ (.recordNode 2) []) (by decide) (by simp [attestations])
  rw [List.append_nil, List.append_nil, second_report, second_report, Option.some.injEq] at hsame
  have hhash := congrArg Report.finalHash (encode_injective Function.injective_id hsame)
  revert hhash
  decide

/-! ## Recovery -/

/-- A finalisation whose commands are both delivered ends a cycle, whatever went wrong before. -/
theorem boundary_of_prints {past : List Call} (hpast : ∀ call ∈ past, call.isMeasurement = true)
    {last : Call} (hlast : last.prints = true) :
    Boundary ((runtime H).run Client.start (past ++ [last])) := by
  rcases last with ⟨action, env⟩
  simp only [Call.prints, Bool.and_eq_true, beq_iff_eq] at hlast
  rcases hlast with ⟨⟨rfl, hcommand⟩, hgetAuth⟩
  rw [Machine.run_append, Machine.run_cons, Machine.run_nil]
  rcases started_run (H := H) hpast with ⟨hinit, hneeds⟩ | ⟨link, hlinked⟩
  · -- Without a session nothing happens.
    rw [runtime_uninitialized hinit (by simp)]
    exact .inl ⟨hinit, hneeds⟩
  · have hmeasure : (Call.mk .finalizeAndPrint env).isMeasurement = true := rfl
    have hstep := (linked_step (H := H) hmeasure hlinked).2
    simp only [linkExec, Link.finalize, hcommand, hgetAuth, arrives_delivered, if_true,
      and_self] at hstep
    exact .inr ⟨_, hstep⟩

/-- Whatever was lost, refused or left open before, one finalisation that goes through is enough:
from then on a TEE that serves every call gives the reports of fresh sessions, segment by
segment. -/
theorem reports_after_recovery (H : Sha256 D) {past : List Call}
    (hpast : ∀ call ∈ past, call.isMeasurement = true) {last : Call} (hlast : last.prints = true)
    (segments : List (List Event)) (hsegments : ∀ es ∈ segments, Segment es) (rest : List Event)
    (calls : List Call) (hcalls : calls.map Call.action = script segments rest)
    (henv : ∀ call ∈ calls, call.env.Succeeds) :
    attestations H ((runtime H).run Client.start (past ++ [last])) calls =
      segments.map fun es => sessionReport H (fromFirstForward es) :=
  (boundary_of_prints hpast hlast).script hsegments hcalls henv

/-- A past in which no session could be opened first, a loop was left open and a report was lost. -/
def troubledPast : List Call :=
  [⟨.hook (.recordNode 1), { Env.reliable with session := false }⟩,
    .reliable (.hook (.loopEnter 7)),
    ⟨.hook (.recordNode 2), { Env.reliable with command := .replyLost }⟩,
    ⟨.finalizeAndPrint, { Env.reliable with getAuth := .lost }⟩]

theorem reports_after_recovery_troubledPast :
    attestations Sha256.free
        ((runtime Sha256.free).run Client.start (troubledPast ++ [.reliable .finalizeAndPrint]))
        ((script [[.callReturn 4, .recordNode 3]] [.loopExit 7]).map Call.reliable) =
      [[.callReturn 4, .recordNode 3]].map fun es =>
        sessionReport Sha256.free (fromFirstForward es) := by
  have hpast : ∀ call ∈ troubledPast, call.isMeasurement = true := by decide
  refine reports_after_recovery Sha256.free hpast rfl _ ?_ [.loopExit 7] _ ?_ ?_
  · intro es hes
    rcases List.mem_singleton.1 hes with rfl
    exact ⟨⟨.recordNode 3, by simp, rfl⟩, by simp [Event.isForward],
      .leaf (.callReturn 4) (.leaf (.node 3) .nil), rfl⟩
  · simp [Call.reliable, Function.comp_def]
  · intro call hcall
    rcases List.mem_map.1 hcall with ⟨action, _, rfl⟩
    exact Env.reliable_succeeds

end Runtime
end CFlat
