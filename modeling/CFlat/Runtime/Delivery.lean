import CFlat.SecureWorld.Refusals
import CFlat.Runtime.Separation

/-!
# Delivery — which events a printed report accounts for

A hook does not look at what becomes of its command.  `printed_report_accounts` says what a printed
report shows all the same: it is the report of the commands that took effect in the session, in
order, and every event hook of the run is among them unless the session was not available, the
command was lost, or the trusted application refused it for a reason that `Refused` lists.
-/

namespace CFlat
namespace Runtime

open Lib SecureWorld

variable {D : Type} {H : Sha256 D} {client : Client D} {env : Env}

/-! ## What the session has received -/

/-- The command that a call asks for. -/
def TaCall.cmd? (call : TaCall) : Option Cmd := decode call.alloc call.cmdId call.op

/-- The commands that the session has executed, oldest first, with their results. -/
def Client.received (client : Client D) : List (Cmd × TeeResult) :=
  client.executed.reverse.filterMap fun entry => entry.1.cmd?.map (·, entry.2)

variable (H) in
/-- The session is what its commands, with their results, have made of a fresh one. -/
def Faithful (client : Client D) : Prop :=
  ∀ ctx, client.sess = some ctx →
    Logs H (taOpenSessionEntryPoint H) client.received ∧
      (exec H).run (taOpenSessionEntryPoint H) (client.received.map Prod.fst) = ctx

theorem received_of_executed {client' : Client D} {call : TaCall} {res : TeeResult}
    (h : client'.executed = (call, res) :: client.executed) :
    client'.received = client.received ++ (call.cmd?.map (·, res)).toList := by
  rw [Client.received, h, List.reverse_cons, List.filterMap_append]
  cases hcmd : call.cmd? <;> simp [Client.received, hcmd]

theorem Faithful.congr {client' : Client D} (h : Faithful H client)
    (hsess : client'.sess = client.sess) (hexecuted : client'.executed = client.executed) :
    Faithful H client' := by
  simpa only [Faithful, Client.received, hsess, hexecuted] using h

theorem logs_append {ctx : SessionCtx D} {log₁ log₂ : List (Cmd × TeeResult)} :
    Logs H ctx (log₁ ++ log₂) ↔
      Logs H ctx log₁ ∧ Logs H ((exec H).run ctx (log₁.map Prod.fst)) log₂ := by
  induction log₁ generalizing ctx with
  | nil => simp [Logs]
  | cons entry log ih =>
      rcases entry with ⟨cmd, res⟩
      simp [logs_cons, ih, and_assoc]

/-- The step lemma: a command that arrives is logged with its result. -/
theorem Faithful.invoke (h : Faithful H client) (tr : Transport) (call : TaCall) :
    Faithful H (teecInvokeCommand H tr call client).2 := by
  cases hsess : client.sess with
  | none =>
      intro ctx hctx
      simp [teecInvokeCommand, hsess] at hctx
  | some ctx =>
      have hinv := invoked_of_sess (H := H) tr call hsess
      rcases h ctx hsess with ⟨hlog, hrun⟩
      cases harrives : tr.arrives with
      | false =>
          have hs := hinv.sess
          have he := hinv.executed
          simp only [harrives, Bool.false_eq_true, if_false] at hs he
          exact h.congr (hs.trans hsess.symm) he
      | true =>
          have hs := hinv.sess
          have he := hinv.executed
          simp only [harrives, if_true] at hs he
          -- The dispatcher executes what it decodes; what it cannot decode changes nothing.
          have hdecode := dispatch_decode (H := H) call.alloc ctx call.cmdId call.op
          intro ctx' hctx'
          rcases Option.some.inj (hs.symm.trans hctx') with rfl
          rw [received_of_executed he]
          simp only [TaCall.cmd?]
          cases hcmd : decode call.alloc call.cmdId call.op with
          | none =>
              rw [hcmd] at hdecode
              have hsame := congrArg Prod.snd hdecode
              simp only [outcome, execDecoded] at hsame
              simpa [hsame] using ⟨hlog, hrun⟩
          | some cmd =>
              rw [hcmd] at hdecode
              have hres := congrArg Prod.fst hdecode
              have hnext := congrArg Prod.snd hdecode
              simp only [outcome, execDecoded] at hres hnext
              rw [Option.map_some, Option.toList_some, logs_append, hrun, List.map_append,
                Machine.run_append, hrun]
              refine ⟨⟨hlog, ?_⟩, hnext.symm⟩
              rw [hres]
              exact logs_cons.2 ⟨rfl, rfl⟩

theorem Faithful.ensureInit (h : Faithful H client) (env : Env) :
    Faithful H (Runtime.ensureInit H env client).2 := by
  have hopened : Faithful H
      { client with
        sess := some (taOpenSessionEntryPoint H)
        executed := []
        teecLog := .openSession true :: .initializeContext true :: client.teecLog } := by
    intro ctx hctx
    rcases Option.some.inj hctx with rfl
    exact ⟨rfl, rfl⟩
  have hinvoked := hopened.invoke env.init ⟨env.initAlloc, commandInit, emptyOperation⟩
  simp only [Runtime.ensureInit]
  split
  · exact h
  split
  · exact h.congr rfl rfl
  split
  · exact h.congr rfl rfl
  split
  · exact hinvoked
  · exact hinvoked.congr rfl rfl

theorem Faithful.maybeReinit (h : Faithful H client) (env : Env) :
    Faithful H (Runtime.maybeReinit H env client) := by
  simp only [Runtime.maybeReinit]
  split
  · exact h
  · exact (h.invoke env.reinit ⟨env.reinitAlloc, commandInit, emptyOperation⟩).congr rfl rfl

theorem Faithful.step (h : Faithful H client) (call : Call) :
    Faithful H (runtime H client call).2 := by
  rcases call with ⟨action, env⟩
  cases action with
  | hook e =>
      have hopened := h.ensureInit env
      simp only [runtime, hook_eq, invokeHook]
      generalize Runtime.ensureInit H env client = out at hopened
      rcases out with ⟨failure, client'⟩
      cases failure with
      | some out => exact hopened
      | none =>
          refine Faithful.invoke ?_ env.command _
          split
          · exact Faithful.maybeReinit hopened env
          · exact hopened
  | finalizeAndPrint =>
      have hfinalized := h.invoke env.command
        ⟨env.reinitAlloc, commandFinalize, emptyOperation⟩
      have hfetched := hfinalized.invoke env.getAuth
        ⟨env.reinitAlloc, commandGetAuth, memrefOperation authBuffer⟩
      simp only [runtime, cflatFinalizeAndPrint]
      split
      · exact h
      split
      · exact hfinalized
      split
      · exact hfetched
      · exact hfetched.congr rfl rfl
  | cleanup =>
      simp only [runtime, cflatCleanup]
      split
      -- The destructor closes the session.
      · intro ctx hctx
        cases hctx
      · exact h

/-- The run lemma: at every moment the session is what it has received. -/
theorem faithful_run (H : Sha256 D) (calls : List Call) :
    Faithful H ((runtime H).run Client.start calls) :=
  (runtime H).run_invariant (I := Faithful H) (P := fun _ => True)
    (fun _ call _ h => h.step call) (fun _ hctx => by cases hctx) calls (fun _ _ => trivial)

/-! ## Nothing received is forgotten -/

/-- The client has received more. -/
def Extends (client client' : Client D) : Prop :=
  ∃ later, client'.received = client.received ++ later

theorem Extends.refl (client : Client D) : Extends client client := ⟨[], by simp⟩

theorem Extends.trans {client₁ client₂ client₃ : Client D} (h : Extends client₁ client₂)
    (h' : Extends client₂ client₃) : Extends client₁ client₃ := by
  rcases h with ⟨later, hlater⟩
  rcases h' with ⟨later', hlater'⟩
  exact ⟨later ++ later', by rw [hlater', hlater, List.append_assoc]⟩

theorem extends_of_executed {client' : Client D} (h : client'.executed = client.executed) :
    Extends client client' := ⟨[], by rw [Client.received, h, List.append_nil]; rfl⟩

theorem extends_invoke (tr : Transport) (call : TaCall) (client : Client D) :
    Extends client (teecInvokeCommand H tr call client).2 := by
  cases hsess : client.sess with
  | none => exact extends_of_executed (by simp [teecInvokeCommand, hsess])
  | some ctx =>
      have he := (invoked_of_sess (H := H) tr call hsess).executed
      cases harrives : tr.arrives with
      | false => exact extends_of_executed (by simpa [harrives] using he)
      | true =>
          simp only [harrives, if_true] at he
          exact ⟨_, received_of_executed he⟩

theorem extends_maybeReinit (env : Env) (client : Client D) :
    Extends client (maybeReinit H env client) := by
  simp only [maybeReinit]
  split
  · exact .refl client
  · exact (extends_invoke env.reinit ⟨env.reinitAlloc, commandInit, emptyOperation⟩ client).trans
      (extends_of_executed rfl)

/-- A hook of an initialised runtime: its event comes last, if it arrives. -/
theorem extends_hook {link : Link D} (h : Linked client link) (e : Event) (env : Env) :
    Extends client (hook H e env client).2 ∧
      (env.command.arrives = true → ∃ earlier res,
        (hook H e env client).2.received = earlier ++ [(.event e, res)]) := by
  have hprepared : Extends client
      (if e.isForward then maybeReinit H env client else client) ∧
        Linked (if e.isForward then maybeReinit H env client else client)
          (link.prepare H e env) := by
    simp only [Link.prepare]
    split
    · exact ⟨extends_maybeReinit env client, maybeReinit_linked env h⟩
    · exact ⟨.refl client, h⟩
  rcases hprepared with ⟨hextends, hlinked⟩
  simp only [hook_eq, invokeHook, ensureInit_initialized env h.initialized]
  refine ⟨hextends.trans (extends_invoke ..), ?_⟩
  intro harrives
  have hinv := (invoked_of_sess (H := H) env.command
    ⟨env.reinitAlloc, eventCommand e, eventOperation e⟩ hlinked.sess).executed
  simp only [harrives, if_true] at hinv
  have hlog := received_of_executed hinv
  rw [TaCall.cmd?, decode_eventOperation, Option.map_some, Option.toList_some] at hlog
  exact ⟨_, _, hlog⟩

theorem extends_finalize (env : Env) (client : Client D) :
    Extends client (cflatFinalizeAndPrint H env client).2 := by
  have hfinalized := extends_invoke (H := H) env.command
    ⟨env.reinitAlloc, commandFinalize, emptyOperation⟩ client
  simp only [cflatFinalizeAndPrint]
  split
  · exact .refl client
  split
  · exact hfinalized
  split
  · exact hfinalized.trans (extends_invoke ..)
  · exact hfinalized.trans ((extends_invoke ..).trans (extends_of_executed rfl))

/-- The run lemma: an open session stays open and keeps its log. -/
theorem extends_run {link : Link D} {calls : List Call}
    (hcalls : ∀ call ∈ calls, call.isMeasurement = true) (h : Linked client link) :
    Extends client ((runtime H).run client calls) := by
  induction calls generalizing client link with
  | nil => exact .refl client
  | cons call calls ih =>
      have hcall := hcalls call (by simp)
      have hrest := ih (fun call' hcall' => hcalls call' (by simp [hcall']))
        (linked_step (H := H) hcall h).2
      refine Extends.trans ?_ hrest
      rcases call with ⟨action, env⟩
      cases action with
      | hook e => exact (extends_hook h e env).1
      | finalizeAndPrint => exact extends_finalize env client
      | cleanup => cases hcall

/-! ## What a printed report accounts for -/

/-- A report is printed only with an open session, and it is the session's own. -/
theorem printed_linked (h : Started client) {last : Call} (hlast : last.isMeasurement = true)
    {auth : List UInt8} (hprints : (runtime H client last).1.auth? = some auth) :
    ∃ link : Link D, Linked client link ∧ auth = (cmdFinalize H link.ctx).2.report := by
  rcases h with ⟨hinit, hneeds⟩ | ⟨link, hlinked⟩
  · rcases last with ⟨action, env⟩
    cases action with
    | hook e =>
        have haction : (⟨.hook e, env⟩ : Call).action = .hook e := rfl
        rw [hook_quiet (.inl ⟨hinit, hneeds⟩) haction] at hprints
        cases hprints
    | finalizeAndPrint => simp [runtime, cflatFinalizeAndPrint, hinit, Output.auth?] at hprints
    | cleanup => cases hlast
  · rw [(linked_step (H := H) hlast hlinked).1, linkExec_reply] at hprints
    split at hprints
    · exact ⟨link, hlinked, (Option.some.inj hprints).symm⟩
    · cases hprints

/-- The session as its first commands have left it. -/
def sessionAfter (H : Sha256 D) (log : List (Cmd × TeeResult)) : SessionCtx D :=
  (exec H).run (taOpenSessionEntryPoint H) (log.map Prod.fst)

/-- The last event of a faithful log succeeded, or was refused by an initialised session. -/
theorem Faithful.last_event (h : Faithful H client) {link : Link D} (hlinked : Linked client link)
    {earlier : List (Cmd × TeeResult)} {e : Event} {res : TeeResult}
    (hreceived : client.received = earlier ++ [(.event e, res)]) :
    res = .success ∨ (sessionAfter H earlier).isInitialized = true ∧
      Refused (sessionAfter H earlier) e res := by
  rcases h link.ctx hlinked.sess with ⟨hlog, hrun⟩
  rw [hreceived, logs_append] at hlog
  rw [hreceived, List.map_append, Machine.run_append] at hrun
  rcases logs_cons.1 hlog.2 with ⟨hres, _⟩
  have hwf : WellFormed (sessionAfter H earlier) := wellFormed_run wellFormed_open _
  rcases handle_case (H := H) hwf e with hsuccess | ⟨hrefused, hsame⟩
  · exact .inl (hres.symm.trans hsuccess)
  · right
    have hctx : sessionAfter H earlier = link.ctx := hsame.symm.trans hrun
    refine ⟨?_, hres ▸ hrefused⟩
    rw [hctx]
    exact hlinked.ready.initialized

variable (H) in
/-- What became of the event of a hook called after `before`, in a run that ends in `final`. -/
inductive Fate (before : List Call) (e : Event) (env : Env) (final : Client D) : Prop
  | unavailable (hclosed : ((runtime H).run Client.start before).initialized = false)
      (h : ¬ env.Opens)
  | lost (h : env.command = .lost)
  | executed {earlier later : List (Cmd × TeeResult)} {res : TeeResult}
      (hnow : ((runtime H).run Client.start (before ++ [⟨.hook e, env⟩])).received =
        earlier ++ [(.event e, res)])
      (hfinal : final.received = earlier ++ (.event e, res) :: later)
      (hresult : res = .success ∨ (sessionAfter H earlier).isInitialized = true ∧
        Refused (sessionAfter H earlier) e res)

theorem fate_hook {before after : List Call} {e : Event} {env : Env}
    (hcalls : ∀ call ∈ before ++ ⟨.hook e, env⟩ :: after, call.isMeasurement = true) :
    Fate H before e env ((runtime H).run Client.start (before ++ ⟨.hook e, env⟩ :: after)) := by
  have hbefore : ∀ call ∈ before, call.isMeasurement = true :=
    fun call hcall => hcalls call (List.mem_append_left _ hcall)
  have hafter : ∀ call ∈ after, call.isMeasurement = true :=
    fun call hcall => hcalls call (by simp [hcall])
  have hhook : (⟨.hook e, env⟩ : Call).isMeasurement = true := rfl
  by_cases hlost : env.command = .lost
  · exact .lost hlost
  have harrives : env.command.arrives = true := by
    cases hcommand : env.command with
    | delivered => rfl
    | replyLost => rfl
    | lost => exact absurd hcommand hlost
  cases (started_run (H := H) hbefore).step_case (H := H) hhook with
  | dormant closed _ _ _ cause => exact .unavailable closed (cause (by simp))
  | @acts client' link linked same =>
      have hnow : (runtime H).run Client.start (before ++ [⟨.hook e, env⟩]) =
          (runtime H client' ⟨.hook e, env⟩).2 := by
        rw [Machine.run_append, Machine.run_cons, Machine.run_nil, same]
      have hfaithful := faithful_run H (before ++ [⟨.hook e, env⟩])
      have hafterLinked := (linked_step (H := H) hhook linked).2
      -- The event comes last in the log now, and the log only grows from here on.
      rcases (extends_hook (H := H) linked e env).2 harrives with ⟨earlier, res, hreceived⟩
      rcases extends_run (H := H) hafter hafterLinked with ⟨later, hlater⟩
      have hreceived' : (runtime H client' ⟨.hook e, env⟩).2.received =
          earlier ++ [(.event e, res)] := hreceived
      rw [hreceived', List.append_assoc, List.singleton_append] at hlater
      rw [← hnow] at hafterLinked hreceived'
      have hfinal : ((runtime H).run Client.start (before ++ ⟨.hook e, env⟩ :: after)).received =
          earlier ++ (.event e, res) :: later := by
        rw [Machine.run_append, Machine.run_cons, same]
        exact hlater
      exact .executed hreceived' hfinal (hfaithful.last_event hafterLinked hreceived')

/-- A printed report is that of the commands that took effect in the session, in their order, and
the event of every hook of the run is accounted for. -/
theorem printed_report_accounts (H : Sha256 D) {calls : List Call} {last : Call}
    (hcalls : ∀ call ∈ calls, call.isMeasurement = true) (hlast : last.isMeasurement = true)
    {auth : List UInt8}
    (hprints : (runtime H ((runtime H).run Client.start calls) last).1.auth? = some auth) :
    auth = ((exec H).run (taOpenSessionEntryPoint H)
        (accepted ((runtime H).run Client.start calls).received ++ [.finalize])).report ∧
      ∀ before e env after, calls = before ++ ⟨.hook e, env⟩ :: after →
        Fate H before e env ((runtime H).run Client.start calls) := by
  constructor
  · rcases printed_linked (started_run hcalls) hlast hprints with ⟨link, hlinked, rfl⟩
    rcases faithful_run H calls link.ctx hlinked.sess with ⟨hlog, hrun⟩
    have haccepted := run_accepted wellFormed_open hlog
    calc
      (cmdFinalize H link.ctx).2.report
          = ((exec H).run link.ctx [.finalize]).report := rfl
      _ = ((exec H).run (taOpenSessionEntryPoint H)
            (accepted ((runtime H).run Client.start calls).received ++ [.finalize])).report := by
            rw [Machine.run_append, haccepted, hrun]
  · rintro before e env after rfl
    exact fate_hook hcalls

/-- Thirty-three nested calls: the last one does not fit the call stack. -/
def deepCalls : List Event := List.replicate 33 (.callEnter 1 2)

theorem linked_deepCalls :
    ∃ link, Linked ((runtime Sha256.free).run Client.start (reliableHooks deepCalls)) link := by
  obtain ⟨handle, hlinked⟩ := linked_reliable (H := Sha256.free) (.callEnter 1 2)
    (List.replicate 32 (.callEnter 1 2))
  exact ⟨_, hlinked⟩

theorem printed_report_accounts_deepCalls :
    ∃ auth : List UInt8, auth = ((exec Sha256.free).run (taOpenSessionEntryPoint Sha256.free)
        (accepted ((runtime Sha256.free).run Client.start (reliableHooks deepCalls)).received ++
          [.finalize])).report ∧
      ∀ before e env after, reliableHooks deepCalls = before ++ ⟨.hook e, env⟩ :: after →
        Fate Sha256.free before e env
          ((runtime Sha256.free).run Client.start (reliableHooks deepCalls)) := by
  rcases linked_deepCalls with ⟨link, hlinked⟩
  exact ⟨_, printed_report_accounts Sha256.free (by decide) rfl (prints_reliable hlinked)⟩

/-- A report is printed although a call was refused and is missing from it. -/
theorem report_printed_after_refused_call :
    ¬ ∀ (D : Type) (H : Sha256 D) (calls : List Call) (last : Call) (auth : List UInt8),
      (∀ call ∈ calls ++ [last], call.isMeasurement = true) →
      (runtime H ((runtime H).run Client.start calls) last).1.auth? = some auth →
      ∀ before e env after, calls = before ++ ⟨.hook e, env⟩ :: after →
        attestations H ((runtime H).run Client.start (before ++ [⟨.hook e, env⟩])) after = [] →
        ∃ earlier, ((runtime H).run Client.start (before ++ [⟨.hook e, env⟩])).received =
          earlier ++ [(.event e, .success)] := by
  intro h
  rcases linked_deepCalls with ⟨link, hlinked⟩
  obtain ⟨earlier, hlog⟩ := h _ Sha256.free (reliableHooks deepCalls)
    (.reliable .finalizeAndPrint) _ (by decide) (prints_reliable hlinked)
    (reliableHooks (List.replicate 32 (.callEnter 1 2))) (.callEnter 1 2) .reliable [] rfl rfl
  have hlast := congrArg List.getLast? hlog
  rw [List.getLast?_concat] at hlast
  revert hlast
  decide +kernel

end Runtime
end CFlat
