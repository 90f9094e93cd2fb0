import CFlat.Runtime.Lifecycle
import CFlat.Runtime.Returns

/-!
# Switches — the world-switch count of a run

Every `TEEC_InvokeCommand` of `libcflat.c` has its `world_switch_count++` right behind it, also on
the paths that give up on the reply.  `worldSwitches_exact` says that the counter is the number of
these calls, whatever fails, and what that number is when nothing does.
-/

namespace CFlat
namespace Runtime

open Lib SecureWorld

variable {D : Type} {H : Sha256 D} {client : Client D}

/-! ## Counting calls -/

def TeecCall.isInvoke : TeecCall → Bool
  | .invokeCommand _ => true
  | _ => false

/-- The number of `TEEC_InvokeCommand` calls. -/
def invokeCount (log : List TeecCall) : Nat := log.countP TeecCall.isInvoke

@[simp] theorem invokeCount_issue (cmdIds : List UInt32) (log : List TeecCall) :
    invokeCount (issue cmdIds log) = invokeCount log + cmdIds.length := by
  have hcmds : (cmdIds.map TeecCall.invokeCommand).countP TeecCall.isInvoke = cmdIds.length := by
    rw [List.countP_map]
    exact List.countP_eq_length.2 (fun _ _ => rfl)
  rw [invokeCount, issue, List.countP_append, hcmds, Nat.add_comm]
  rfl

/-- The hooks among these actions. -/
def hooks (actions : List Action) : Nat :=
  actions.countP fun
    | .hook _ => true
    | _ => false

/-- The finalisations among these actions. -/
def finalizes (actions : List Action) : Nat := actions.count .finalizeAndPrint

@[simp] theorem hooks_cons_hook (e : Event) (actions : List Action) :
    hooks (.hook e :: actions) = hooks actions + 1 := by
  simp [hooks]

@[simp] theorem hooks_cons_finalize (actions : List Action) :
    hooks (.finalizeAndPrint :: actions) = hooks actions := by
  simp [hooks]

@[simp] theorem finalizes_cons_hook (e : Event) (actions : List Action) :
    finalizes (.hook e :: actions) = finalizes actions := by
  simp [finalizes]

@[simp] theorem finalizes_cons_finalize (actions : List Action) :
    finalizes (.finalizeAndPrint :: actions) = finalizes actions + 1 := by
  simp [finalizes]

/-- A finalisation has occurred, and no forward hook since the last one. -/
def Due (history : List Action) : Prop :=
  ∃ before between, history = before ++ .finalizeAndPrint :: between ∧
    .finalizeAndPrint ∉ between ∧ ∀ e, .hook e ∈ between → e.isForward = false

/-! ## The counter and the calls -/

/-- `world_switch_count` is the number of `TEEC_InvokeCommand` calls, as a `uint32_t`. -/
def SwitchesCounted (client : Client D) : Prop :=
  client.worldSwitchCount = UInt32.ofNat (invokeCount client.teecLog)

theorem switchesCounted_start : SwitchesCounted (Client.start : Client D) := rfl

/-- The counter and the log after one more command. -/
theorem teecInvokeCommand_counts (tr : Transport) (call : TaCall) (client : Client D) :
    (teecInvokeCommand H tr call client).2.worldSwitchCount = client.worldSwitchCount + 1 ∧
      invokeCount (teecInvokeCommand H tr call client).2.teecLog =
        invokeCount client.teecLog + 1 := by
  refine ⟨?_, ?_⟩
  · unfold teecInvokeCommand
    cases client.sess with
    | none => rfl
    | some ctx => cases tr <;> rfl
  · rw [(teecInvokeCommand_log (H := H) tr call client).1, invokeCount_issue]
    rfl

theorem SwitchesCounted.invoke (h : SwitchesCounted client) (tr : Transport) (call : TaCall) :
    SwitchesCounted (teecInvokeCommand H tr call client).2 := by
  rcases teecInvokeCommand_counts (H := H) tr call client with ⟨hcount, hlog⟩
  rw [SwitchesCounted, hcount, hlog, h, UInt32.ofNat_add]
  rfl

theorem SwitchesCounted.ensureInit (h : SwitchesCounted client) (env : Env) :
    SwitchesCounted (ensureInit H env client).2 := by
  unfold Runtime.ensureInit
  split
  · exact h
  split
  · exact h
  split
  · exact h
  -- The CMD_INIT of a session that has just been opened.
  have hsession : SwitchesCounted
      { client with
        sess := some (taOpenSessionEntryPoint H)
        executed := []
        teecLog := .openSession true :: .initializeContext true :: client.teecLog } := h
  have hopened := SwitchesCounted.invoke (H := H) hsession env.init
    ⟨env.initAlloc, commandInit, emptyOperation⟩
  simp only
  split
  · exact hopened
  · exact hopened

theorem SwitchesCounted.maybeReinit (h : SwitchesCounted client) (env : Env) :
    SwitchesCounted (maybeReinit H env client) := by
  unfold Runtime.maybeReinit
  split
  · exact h
  · exact h.invoke env.reinit ⟨env.reinitAlloc, commandInit, emptyOperation⟩

theorem SwitchesCounted.hook (h : SwitchesCounted client) (e : Event) (env : Env) :
    SwitchesCounted (hook H e env client).2 := by
  have hensured := h.ensureInit (H := H) env
  rw [hook_eq, invokeHook]
  generalize Runtime.ensureInit H env client = out at hensured ⊢
  rcases out with ⟨failed, client'⟩
  cases failed with
  | some out => exact hensured
  | none =>
      have hprepared : SwitchesCounted
          (if e.isForward then Runtime.maybeReinit H env client' else client') := by
        split
        · exact SwitchesCounted.maybeReinit hensured env
        · exact hensured
      exact hprepared.invoke env.command _

theorem SwitchesCounted.finalize (h : SwitchesCounted client) (env : Env) :
    SwitchesCounted (cflatFinalizeAndPrint H env client).2 := by
  unfold cflatFinalizeAndPrint
  split
  · exact h
  have hfin := h.invoke (H := H) env.command ⟨env.reinitAlloc, commandFinalize, emptyOperation⟩
  have hget := hfin.invoke (H := H) env.getAuth
    ⟨env.reinitAlloc, commandGetAuth, memrefOperation authBuffer⟩
  simp only
  split
  · exact hfin
  split
  · exact hget
  · exact hget

theorem SwitchesCounted.step (h : SwitchesCounted client) (call : Call) :
    SwitchesCounted (runtime H client call).2 := by
  rcases call with ⟨action, env⟩
  cases action with
  | hook e => exact h.hook e env
  | finalizeAndPrint => exact h.finalize env
  | cleanup =>
      simp only [runtime, cflatCleanup]
      split
      · exact h
      · exact h

theorem SwitchesCounted.run (h : SwitchesCounted client) (calls : List Call) :
    SwitchesCounted ((runtime H).run client calls) :=
  (runtime H).run_invariant (I := SwitchesCounted) (P := fun _ => True)
    (fun _ call _ h => SwitchesCounted.step h call) h calls (fun _ _ => trivial)

theorem ensureInit_quiet {env : Env} {client : Client D} {out : Output}
    (h : (ensureInit H env client).1 = some out) : out.auth? = none := by
  cases hinit : client.initialized with
  | true => simp [ensureInit, hinit] at h
  | false =>
      have hcase := ensureInit_case (H := H) client env hinit
      generalize ensureInit H env client = out' at hcase h
      cases hcase with
      | failed cause quiet =>
          rcases Option.some.inj h with rfl
          exact quiet
      | opened => cases h

/-- The number that a report prints is the counter at that moment. -/
theorem printed_worldSwitches {call : Call} {auth : List UInt8} {worldSwitches : UInt32}
    (h : (runtime H client call).1 = .attestation auth worldSwitches) :
    worldSwitches = (runtime H client call).2.worldSwitchCount := by
  rcases call with ⟨action, env⟩
  cases action with
  | hook e =>
      simp only [runtime, hook_eq, invokeHook] at h
      split at h
      · rename_i out client' hout
        -- A hook that could not be initialised prints a message.
        have hquiet : out.auth? = none := ensureInit_quiet (congrArg Prod.fst hout)
        obtain rfl : out = .attestation auth worldSwitches := h
        cases hquiet
      · cases h
  | finalizeAndPrint =>
      simp only [runtime, cflatFinalizeAndPrint] at h ⊢
      split at h
      · cases h
      split at h
      · cases h
      split at h
      · cases h
      · cases h
        simp [*]
  | cleanup => cases h

/-! ## Restarts -/

/-- Where the last element of an extended list stands in a split of it. -/
theorem concat_eq_split {α : Type*} {history before between : List α} {a x : α}
    (h : history ++ [a] = before ++ x :: between) :
    (between = [] ∧ a = x) ∨ ∃ between', between = between' ++ [a] ∧
      history = before ++ x :: between' := by
  rcases List.eq_nil_or_concat between with rfl | ⟨between', y, rfl⟩
  · exact Or.inl ⟨rfl, List.singleton_inj.1 (List.append_inj' h rfl).2⟩
  · rw [List.concat_eq_append, ← List.cons_append, ← List.append_assoc] at h
    rcases List.append_inj' h rfl with ⟨hhistory, hlast⟩
    obtain rfl : a = y := List.singleton_inj.1 hlast
    exact Or.inr ⟨between', List.concat_eq_append, hhistory⟩

theorem not_due_nil : ¬ Due [] := by
  rintro ⟨before, between, hsplit, _⟩
  simp at hsplit

theorem due_finalize (history : List Action) : Due (history ++ [.finalizeAndPrint]) :=
  ⟨history, [], rfl, by simp, by simp⟩

/-- An action behind which a restart stays due: no forward hook and no finalisation. -/
theorem due_append {history : List Action} {action : Action} (hlast : action ≠ .finalizeAndPrint) :
    Due (history ++ [action]) ↔ Due history ∧ ∀ e, action = .hook e → e.isForward = false := by
  constructor
  · rintro ⟨before, between, hsplit, hnone, hback⟩
    rcases concat_eq_split hsplit with ⟨_, hfinal⟩ | ⟨between', rfl, hhistory⟩
    · exact absurd hfinal hlast
    · refine ⟨⟨before, between', hhistory, ?_, ?_⟩, ?_⟩
      · exact fun hmem => hnone (by simp [hmem])
      · exact fun e hmem => hback e (by simp [hmem])
      · rintro e rfl
        exact hback e (by simp)
  · rintro ⟨⟨before, between, rfl, hnone, hback⟩, hact⟩
    refine ⟨before, between ++ [action], by simp, ?_, ?_⟩
    · simp [hnone, hlast.symm]
    · intro e hmem
      rcases List.mem_append.1 hmem with hold | hnew
      · exact hback e hold
      · exact hact e (List.mem_singleton.1 hnew).symm

/-- The cycle status of an initialised runtime knows whether a restart is due. -/
theorem pending_iff_due (history : List Action) :
    (history.foldl CycleStatus.next ⟨true, false, 0⟩).started = true ∧
      ((history.foldl CycleStatus.next ⟨true, false, 0⟩).pending = true ↔ Due history) := by
  induction history using List.reverseRecOn with
  | nil => exact ⟨rfl, iff_of_false (by simp) not_due_nil⟩
  | append_singleton history action ih =>
      rcases ih with ⟨hstarted, hpending⟩
      rw [List.foldl_append, List.foldl_cons, List.foldl_nil]
      refine ⟨started_next hstarted action, ?_⟩
      cases action with
      | finalizeAndPrint => exact iff_of_true hstarted (due_finalize history)
      | hook e =>
          rw [due_append (by simp), ← hpending]
          simp [CycleStatus.next]
      | cleanup =>
          rw [due_append (by simp), ← hpending]
          simp [CycleStatus.next]

instance (history : List Action) : Decidable (Due history) :=
  decidable_of_iff _ (pending_iff_due history).2

/-- The number of forward hooks among these actions for which a restart is due, given the actions
before them. -/
def restarts (history : List Action) : List Action → Nat
  | [] => 0
  | .hook e :: rest =>
      (if e.isForward ∧ Due history then 1 else 0) + restarts (history ++ [.hook e]) rest
  | action :: rest => restarts (history ++ [action]) rest

/-! ## Runs without failures -/

theorem maybeReinit_switches (env : Env) (client : Client D) :
    invokeCount (maybeReinit H env client).teecLog =
      invokeCount client.teecLog + if client.needsReinit then 1 else 0 := by
  cases hneeds : client.needsReinit with
  | false => simp [maybeReinit, hneeds]
  | true =>
      have hinvoke := (teecInvokeCommand_counts (H := H) env.reinit
        ⟨env.reinitAlloc, commandInit, emptyOperation⟩ client).2
      simpa [maybeReinit, hneeds] using hinvoke

/-- A hook issues its command, behind the pending CMD_INIT if it sends one. -/
theorem hook_switches {link : Link D} (e : Event) (env : Env) (h : Linked client link) :
    invokeCount (hook H e env client).2.teecLog =
      invokeCount client.teecLog + (1 + if e.isForward ∧ link.pending = true then 1 else 0) := by
  rw [hook_eq]
  simp only [invokeHook, ensureInit_initialized env h.initialized]
  rw [(teecInvokeCommand_counts _ _ _).2]
  cases he : e.isForward with
  | false => simp
  | true =>
      simp only [if_true, maybeReinit_switches, h.needsReinit, true_and]
      split <;> rfl

/-- A finalisation that succeeds issues two commands. -/
theorem finalize_switches {link : Link D} {env : Env} (h : Linked client link)
    (henv : env.Succeeds) :
    invokeCount (cflatFinalizeAndPrint H env client).2.teecLog =
      invokeCount client.teecLog + 2 := by
  have hfin := invoked_of_sess (H := H) .delivered
    ⟨env.reinitAlloc, commandFinalize, emptyOperation⟩ h.sess
  have hcount := (teecInvokeCommand_counts (H := H) .delivered
    ⟨env.reinitAlloc, commandFinalize, emptyOperation⟩ client).2
  rw [dispatch_finalize] at hfin
  simp only [cflatFinalizeAndPrint, h.initialized, henv.command, Bool.not_true,
    Bool.false_eq_true, if_false]
  generalize teecInvokeCommand H .delivered _ client = fin at hfin hcount ⊢
  rcases fin with ⟨⟨res, params⟩, client₁⟩
  obtain rfl : res = some .success := hfin.result
  have hget := (teecInvokeCommand_counts (H := H) env.getAuth
    ⟨env.reinitAlloc, commandGetAuth, memrefOperation authBuffer⟩ client₁).2
  simp only [ne_eq, not_true_eq_false, if_false]
  split
  · rw [hget, hcount]
  · rw [hget, hcount]

/-- The run lemma: from an initialised runtime, each hook counts once, each finalisation twice, and
each restart once more. -/
theorem Tracks.switches {calls : List Call} (hcalls : ∀ call ∈ calls, call.Serves) :
    ∀ {client : Client D} {history : List Action},
      Tracks client (history.foldl CycleStatus.next ⟨true, false, 0⟩) →
        invokeCount ((runtime H).run client calls).teecLog =
          invokeCount client.teecLog + (hooks (calls.map Call.action) +
            2 * finalizes (calls.map Call.action) +
            restarts history (calls.map Call.action)) := by
  induction calls with
  | nil => exact fun _ => rfl
  | cons call calls ih =>
      intro client history h
      have hcall := hcalls call (by simp)
      rcases pending_iff_due history with ⟨hstarted, hdue⟩
      rcases h.linked hstarted with ⟨ctx, hlinked⟩
      have hstep : Tracks (runtime H client call).2
          ((history ++ [call.action]).foldl CycleStatus.next ⟨true, false, 0⟩) := by
        simpa using h.step (H := H) hcall.measures hcall.succeeds
      have hrest := ih (fun c hc => hcalls c (by simp [hc])) hstep
      rw [Machine.run_cons, hrest]
      rcases call with ⟨action, env⟩
      cases action with
      | hook e =>
          have hhook := hook_switches (H := H) e env hlinked
          simp only [hdue] at hhook
          simp only [runtime, hhook, List.map_cons, hooks_cons_hook, finalizes_cons_hook, restarts]
          omega
      | finalizeAndPrint =>
          have hfin := finalize_switches (H := H) hlinked hcall.succeeds
          simp only [runtime, hfin, List.map_cons, hooks_cons_finalize, finalizes_cons_finalize,
            restarts]
          omega
      | cleanup => exact absurd hcall.measures (by simp [Call.isMeasurement])

/-- The first hook opens the session with one command and counts like any other. -/
theorem first_hook_switches {e : Event} {env : Env} (henv : env.Succeeds) :
    invokeCount (runtime H .start ⟨.hook e, env⟩).2.teecLog = 2 := by
  have hcase := ensureInit_case (H := H) .start env rfl
  have hstart : (Client.start : Client D).initialized = false := rfl
  have hlog := (ensureInit_log (H := H) env hstart).1
  generalize hout : ensureInit H env .start = out at hcase hlog
  cases hcase with
  | failed cause => exact absurd henv.opens cause
  | @opened client' handle opens linked =>
      have hopening : invokeCount client'.teecLog = 1 := by
        rw [hlog, initLog, opens.context, opens.session]
        rfl
      have hcount := hook_switches (H := H) e env linked
      simp only [runtime, hook_of_ensureInit e hout linked.initialized, hcount, hopening]
      simp [Client.start]

variable (H) in
/-- What the counter says about a run from program start. -/
structure SwitchesExact (calls : List Call) : Prop where
  /-- Whatever fails, the counter is the number of `TEEC_InvokeCommand` calls. -/
  counted : ((runtime H).run .start calls).worldSwitchCount =
    UInt32.ofNat (invokeCount ((runtime H).run .start calls).teecLog)
  /-- A report prints the counter. -/
  printed : ∀ auth worldSwitches,
    ((runtime H).replies .start calls).getLast? = some (.attestation auth worldSwitches) →
      worldSwitches = ((runtime H).run .start calls).worldSwitchCount
  /-- When nothing fails, the number is given by the actions alone. -/
  closed : (∀ call ∈ calls, call.Serves) → ∀ e rest, calls.map Call.action = .hook e :: rest →
    invokeCount ((runtime H).run .start calls).teecLog =
      1 + hooks (calls.map Call.action) + 2 * finalizes (calls.map Call.action) +
        restarts [] (calls.map Call.action)

theorem printed_last (calls : List Call) {auth : List UInt8} {worldSwitches : UInt32} :
    ∀ {client : Client D},
      ((runtime H).replies client calls).getLast? = some (.attestation auth worldSwitches) →
        worldSwitches = ((runtime H).run client calls).worldSwitchCount := by
  induction calls with
  | nil =>
      intro client h
      cases h
  | cons call calls ih =>
      intro client h
      cases calls with
      | nil => exact printed_worldSwitches (Option.some.inj h)
      | cons call' calls =>
          rw [Machine.replies_cons, Machine.replies_cons, List.getLast?_cons_cons] at h
          exact ih h

/-- The world-switch count of every run is exact. -/
theorem worldSwitches_exact (H : Sha256 D) (calls : List Call) : SwitchesExact H calls where
  counted := switchesCounted_start.run calls
  printed := fun _ _ h => printed_last calls h
  closed := by
    intro hcalls e rest hfirst
    obtain ⟨env, calls, rfl, hrest⟩ : ∃ env calls', calls = ⟨.hook e, env⟩ :: calls' ∧
        calls'.map Call.action = rest := by
      rcases List.map_eq_cons_iff.1 hfirst with ⟨call, calls', rfl, haction, hrest⟩
      rcases call with ⟨action, env⟩
      cases haction
      exact ⟨env, calls', rfl, hrest⟩
    have hcall := hcalls ⟨.hook e, env⟩ (by simp)
    -- Behind the first hook the status is that of a runtime that was initialised all along.
    have htracks : Tracks (runtime H .start ⟨.hook e, env⟩).2
        ([Action.hook e].foldl CycleStatus.next ⟨true, false, 0⟩) :=
      tracks_start.step (H := H) hcall.measures hcall.succeeds
    have hcalls' : ∀ call ∈ calls, call.Serves := fun c hc => hcalls c (by simp [hc])
    have hrun := Tracks.switches (H := H) hcalls' htracks
    rw [Machine.run_cons, hrun, first_hook_switches hcall.succeeds]
    simp only [List.map_cons, hooks_cons_hook, finalizes_cons_hook, restarts, not_due_nil,
      and_false, if_false, List.nil_append]
    omega

theorem worldSwitches_exact_twoCycles :
    invokeCount ((runtime Sha256.free).run .start
      ([.hook (.recordNode 1), .finalizeAndPrint, .hook (.callReturn 2),
        .hook (.recordNode 3)].map Call.reliable)).teecLog = 1 + 3 + 2 * 1 + 1 := by
  refine (worldSwitches_exact Sha256.free _).closed ?_ (.recordNode 1) _ rfl
  intro call hcall
  rcases List.mem_map.1 hcall with ⟨action, haction, rfl⟩
  refine ⟨?_, Env.reliable_succeeds⟩
  revert action
  decide

end Runtime
end CFlat
