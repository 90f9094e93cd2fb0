import CFlat.SecureWorld.CallStack
import CFlat.Runtime.Cycles

/-!
# Returns — the deferred CMD_INIT and the calls that are still open

The comment at `maybe_reinit` says that the deferred CMD_INIT comes after the pending call returns
of the finished cycle.  The runtime does not count open calls, so this is up to the program:
`sameCycle_iff_nothingOpen` says for which programs no CMD_INIT reaches the trusted application
between the commands of a call.
-/

namespace CFlat
namespace Runtime

open Lib SecureWorld

variable {D : Type} {H : Sha256 D} {client : Client D}

/-! ## Call trees -/

/-- What a program does between its calls. -/
inductive Plain
  | recordNode (nodeId : UInt64)
  | finalizeAndPrint
  deriving DecidableEq, Repr

def Plain.action : Plain → Action
  | recordNode nodeId => .hook (.recordNode nodeId)
  | finalizeAndPrint => .finalizeAndPrint

/-- The hook in front of a call. -/
def callAction (site : CallSite) : Action := .hook site.enter

/-- The hook behind it. -/
def returnAction (site : CallSite) : Action := .hook site.exit

abbrev CallTree := Nest CallSite Plain

/-- A program run as the sequence of its hooks and finalisations. -/
def CallTree.actions (t : CallTree) : List Action := t.flatten callAction returnAction Plain.action

variable (H) in
/-- The commands that the session executes during these calls, newest first. -/
def deliveredDuring (client : Client D) (calls : List Call) : List UInt32 :=
  let executed := ((runtime H).run client calls).executed
  (executed.take (executed.length - client.executed.length)).map fun entry => entry.1.cmdId

variable (H) in
/-- No CMD_INIT is delivered between the CMD_CALL_ENTER and the CMD_CALL_RETURN of a call: neither
during its body nor by the hook of its return. -/
def SameCycle (calls : List Call) : Prop :=
  ∀ before enter body exit behind (site : CallSite) (t : CallTree),
    calls = before ++ enter :: (body ++ exit :: behind) →
      enter.action = callAction site → body.map Call.action = t.actions →
        exit.action = returnAction site →
          commandInit ∉
            deliveredDuring H ((runtime H).run .start (before ++ [enter])) (body ++ [exit])

/-! ## The state of the cycle -/

/-- What the actions so far say: whether the runtime has been initialised, whether a CMD_INIT is
pending, and how many calls are open. -/
structure CycleStatus where
  started : Bool
  pending : Bool
  openCalls : Nat
  deriving DecidableEq, Repr

namespace CycleStatus

def start : CycleStatus := ⟨false, false, 0⟩

def next (status : CycleStatus) : Action → CycleStatus
  | .hook e =>
      { started := true
        pending := status.pending && !e.isForward
        openCalls := match e with
          | .callEnter _ _ => status.openCalls + 1
          | .callReturn _ => status.openCalls - 1
          | _ => status.openCalls }
  | .finalizeAndPrint => { status with pending := status.started }
  | .cleanup => status

/-- The action sends the pending CMD_INIT. -/
def reinits (status : CycleStatus) : Action → Bool
  | .hook e => status.pending && e.isForward
  | _ => false

/-- The status after a run. -/
def after (actions : List Action) : CycleStatus := actions.foldl next start

theorem heights : Nest.Heights callAction returnAction Plain.action next openCalls where
  enter := fun _ _ => rfl
  exit := fun _ _ => rfl
  event := by
    intro status a
    cases a <;> rfl

theorem after_append (actions₁ actions₂ : List Action) :
    after (actions₁ ++ actions₂) = actions₂.foldl next (after actions₁) := List.foldl_append

end CycleStatus

/-- The hooks that send a pending CMD_INIT are called while no call is open. -/
def NothingOpen (actions : List Action) : Prop :=
  ∀ before action behind, actions = before ++ action :: behind →
    (CycleStatus.after before).reinits action = true → (CycleStatus.after before).openCalls = 0

/-! ## What a call delivers -/

/-- A command that goes through is executed. -/
theorem executed_delivered {ctx : SessionCtx D} (call : TaCall) (h : client.sess = some ctx) :
    ∃ res, (teecInvokeCommand H .delivered call client).2.executed =
      (call, res) :: client.executed := by
  have hinv := invoked_of_sess (H := H) .delivered call h
  exact ⟨_, hinv.executed⟩

theorem maybeReinit_executed {link : Link D} {env : Env} (h : Linked client link)
    (henv : env.Succeeds) :
    ∃ sent, (maybeReinit H env client).executed = sent ++ client.executed ∧
      sent.map (fun entry => entry.1.cmdId) = if link.pending then [commandInit] else [] := by
  cases hpending : link.pending with
  | false => exact ⟨[], by simp [maybeReinit, h.needsReinit, hpending]⟩
  | true =>
      rcases executed_delivered (H := H) ⟨env.reinitAlloc, commandInit, emptyOperation⟩ h.sess
        with ⟨res, hsent⟩
      refine ⟨[(⟨env.reinitAlloc, commandInit, emptyOperation⟩, res)], ?_, rfl⟩
      simpa [maybeReinit, h.needsReinit, hpending, henv.reinit] using hsent

/-- A hook delivers its command, behind the CMD_INIT if it sends one. -/
theorem hook_executed {link : Link D} {env : Env} (e : Event) (h : Linked client link)
    (henv : env.Succeeds) :
    ∃ sent, (hook H e env client).2.executed = sent ++ client.executed ∧
      sent.map (fun entry => entry.1.cmdId) =
        eventCommand e :: if link.pending && e.isForward then [commandInit] else [] := by
  rw [hook_eq]
  simp only [invokeHook, ensureInit_initialized env h.initialized, henv.command]
  have hprepared : ∃ sent,
      (if e.isForward then maybeReinit H env client else client).executed =
          sent ++ client.executed ∧
        sent.map (fun entry => entry.1.cmdId) =
          if link.pending && e.isForward then [commandInit] else [] := by
    cases e.isForward with
    | false => exact ⟨[], rfl, by simp⟩
    | true => simpa using maybeReinit_executed h henv
  have hlinked : Linked (if e.isForward then maybeReinit H env client else client)
      (link.prepare H e env) := by
    simp only [Link.prepare]
    split
    · exact maybeReinit_linked env h
    · exact h
  rcases hprepared with ⟨sent, hsent, hids⟩
  rcases executed_delivered (H := H) ⟨env.reinitAlloc, eventCommand e, eventOperation e⟩
    hlinked.sess with ⟨res, hlast⟩
  refine ⟨(⟨env.reinitAlloc, eventCommand e, eventOperation e⟩, res) :: sent, ?_,
    congrArg (eventCommand e :: ·) hids⟩
  rw [hlast, hsent]
  rfl

/-- A finalisation delivers two commands. -/
theorem finalize_executed {link : Link D} {env : Env} (h : Linked client link)
    (henv : env.Succeeds) :
    ∃ sent, (cflatFinalizeAndPrint H env client).2.executed = sent ++ client.executed ∧
      sent.map (fun entry => entry.1.cmdId) = [commandGetAuth, commandFinalize] := by
  have hfin := invoked_of_sess (H := H) .delivered
    ⟨env.reinitAlloc, commandFinalize, emptyOperation⟩ h.sess
  rw [dispatch_finalize] at hfin
  simp only [cflatFinalizeAndPrint, h.initialized, henv.command, henv.getAuth, Bool.not_true,
    Bool.false_eq_true, if_false]
  generalize teecInvokeCommand H .delivered _ client = fin at hfin ⊢
  rcases fin with ⟨⟨res, params⟩, client₁⟩
  obtain rfl : res = some .success := hfin.result
  have hfirst : client₁.executed = _ :: client.executed := hfin.executed
  rcases executed_delivered (H := H)
    ⟨env.reinitAlloc, commandGetAuth, memrefOperation authBuffer⟩ hfin.sess with ⟨res₂, hsecond⟩
  rw [hfirst] at hsecond
  simp only [ne_eq, not_true_eq_false, if_false]
  refine ⟨[(⟨env.reinitAlloc, commandGetAuth, memrefOperation authBuffer⟩, res₂),
    (⟨env.reinitAlloc, commandFinalize, emptyOperation⟩, .success)], ?_, rfl⟩
  split
  · exact hsecond
  · exact hsecond

/-! ## One step -/

/-- A hook or a finalisation during which every TEE call succeeds. -/
structure Call.Serves (call : Call) : Prop where
  measures : call.isMeasurement = true
  succeeds : call.env.Succeeds

/-- What the status says of the runtime. -/
structure Tracks (client : Client D) (status : CycleStatus) : Prop where
  dormant : status.started = false →
    client.initialized = false ∧ client.needsReinit = false ∧ status.pending = false
  linked : status.started = true → ∃ ctx, Linked client ⟨status.pending, ctx⟩

theorem tracks_start : Tracks (Client.start : Client D) .start where
  dormant := fun _ => ⟨rfl, rfl, rfl⟩
  linked := fun h => nomatch h

/-- A call in an initialised runtime. -/
theorem Tracks.step_linked {ctx : SessionCtx D} (status : CycleStatus)
    (hstarted : status.started = true) (h : Linked client ⟨status.pending, ctx⟩) {call : Call}
    (hcall : call.isMeasurement = true) (henv : call.env.Succeeds) :
    Tracks (runtime H client call).2 (status.next call.action) := by
  have hlinked := (linked_step (H := H) hcall h).2
  have hnext : (status.next call.action).started = true ∧
      (linkExec H ⟨status.pending, ctx⟩ call).2.pending = (status.next call.action).pending := by
    cases haction : call.action with
    | hook e =>
        refine ⟨rfl, ?_⟩
        rw [linkExec_hook haction henv]
        cases he : e.isForward <;> simp [Link.prepare, Link.reinit, CycleStatus.next, he]
    | finalizeAndPrint =>
        refine ⟨hstarted, ?_⟩
        rw [linkExec_finalize haction henv]
        exact hstarted.symm
    | cleanup => simp [Call.isMeasurement, haction] at hcall
  rcases hnext with ⟨hstarted', hpending⟩
  refine ⟨fun hfalse => ?_, fun _ => ?_⟩
  · rw [hstarted'] at hfalse
    cases hfalse
  · rw [← hpending]
    exact ⟨(linkExec H ⟨status.pending, ctx⟩ call).2.ctx, hlinked⟩

theorem Tracks.step {status : CycleStatus} (h : Tracks client status) {call : Call}
    (hcall : call.isMeasurement = true) (henv : call.env.Succeeds) :
    Tracks (runtime H client call).2 (status.next call.action) := by
  cases hstarted : status.started with
  | true =>
      rcases h.linked hstarted with ⟨ctx, hlinked⟩
      exact Tracks.step_linked status hstarted hlinked hcall henv
  | false =>
      rcases h.dormant hstarted with ⟨hinit, hneeds, hpending⟩
      cases haction : call.action with
      | hook e =>
          rcases step_uninitialized (H := H) hcall hinit with ⟨_, _, _, hcause⟩ | hopened
          · exact absurd henv.opens (hcause (by simp [haction]))
          · -- The hook acts on a session that has just been reset.
            rcases hopened with ⟨client', handle, hsame, hlinked⟩
            rw [hneeds, ← hpending] at hlinked
            rw [hsame, ← haction]
            have hstep : Tracks (runtime H client' call).2
                (CycleStatus.next ⟨true, status.pending, status.openCalls⟩ call.action) :=
              Tracks.step_linked ⟨true, status.pending, status.openCalls⟩ rfl hlinked hcall henv
            rw [haction] at hstep ⊢
            exact hstep
      | finalizeAndPrint =>
          rw [runtime_uninitialized hinit (by simp [haction])]
          refine ⟨fun _ => ⟨hinit, hneeds, hstarted⟩, fun htrue => ?_⟩
          rw [CycleStatus.next, hstarted] at htrue
          cases htrue
      | cleanup => simp [Call.isMeasurement, haction] at hcall

/-- The run lemma. -/
theorem Tracks.run {calls : List Call} (hcalls : ∀ call ∈ calls, call.Serves) :
    ∀ {client : Client D} {status : CycleStatus}, Tracks client status →
      Tracks ((runtime H).run client calls)
        ((calls.map Call.action).foldl CycleStatus.next status) := by
  induction calls with
  | nil => exact fun h => h
  | cons call calls ih =>
      intro client status h
      have hcall := hcalls call (by simp)
      exact ih (fun c hc => hcalls c (by simp [hc])) (h.step hcall.measures hcall.succeeds)

/-! ## Runs -/

/-- A call in an initialised runtime delivers a CMD_INIT exactly when it sends the pending one. -/
theorem step_executed {ctx : SessionCtx D} {status : CycleStatus}
    (h : Linked client ⟨status.pending, ctx⟩) {call : Call} (hcall : call.isMeasurement = true)
    (henv : call.env.Succeeds) :
    ∃ sent, (runtime H client call).2.executed = sent ++ client.executed ∧
      (commandInit ∈ sent.map (fun entry => entry.1.cmdId) ↔
        status.reinits call.action = true) := by
  rcases call with ⟨action, env⟩
  cases action with
  | hook e =>
      rcases hook_executed (H := H) e h henv with ⟨sent, hsent, hids⟩
      refine ⟨sent, hsent, ?_⟩
      have hcommand : commandInit ≠ eventCommand e := by cases e <;> (rw [eventCommand]; decide)
      rw [hids, CycleStatus.reinits]
      cases status.pending && e.isForward <;> simp [hcommand]
  | finalizeAndPrint =>
      rcases finalize_executed (H := H) h henv with ⟨sent, hsent, hids⟩
      refine ⟨sent, hsent, ?_⟩
      rw [hids]
      exact iff_of_false (by decide) (by simp [CycleStatus.reinits])
  | cleanup => cases hcall

theorem started_next {status : CycleStatus} (h : status.started = true) (action : Action) :
    (status.next action).started = true := by
  cases action with
  | hook e => rfl
  | finalizeAndPrint => exact h
  | cleanup => exact h

/-- A run from an initialised runtime delivers a CMD_INIT exactly when one of its calls sends the
pending one. -/
theorem run_executed {calls : List Call} (hcalls : ∀ call ∈ calls, call.Serves) :
    ∀ {client : Client D} {status : CycleStatus}, status.started = true → Tracks client status →
      ∃ sent, ((runtime H).run client calls).executed = sent ++ client.executed ∧
        (commandInit ∈ sent.map (fun entry => entry.1.cmdId) ↔
          ∃ before action behind, calls.map Call.action = before ++ action :: behind ∧
            (before.foldl CycleStatus.next status).reinits action = true) := by
  induction calls with
  | nil =>
      intro client status _ _
      exact ⟨[], rfl, by simp⟩
  | cons call calls ih =>
      intro client status hstarted h
      have hcall := hcalls call (by simp)
      rcases h.linked hstarted with ⟨ctx, hlinked⟩
      rcases step_executed (H := H) hlinked hcall.measures hcall.succeeds with
        ⟨first, hfirst, hinit⟩
      rcases ih (fun c hc => hcalls c (by simp [hc])) (started_next hstarted call.action)
        (h.step (H := H) hcall.measures hcall.succeeds) with ⟨rest, hrest, hinits⟩
      refine ⟨rest ++ first, ?_, ?_⟩
      · rw [Machine.run_cons, hrest, hfirst, List.append_assoc]
      · rw [List.map_append, List.mem_append, hinit, hinits]
        constructor
        · rintro (⟨before, action, behind, hsplit, hreinit⟩ | hreinit)
          · exact ⟨call.action :: before, action, behind, congrArg (call.action :: ·) hsplit,
              hreinit⟩
          · exact ⟨[], call.action, calls.map Call.action, rfl, hreinit⟩
        · rintro ⟨before, action, behind, hsplit, hreinit⟩
          cases before with
          | nil =>
              rcases List.cons.inj hsplit with ⟨rfl, _⟩
              exact .inr hreinit
          | cons x before =>
              rcases List.cons.inj hsplit with ⟨rfl, hbehind⟩
              exact .inl ⟨before, action, behind, hbehind, hreinit⟩

theorem deliveredDuring_init_iff {calls : List Call} (hcalls : ∀ call ∈ calls, call.Serves)
    {status : CycleStatus} (hstarted : status.started = true) (h : Tracks client status) :
    commandInit ∈ deliveredDuring H client calls ↔
      ∃ before action behind, calls.map Call.action = before ++ action :: behind ∧
        (before.foldl CycleStatus.next status).reinits action = true := by
  rcases run_executed (H := H) hcalls hstarted h with ⟨sent, hsent, hinits⟩
  rw [← hinits, deliveredDuring, hsent]
  simp

/-! ## Open calls -/

theorem cleanup_notMem_actions (t : CallTree) : Action.cleanup ∉ t.actions := by
  induction t with
  | nil => exact List.not_mem_nil
  | leaf a rest ih =>
      intro hmem
      rcases List.mem_cons.1 hmem with heq | hrest
      · cases a <;> cases heq
      · exact ih hrest
  | loop site body rest ihBody ihRest =>
      intro hmem
      rcases List.mem_cons.1 hmem with heq | hbehind
      · cases heq
      · rcases List.mem_append.1 hbehind with hbody | htail
        · exact ihBody hbody
        · rcases List.mem_cons.1 htail with heq | hrest
          · cases heq
          · exact ihRest hrest

theorem isMeasurement_of_actions {t : CallTree} {calls : List Call}
    (hcalls : calls.map Call.action = t.actions) : ∀ call ∈ calls, call.isMeasurement = true := by
  intro call hcall
  have hmem : call.action ∈ t.actions := hcalls ▸ List.mem_map_of_mem hcall
  simp only [Call.isMeasurement, bne_iff_ne]
  intro heq
  exact cleanup_notMem_actions t (heq ▸ hmem)

/-- Behind the entry of a call the runtime is initialised. -/
theorem started_enter (actions : List Action) (site : CallSite) :
    (CycleStatus.after (actions ++ [callAction site])).started = true := by
  rw [CycleStatus.after_append]
  rfl

/-- A return does not send the pending CMD_INIT. -/
theorem reinits_return (status : CycleStatus) (site : CallSite) :
    status.reinits (returnAction site) = false := by
  simp [returnAction, CallSite.exit, CycleStatus.reinits, Event.isForward]

/-- While the body of a call runs, the call is open. -/
theorem openCalls_body (actions : List Action) (site : CallSite) (body : CallTree)
    {inner₁ inner₂ : List Action} (hbody : body.actions = inner₁ ++ inner₂) :
    (CycleStatus.after (actions ++ callAction site :: inner₁)).openCalls ≠ 0 := by
  rw [CycleStatus.after_append, List.foldl_cons]
  have hpart := CycleStatus.heights.part body
    (s := (CycleStatus.after actions).next (callAction site)) hbody
  have hentered := CycleStatus.heights.enter (CycleStatus.after actions) site
  omega

/-- A CMD_INIT is delivered between the commands of a call exactly when a hook of its body sends
the pending one. -/
theorem init_delivered_iff {before body behind : List Call} {enter exit : Call} {site : CallSite}
    (hcalls : ∀ call ∈ before ++ enter :: (body ++ exit :: behind), call.Serves)
    (henter : enter.action = callAction site) (hexit : exit.action = returnAction site) :
    commandInit ∈ deliveredDuring H ((runtime H).run .start (before ++ [enter])) (body ++ [exit]) ↔
      ∃ inner₁ action inner₂, body.map Call.action = inner₁ ++ action :: inner₂ ∧
        (CycleStatus.after (before.map Call.action ++ callAction site :: inner₁)).reinits action =
          true := by
  simp only [List.forall_mem_append, List.forall_mem_cons] at hcalls
  rcases hcalls with ⟨hbefore, henter', hbody, hexit', _⟩
  have hfront : ∀ call ∈ before ++ [enter], call.Serves := by
    simp only [List.forall_mem_append, List.forall_mem_singleton]
    exact ⟨hbefore, henter'⟩
  have hinside : ∀ call ∈ body ++ [exit], call.Serves := by
    simp only [List.forall_mem_append, List.forall_mem_singleton]
    exact ⟨hbody, hexit'⟩
  have htracks := (tracks_start (D := D)).run (H := H) hfront
  rw [List.map_append, List.map_singleton, henter] at htracks
  rw [deliveredDuring_init_iff hinside (started_enter (before.map Call.action) site) htracks]
  simp only [CycleStatus.after_append, List.foldl_cons, List.map_append, List.map_singleton, hexit,
    List.foldl_nil]
  constructor
  · rintro ⟨inner₁, action, inner₂, hsplit, hreinit⟩
    cases inner₂ using List.reverseRecOn with
    | nil =>
        -- The last action is the return.
        rcases List.append_inj' hsplit rfl with ⟨_, hlast⟩
        rw [← (List.cons.inj hlast).1, reinits_return] at hreinit
        cases hreinit
    | append_singleton inner₂ last =>
        rw [← List.cons_append, ← List.append_assoc] at hsplit
        exact ⟨inner₁, action, inner₂, (List.append_inj' hsplit rfl).1, hreinit⟩
  · rintro ⟨inner₁, action, inner₂, hsplit, hreinit⟩
    exact ⟨inner₁, action, inner₂ ++ [returnAction site], by simp [hsplit], hreinit⟩

/-- Every call return is delivered in the cycle of its call enter exactly when the pending CMD_INITs
are sent while no call is open. -/
theorem sameCycle_iff_nothingOpen (H : Sha256 D) (t : CallTree) (calls : List Call)
    (hcalls : calls.map Call.action = t.actions) (henv : ∀ call ∈ calls, call.env.Succeeds) :
    SameCycle H calls ↔ NothingOpen t.actions := by
  have hserves : ∀ call ∈ calls, call.Serves := fun call hcall =>
    ⟨isMeasurement_of_actions hcalls call hcall, henv call hcall⟩
  constructor
  · intro h before action behind hsplit hreinit
    cases Nest.place t hsplit with
    | outside t' ht =>
        rw [ht]
        exact CycleStatus.heights.flatten t' .start
    | closes site haction =>
        rw [haction, reinits_return] at hreinit
        cases hreinit
    | inside site body pre inner₁ inner₂ post hbefore hbody hbehind =>
        -- The CMD_INIT would be delivered during the body of this call.
        exfalso
        have hshape : calls.map Call.action = pre ++ callAction site ::
            (body.flatten callAction returnAction Plain.action ++ returnAction site :: post) := by
          rw [hcalls, hsplit, hbefore, hbehind, hbody]
          simp
        rcases List.map_eq_append_iff.1 hshape with ⟨before', _, rfl, rfl, htail⟩
        rcases List.map_eq_cons_iff.1 htail with ⟨enter, _, rfl, henter, htail'⟩
        rcases List.map_eq_append_iff.1 htail' with ⟨body', _, rfl, hbody', htail''⟩
        rcases List.map_eq_cons_iff.1 htail'' with ⟨exit, behind', rfl, hexit, _⟩
        refine h before' enter body' exit behind' site body rfl henter hbody' hexit ?_
        rw [init_delivered_iff hserves henter hexit]
        exact ⟨inner₁, action, inner₂, hbody'.trans hbody, hbefore ▸ hreinit⟩
  · intro h before enter body exit behind site t' hsplit henter hbody hexit hinit
    rw [hsplit] at hserves
    rcases (init_delivered_iff hserves henter hexit).1 hinit with
      ⟨inner₁, action, inner₂, hinner, hreinit⟩
    -- The call is open there.
    refine openCalls_body (before.map Call.action) site t' (hbody.symm.trans hinner) ?_
    refine h _ action (inner₂ ++ returnAction site :: behind.map Call.action) ?_ hreinit
    rw [← hcalls, hsplit]
    simp [henter, hexit, hinner]

/-- The run of a program that finalises between its calls. -/
def reportedBetween : CallTree :=
  .loop ⟨1, 2, 1⟩ (.leaf (.recordNode 5) .nil)
    (.leaf .finalizeAndPrint (.loop ⟨1, 2, 1⟩ (.leaf (.recordNode 5) .nil) .nil))

/-- The run of a program that finalises in a function and goes on recording there. -/
def reportedInside : CallTree :=
  .loop ⟨1, 2, 1⟩ (.leaf .finalizeAndPrint (.leaf (.recordNode 5) .nil)) .nil

theorem sameCycle_iff_nothingOpen_reportedBetween :
    SameCycle Sha256.free (reportedBetween.actions.map Call.reliable) ↔
      NothingOpen reportedBetween.actions := by
  refine sameCycle_iff_nothingOpen Sha256.free reportedBetween _ ?_ ?_
  · simp [Call.reliable, Function.comp_def]
  · intro call hcall
    rcases List.mem_map.1 hcall with ⟨action, _, rfl⟩
    exact Env.reliable_succeeds

/-- A function that finalises and records a node before it returns separates its call enter from
its call return. -/
theorem return_in_next_cycle :
    ¬ ∀ (t : CallTree) (calls : List Call), calls.map Call.action = t.actions →
        (∀ call ∈ calls, call.env.Succeeds) → t.depth ≤ maxCallDepth →
          SameCycle Sha256.free calls := by
  intro h
  have hsucceeds : ∀ call ∈ reportedInside.actions.map Call.reliable, call.env.Succeeds := by
    intro call hcall
    rcases List.mem_map.1 hcall with ⟨action, _, rfl⟩
    exact Env.reliable_succeeds
  have hsame := h reportedInside (reportedInside.actions.map Call.reliable)
    (by simp [Call.reliable, Function.comp_def]) hsucceeds (by decide)
  refine hsame [] (.reliable (callAction ⟨1, 2, 1⟩))
    [.reliable .finalizeAndPrint, .reliable (.hook (.recordNode 5))]
    (.reliable (returnAction ⟨1, 2, 1⟩)) [] ⟨1, 2, 1⟩
    (.leaf .finalizeAndPrint (.leaf (.recordNode 5) .nil)) rfl rfl rfl rfl ?_
  decide +kernel

end Runtime
end CFlat
