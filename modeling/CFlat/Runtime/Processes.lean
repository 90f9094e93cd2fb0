import CFlat.Runtime.Client
import CFlat.SecureWorld.Instance

/-!
# Processes — many programs beside one trusted application

In `CFlat.Runtime.Client` the session of the trusted application stands in place of the variable
`sess`.  Here `sess` is what it is in the source, the name of a session of the one instance, and any
number of processes link the runtime and call its functions in any order, one call at a time.  The
TEE may refuse a session (`Env.session`) whatever the others do.

`processes_apart` says that the finer model refines the coarser one: as long as the TEE gives no two
open sessions one name, every process gets the answers that it would get alone.
-/

namespace CFlat
namespace Runtime

open Lib SecureWorld

variable {D : Type} {H : Sha256 D}

/-! ## The runtime in one process -/

/-- The static variables of the runtime. -/
structure Process where
  initialized : Bool
  needsReinit : Bool
  worldSwitchCount : UInt32
  sess : Option SessionId
  deriving DecidableEq, Repr

/-- At program start. -/
def Process.start : Process := ⟨false, false, 0, none⟩

/-- A process and the instance that it shares with the others. -/
structure Joined (D : Type) where
  process : Process
  inst : TaInstance D

namespace Joined

variable (H) in
/-- `TEEC_InvokeCommand` on the session of the process. -/
def teecInvokeCommand (tr : Transport) (call : TaCall) (s : Joined D) :
    (Option TeeResult × Vector Param 4) × Joined D :=
  let s :=
    { s with process := { s.process with worldSwitchCount := s.process.worldSwitchCount + 1 } }
  match s.process.sess with
  | none => ((none, call.op.params), s)
  | some id =>
      match s.inst.sessions id with
      | none => ((none, call.op.params), s)
      | some ctx =>
          let raw : RawCall := ⟨call.alloc, call.cmdId, call.op⟩
          let (res, params) := (invoke H ctx raw).1
          let served := { s with inst := (taEntryPoint H s.inst (.invokeCommand id raw)).2 }
          match tr with
          | .delivered => ((some res, params), served)
          | .replyLost => ((none, call.op.params), served)
          | .lost => ((none, call.op.params), s)

variable (H) in
/-- The TEE names a session that it opens `newId`. -/
def ensureInit (newId : SessionId) (env : Env) (s : Joined D) : Option Output × Joined D :=
  if s.process.initialized then (none, s)
  else if !env.context then (some .contextFailed, s)
  else if !env.session then (some .sessionFailed, s)
  else
    -- The name of a session opened before is lost, and the session stays open.
    let s : Joined D :=
      { process := { s.process with sess := some newId }
        inst := (taEntryPoint H s.inst (.openSession newId true)).2 }
    let ((res, _), s) :=
      teecInvokeCommand H env.init ⟨env.initAlloc, commandInit, emptyOperation⟩ s
    if res ≠ some .success then (some (.initFailed res), s)
    else (none, { s with process := { s.process with initialized := true } })

variable (H) in
def maybeReinit (env : Env) (s : Joined D) : Joined D :=
  if !s.process.needsReinit then s
  else
    let (_, s) :=
      teecInvokeCommand H env.reinit ⟨env.reinitAlloc, commandInit, emptyOperation⟩ s
    { s with process := { s.process with needsReinit := false } }

variable (H) in
/-- The hooks, each with its own command; the forward ones call `maybe_reinit`. -/
def hook (newId : SessionId) (e : Event) (env : Env) (s : Joined D) : Output × Joined D :=
  match ensureInit H newId env s with
  | (some out, s) => (out, s)
  | (none, s) =>
      let s := if e.isForward then maybeReinit H env s else s
      let ((res, _), s) :=
        teecInvokeCommand H env.command ⟨env.reinitAlloc, eventCommand e, eventOperation e⟩ s
      (.hookDone res, s)

variable (H) in
def cflatFinalizeAndPrint (env : Env) (s : Joined D) : Output × Joined D :=
  if !s.process.initialized then (.notInitialized, s)
  else
    let ((res, _), s) :=
      teecInvokeCommand H env.command ⟨env.reinitAlloc, commandFinalize, emptyOperation⟩ s
    if res ≠ some .success then (.finalizeFailed res, s)
    else
      let ((res, params), s) :=
        teecInvokeCommand H env.getAuth
          ⟨env.reinitAlloc, commandGetAuth, memrefOperation authBuffer⟩ s
      if res ≠ some .success then (.getAuthFailed res, s)
      else
        let s := { s with process := { s.process with needsReinit := true } }
        let out := firstMemref params
        (.attestation (out.buffer.take out.size.toNat) s.process.worldSwitchCount, s)

variable (H) in
/-- `TEEC_CloseSession` ends the session in the instance. -/
def cflatCleanup (s : Joined D) : Joined D :=
  if s.process.initialized then
    { process := { s.process with sess := none }
      inst :=
        match s.process.sess with
        | none => s.inst
        | some id => (taEntryPoint H s.inst (.closeSession id)).2 }
  else s

variable (H) in
/-- A call of a runtime function by the process. -/
def call (newId : SessionId) : Machine (Joined D) Call Output := fun s call =>
  match call.action with
  | .hook e => hook H newId e call.env s
  | .finalizeAndPrint => cflatFinalizeAndPrint H call.env s
  | .cleanup => (.cleanedUp, cflatCleanup H s)

end Joined

/-! ## Many processes -/

/-- A process calls a function of the runtime. -/
structure Turn (C : Type) where
  process : C
  call : Call
  newId : SessionId
  deriving DecidableEq, Repr

/-- The processes of a system and the instance of the trusted application. -/
structure World (C D : Type) where
  processes : C → Process
  inst : TaInstance D

def World.start {C : Type} : World C D := ⟨fun _ => .start, taCreateEntryPoint⟩

variable {C : Type} [DecidableEq C]

variable (H) in
def world : Machine (World C D) (Turn C) Output := fun w turn =>
  let (out, s) := Joined.call H turn.newId ⟨w.processes turn.process, w.inst⟩ turn.call
  (out, ⟨Function.update w.processes turn.process s.process, s.inst⟩)

/-- No open session has the name that the TEE would give a new one. -/
def FreshSession (w : World C D) (turn : Turn C) : Prop := w.inst.sessions turn.newId = none

instance (w : World C D) (turn : Turn C) : Decidable (FreshSession w turn) :=
  inferInstanceAs (Decidable (w.inst.sessions turn.newId = none))

/-! ## One process -/

namespace Joined

variable {newId : SessionId} {opened : Option SessionId} {s : Joined D} {client : Client D}

/-- The process as the coarser model sees it. -/
structure Sees (s : Joined D) (client : Client D) : Prop where
  initialized : client.initialized = s.process.initialized
  needsReinit : client.needsReinit = s.process.needsReinit
  worldSwitchCount : client.worldSwitchCount = s.process.worldSwitchCount
  sess : client.sess = s.process.sess.bind s.inst.sessions
  isOpen : ∀ id, s.process.sess = some id → (s.inst.sessions id).isSome = true

/-- The process works on its own session, or on the one that it opens. -/
structure Frame (opened : Option SessionId) (s s' : Joined D) : Prop where
  sess : s'.process.sess = s.process.sess ∨ s'.process.sess = opened ∨ s'.process.sess = none
  others : ∀ id, s.process.sess ≠ some id → opened ≠ some id →
    s'.inst.sessions id = s.inst.sessions id

theorem Frame.refl (s : Joined D) : Frame opened s s := ⟨.inl rfl, fun _ _ _ => rfl⟩

theorem Frame.trans {s' s'' : Joined D} (h : Frame opened s s') (h' : Frame opened s' s'') :
    Frame opened s s'' := by
  constructor
  · rcases h'.sess with hsess | hsess
    · rw [hsess]
      exact h.sess
    · exact .inr hsess
  · intro id hid hne
    have hid' : s'.process.sess ≠ some id := by
      rcases h.sess with hsess | hsess | hsess <;> rw [hsess]
      · exact hid
      · exact hne
      · exact fun heq => by cases heq
    exact (h'.others id hid' hne).trans (h.others id hid hne)

/-- The session that a function may open. -/
def opens (newId : SessionId) (env : Env) : Option SessionId :=
  if env.session then some newId else none

theorem eq_newId {env : Env} {id : SessionId} (h : opens newId env = some id) : id = newId := by
  unfold opens at h
  split at h <;> cases h
  rfl

/-- A function of the process does what it does in the coarser model. -/
structure Matches {R : Type} (opened : Option SessionId) (s : Joined D) (out : R × Joined D)
    (out' : R × Client D) : Prop where
  reply : out.1 = out'.1
  sees : out.2.Sees out'.2
  frame : Frame opened s out.2

theorem sessions_invoke {inst : TaInstance D} {id : SessionId} {ctx : SessionCtx D}
    (h : inst.sessions id = some ctx) (raw : RawCall) :
    (taEntryPoint H inst (.invokeCommand id raw)).2.sessions =
      Function.update inst.sessions id (some (invoke H ctx raw).2) := by
  simp only [taEntryPoint, h, TaInstance.put]

theorem sessions_open {inst : TaInstance D} {id : SessionId} (h : inst.sessions id = none) :
    (taEntryPoint H inst (.openSession id true)).2.sessions =
      Function.update inst.sessions id (some (taOpenSessionEntryPoint H)) := by
  simp only [taEntryPoint, h, TaInstance.put, if_true]

theorem sessions_close {inst : TaInstance D} {id : SessionId} {ctx : SessionCtx D}
    (h : inst.sessions id = some ctx) :
    (taEntryPoint H inst (.closeSession id)).2.sessions =
      Function.update inst.sessions id none := by
  simp only [taEntryPoint, h, TaInstance.put]

/-- A command goes to the session of the process and to no other. -/
theorem teecInvokeCommand_matches (opened : Option SessionId) (h : s.Sees client) (tr : Transport)
    (call : TaCall) :
    Matches opened s (teecInvokeCommand H tr call s)
      (Runtime.teecInvokeCommand H tr call client) := by
  rcases s with ⟨⟨initialized, needsReinit, count, sess⟩, inst⟩
  rcases client with ⟨_, _, _, session, executed, teecLog⟩
  rcases h with ⟨rfl, rfl, rfl, hsess, hopen⟩
  cases sess with
  | none =>
      obtain rfl : session = none := hsess
      exact ⟨rfl, ⟨rfl, rfl, rfl, rfl, hopen⟩, ⟨.inl rfl, fun _ _ _ => rfl⟩⟩
  | some id =>
      obtain ⟨ctx, hctx⟩ : ∃ ctx, inst.sessions id = some ctx :=
        Option.isSome_iff_exists.1 (hopen id rfl)
      obtain rfl : session = some ctx := hsess.trans hctx
      have hsessions := sessions_invoke (H := H) hctx ⟨call.alloc, call.cmdId, call.op⟩
      simp only [teecInvokeCommand, Runtime.teecInvokeCommand, hctx]
      -- What is executed is executed in both models, whether or not its reply comes back.
      cases tr with
      | lost => exact ⟨rfl, ⟨rfl, rfl, rfl, hctx.symm, hopen⟩, ⟨.inl rfl, fun _ _ _ => rfl⟩⟩
      | _ =>
          refine ⟨rfl, ⟨rfl, rfl, rfl, ?_, ?_⟩, ⟨.inl rfl, fun id' hid' _ => ?_⟩⟩
          · simp only [Option.bind_some, hsessions, Function.update_self]
            rfl
          · rintro id' ⟨⟩
            simp only [hsessions, Function.update_self, Option.isSome_some]
          · have hne : id' ≠ id := by
              rintro rfl
              exact hid' rfl
            simp only [hsessions, Function.update_of_ne hne]

/-- A session that the process has just opened. -/
theorem opened_matches (h : s.Sees client) (hfresh : s.inst.sessions newId = none)
    (teecLog : List TeecCall) :
    Joined.Sees
        ⟨{ s.process with sess := some newId },
          (taEntryPoint H s.inst (.openSession newId true)).2⟩
        { client with
          sess := some (taOpenSessionEntryPoint H)
          executed := []
          teecLog := teecLog } ∧
      Frame (some newId) s
        ⟨{ s.process with sess := some newId },
          (taEntryPoint H s.inst (.openSession newId true)).2⟩ := by
  have hsessions := sessions_open (H := H) hfresh
  refine ⟨⟨h.initialized, h.needsReinit, h.worldSwitchCount, ?_, ?_⟩, .inr (.inl rfl), ?_⟩
  · simp only [Option.bind_some, hsessions, Function.update_self]
  · rintro id ⟨⟩
    simp only [hsessions, Function.update_self, Option.isSome_some]
  · intro id _ hne
    have hid : id ≠ newId := fun heq => hne (congrArg some heq.symm)
    simp only [hsessions, Function.update_of_ne hid]

/-- A command, and what the function makes of its result. -/
theorem Matches.bind {A R : Type} {out : A × Joined D} {out' : A × Client D}
    (h : Matches opened s out out') {f : A → Joined D → R × Joined D}
    {g : A → Client D → R × Client D}
    (hnext : ∀ a s' client', Joined.Sees s' client' → Matches opened s' (f a s') (g a client')) :
    Matches opened s (f out.1 out.2) (g out'.1 out'.2) := by
  have hmatches := hnext out.1 out.2 out'.2 h.sees
  rw [← h.reply]
  exact ⟨hmatches.reply, hmatches.sees, h.frame.trans hmatches.frame⟩

/-- A process that has nothing more to do. -/
theorem Sees.done {R : Type} (h : s.Sees client) (r : R) : Matches opened s (r, s) (r, client) :=
  ⟨rfl, h, .refl s⟩

/-- What the process does after it has got this far. -/
theorem Matches.after {R : Type} {s' : Joined D} {out : R × Joined D} {out' : R × Client D}
    (h : Matches opened s' out out') (hframe : Frame opened s s') : Matches opened s out out' :=
  ⟨h.reply, h.sees, hframe.trans h.frame⟩

theorem ensureInit_matches (h : s.Sees client) (hfresh : s.inst.sessions newId = none)
    (env : Env) :
    Matches (opens newId env) s (ensureInit H newId env s) (Runtime.ensureInit H env client) := by
  rcases client with ⟨initialized, needsReinit, count, sess, executed, teecLog⟩
  obtain rfl : initialized = s.process.initialized := h.initialized
  unfold ensureInit Runtime.ensureInit
  dsimp only
  split
  · exact h.done none
  split
  · exact ⟨rfl, ⟨rfl, h.needsReinit, h.worldSwitchCount, h.sess, h.isOpen⟩, .refl s⟩
  split
  · exact ⟨rfl, ⟨rfl, h.needsReinit, h.worldSwitchCount, h.sess, h.isOpen⟩, .refl s⟩
  · -- From here on the new session is the one of the process, whatever becomes of its CMD_INIT.
    rename_i hsession
    have hopens : opens newId env = some newId := if_pos (by simpa using hsession)
    rcases opened_matches (H := H) h hfresh
      (.openSession true :: .initializeContext true :: teecLog) with ⟨hopened, hframe⟩
    have hinit := teecInvokeCommand_matches (H := H) (some newId) hopened env.init
      ⟨env.initAlloc, commandInit, emptyOperation⟩
    rw [hopens]
    refine (hinit.bind
      (f := fun a s' =>
        if a.1 ≠ some .success then (some (Output.initFailed a.1), s')
        else (none, { s' with process := { s'.process with initialized := true } }))
      (g := fun a client' =>
        if a.1 ≠ some .success then (some (Output.initFailed a.1), client')
        else (none, { client' with initialized := true }))
      fun a s' client' hsees => ?_).after hframe
    dsimp only
    split
    · exact hsees.done _
    · exact ⟨rfl, ⟨rfl, hsees.needsReinit, hsees.worldSwitchCount, hsees.sess, hsees.isOpen⟩,
        ⟨.inl rfl, fun _ _ _ => rfl⟩⟩

theorem maybeReinit_matches (opened : Option SessionId) (h : s.Sees client) (env : Env) :
    (maybeReinit H env s).Sees (Runtime.maybeReinit H env client) ∧
      Frame opened s (maybeReinit H env s) := by
  rcases client with ⟨initialized, needsReinit, count, sess, executed, teecLog⟩
  obtain rfl : needsReinit = s.process.needsReinit := h.needsReinit
  unfold maybeReinit Runtime.maybeReinit
  dsimp only
  split
  · exact ⟨h, .refl s⟩
  · have hreinit := teecInvokeCommand_matches (H := H) opened h env.reinit
      ⟨env.reinitAlloc, commandInit, emptyOperation⟩
    have hsees := hreinit.sees
    exact ⟨⟨hsees.initialized, rfl, hsees.worldSwitchCount, hsees.sess, hsees.isOpen⟩,
      hreinit.frame.trans ⟨.inl rfl, fun _ _ _ => rfl⟩⟩

theorem hook_matches (h : s.Sees client) (hfresh : s.inst.sessions newId = none) (e : Event)
    (env : Env) :
    Matches (opens newId env) s (hook H newId e env s) (Runtime.hook H e env client) := by
  have hinit := ensureInit_matches (H := H) h hfresh env
  rw [hook_eq]
  unfold hook invokeHook
  generalize ensureInit H newId env s = out at hinit ⊢
  generalize Runtime.ensureInit H env client = out' at hinit ⊢
  rcases out with ⟨failure, s'⟩
  rcases out' with ⟨failure', client'⟩
  rcases hinit with ⟨hreply, hsees, hframe⟩
  obtain rfl : failure = failure' := hreply
  -- Both models give up, or both go on.
  cases failure with
  | some out => exact (hsees.done out).after hframe
  | none =>
      obtain ⟨hready, hprepared⟩ : Joined.Sees (if e.isForward then maybeReinit H env s' else s')
          (if e.isForward then Runtime.maybeReinit H env client' else client') ∧
            Frame (opens newId env) s' (if e.isForward then maybeReinit H env s' else s') := by
        split
        · exact maybeReinit_matches _ hsees env
        · exact ⟨hsees, .refl s'⟩
      have hcommand := teecInvokeCommand_matches (H := H) (opens newId env) hready env.command
        ⟨env.reinitAlloc, eventCommand e, eventOperation e⟩
      exact ((hcommand.bind (f := fun a s' => (Output.hookDone a.1, s'))
        (g := fun a client' => (Output.hookDone a.1, client'))
          fun a _ _ hdone => hdone.done (Output.hookDone a.1)).after hprepared).after hframe

theorem cflatFinalizeAndPrint_matches (opened : Option SessionId) (h : s.Sees client) (env : Env) :
    Matches opened s (cflatFinalizeAndPrint H env s)
      (Runtime.cflatFinalizeAndPrint H env client) := by
  unfold cflatFinalizeAndPrint Runtime.cflatFinalizeAndPrint
  rw [h.initialized]
  split
  · exact h.done _
  · have hfinalize := teecInvokeCommand_matches (H := H) opened h env.command
      ⟨env.reinitAlloc, commandFinalize, emptyOperation⟩
    generalize teecInvokeCommand H env.command _ s = out at hfinalize ⊢
    generalize Runtime.teecInvokeCommand H env.command _ client = out' at hfinalize ⊢
    rcases out with ⟨⟨res, params⟩, s₁⟩
    rcases out' with ⟨out', client₁⟩
    rcases hfinalize with ⟨hreply, hsees, hframe⟩
    obtain rfl : (res, params) = out' := hreply
    dsimp only
    split
    · exact (hsees.done _).after hframe
    · have hfetch := teecInvokeCommand_matches (H := H) opened hsees env.getAuth
        ⟨env.reinitAlloc, commandGetAuth, memrefOperation authBuffer⟩
      dsimp only at hfetch
      generalize teecInvokeCommand H env.getAuth _ s₁ = out at hfetch ⊢
      generalize Runtime.teecInvokeCommand H env.getAuth _ client₁ = out' at hfetch ⊢
      rcases out with ⟨⟨res₂, params₂⟩, s₂⟩
      rcases out' with ⟨out', client₂⟩
      rcases hfetch with ⟨hreply₂, hsees₂, hframe₂⟩
      obtain rfl : (res₂, params₂) = out' := hreply₂
      dsimp only at hsees₂ ⊢
      split
      · exact ((hsees₂.done _).after hframe₂).after hframe
      · refine ⟨?_, ⟨hsees₂.initialized, rfl, hsees₂.worldSwitchCount, hsees₂.sess,
          hsees₂.isOpen⟩, (hframe.trans hframe₂).trans ⟨.inl rfl, fun _ _ _ => rfl⟩⟩
        rw [← hsees₂.worldSwitchCount]
        rfl

theorem cflatCleanup_matches (opened : Option SessionId) (h : s.Sees client) :
    (cflatCleanup H s).Sees (Runtime.cflatCleanup client) ∧
      Frame opened s (cflatCleanup H s) := by
  rcases client with ⟨initialized, needsReinit, count, sess, executed, teecLog⟩
  obtain rfl : initialized = s.process.initialized := h.initialized
  unfold cflatCleanup Runtime.cflatCleanup
  dsimp only
  split
  · refine ⟨⟨rfl, h.needsReinit, h.worldSwitchCount, rfl, fun _ hsess => by cases hsess⟩,
      .inr (.inr rfl), fun id hid _ => ?_⟩
    cases hsess : s.process.sess with
    | none => rfl
    | some own =>
        rcases Option.isSome_iff_exists.1 (h.isOpen own hsess) with ⟨ctx, hctx⟩
        have hne : id ≠ own := by
          rintro rfl
          exact hid hsess
        simp only [sessions_close hctx, Function.update_of_ne hne]
  · exact ⟨h, .refl s⟩

/-- The step lemma of one process. -/
theorem call_matches (h : s.Sees client) (hfresh : s.inst.sessions newId = none) (call : Call) :
    Matches (opens newId call.env) s (Joined.call H newId s call) (runtime H client call) := by
  rcases call with ⟨action, env⟩
  cases action with
  | hook e => exact hook_matches h hfresh e env
  | finalizeAndPrint => exact cflatFinalizeAndPrint_matches _ h env
  | cleanup =>
      rcases cflatCleanup_matches (H := H) (opens newId env) h with ⟨hsees, hframe⟩
      exact ⟨rfl, hsees, hframe⟩

end Joined

/-! ## All processes -/

/-- Every process as the coarser model sees it, and no two with one session. -/
structure Apart (w : World C D) (clients : C → Client D) : Prop where
  sees : ∀ c, Joined.Sees ⟨w.processes c, w.inst⟩ (clients c)
  apart : ∀ c c' id, (w.processes c).sess = some id → (w.processes c').sess = some id → c = c'

omit [DecidableEq C] in
theorem apart_start : Apart (World.start : World C D) fun _ => .start where
  sees := fun _ => ⟨rfl, rfl, rfl, rfl, fun _ hsess => by cases hsess⟩
  apart := fun _ _ _ hsess => by cases hsess

variable (H) in
/-- The processes without what they share. -/
def alone : Machine (C → Client D) (Turn C) Output :=
  ((runtime H).comap Turn.call).copies Turn.process

omit [DecidableEq C] in
/-- A session that some process has open is not the one that the TEE names now. -/
theorem Apart.ne_newId {w : World C D} {clients : C → Client D} (h : Apart w clients)
    {turn : Turn C} (hfresh : FreshSession w turn) {c : C} {id : SessionId}
    (hid : (w.processes c).sess = some id) : id ≠ turn.newId := by
  rintro rfl
  have hopen := (h.sees c).isOpen _ hid
  rw [hfresh] at hopen
  cases hopen

/-- The step lemma: a turn of one process is no turn of the others. -/
theorem Apart.step {w : World C D} {clients : C → Client D} (h : Apart w clients)
    {turn : Turn C} (hfresh : FreshSession w turn) :
    (alone H clients turn).1 = (world H w turn).1 ∧
      Apart (world H w turn).2 (alone H clients turn).2 := by
  rcases turn with ⟨p, call, newId⟩
  have hown := Joined.call_matches (H := H) (h.sees p) hfresh call
  -- The session of another process is neither the caller's nor the one it opens.
  have hothers : ∀ c id, c ≠ p → (w.processes c).sess = some id →
      (world H w ⟨p, call, newId⟩).2.inst.sessions id = w.inst.sessions id := by
    intro c id hc hid
    refine hown.frame.others id (fun hp => hc (h.apart c p id hid hp)) fun hopened => ?_
    exact h.ne_newId hfresh hid (Joined.eq_newId hopened)
  -- What the caller's session becomes is no session of another process.
  have hcaller : ∀ c id, c ≠ p → (w.processes c).sess = some id →
      ((world H w ⟨p, call, newId⟩).2.processes p).sess ≠ some id := by
    intro c id hc hid hp
    have hself : (world H w ⟨p, call, newId⟩).2.processes p =
        (Joined.call H newId ⟨w.processes p, w.inst⟩ call).2.process := Function.update_self ..
    rw [hself] at hp
    rcases hown.frame.sess with hsess | hsess | hsess <;> rw [hsess] at hp
    · exact hc (h.apart c p id hid hp)
    · exact h.ne_newId hfresh hid (Joined.eq_newId hp)
    · cases hp
  have hprocess : ∀ c, c ≠ p → (world H w ⟨p, call, newId⟩).2.processes c = w.processes c :=
    fun c hc => Function.update_of_ne hc _ _
  refine ⟨hown.reply.symm, ?_, ?_⟩
  · intro c
    by_cases hc : c = p
    · subst hc
      simpa only [world, alone, Machine.copies, Machine.comap, Function.update_self] using hown.sees
    · have hsees := h.sees c
      have hclient : (alone H clients ⟨p, call, newId⟩).2 c = clients c :=
        Function.update_of_ne hc _ _
      rw [hprocess c hc, hclient]
      refine ⟨hsees.initialized, hsees.needsReinit, hsees.worldSwitchCount, ?_, ?_⟩
      · rw [hsees.sess]
        cases hsess : (w.processes c).sess with
        | none => rfl
        | some id => exact (hothers c id hc hsess).symm
      · intro id hid
        rw [hothers c id hc hid]
        exact hsees.isOpen id hid
  · intro c c' id hid hid'
    by_cases hc : c = p <;> by_cases hc' : c' = p
    · rw [hc, hc']
    · subst hc
      rw [hprocess c' hc'] at hid'
      exact absurd hid (hcaller c' id hc' hid')
    · subst hc'
      rw [hprocess c hc] at hid
      exact absurd hid' (hcaller c id hc hid)
    · rw [hprocess c hc] at hid
      rw [hprocess c' hc'] at hid'
      exact h.apart c c' id hid hid'

/-- Whatever order the processes take their turns in, each of them gets the answers that it would
get if it had the trusted application to itself. -/
theorem processes_apart (H : Sha256 D) {turns : List (Turn C)}
    (hfresh : (world H).StepsMeet FreshSession .start turns) (c : C) :
    Machine.repliesOf Turn.process c turns ((world H).replies .start turns) =
      (runtime H).replies .start ((Machine.inputsOf Turn.process c turns).map Turn.call) := by
  have hreplies : (alone H).replies (fun _ => .start) turns = (world H).replies .start turns := by
    have hstep : ∀ (clients : C → Client D) w turn, FreshSession w turn → Apart w clients →
        id (alone H clients turn).1 = (world H w turn).1 ∧
          Apart (world H w turn).2 (alone H clients turn).2 :=
      fun _ _ _ hfresh hrel => hrel.step hfresh
    have hsim := (alone H).sim_run_of_stepsMeet (world H) id hstep apart_start hfresh
    simpa using hsim.1
  rw [← hreplies, alone, Machine.repliesOf_copies, Machine.replies_comap]

/-- A call during which the TEE opens no session. -/
def refused (action : Action) : Call := { Call.reliable action with env.session := false }

/-- Two programs of which the second has to wait for the first, and is then given its name. -/
def twoPrograms : List (Turn Bool) :=
  [⟨false, .reliable (.hook (.recordNode 1)), 0⟩, ⟨true, refused (.hook (.loopEnter 7)), 1⟩,
    ⟨false, refused .finalizeAndPrint, 1⟩, ⟨false, refused .cleanup, 1⟩,
    ⟨true, .reliable (.hook (.recordNode 2)), 0⟩, ⟨true, refused .finalizeAndPrint, 1⟩]

theorem processes_apart_twoPrograms :
    Machine.repliesOf Turn.process true twoPrograms
        ((world Sha256.free).replies .start twoPrograms) =
      (runtime Sha256.free).replies .start
        [refused (.hook (.loopEnter 7)), .reliable (.hook (.recordNode 2)),
          refused .finalizeAndPrint] :=
  have hfresh : (world Sha256.free).StepsMeet FreshSession .start twoPrograms := by decide +kernel
  processes_apart Sha256.free hfresh true

end Runtime
end CFlat
