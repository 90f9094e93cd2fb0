import CFlat.SecureWorld.Dispatch
import CFlat.SecureWorld.Handles
import Mathlib.Logic.Function.Basic

/-!
# Instance — the sessions of one trusted application

The entry points keep the context of every open session and nothing else.  The header of the trusted
application asks the TEE for one session at a time; the entry points do not rely on it, and are
called here in any order.  The operation handles of all sessions come from one TEE.  `Holding` is
the ownership that this asks for: every session in use holds a live handle of its own, and every
live handle is held.  It is kept exactly as long as no CMD_INIT fails to allocate in an initialised
session (`holding_iff_no_failed_reinit`); after that a session may use or free a handle that is not
its own.
-/

namespace CFlat
namespace SecureWorld

open Lib

variable {D : Type} {H : Sha256 D}

/-! ## Ownership of handles -/

abbrev SessionId := UInt32

/-- The sessions hold these handles after a log of operation calls. -/
structure Holding (held : SessionId → Option Handle) (ops : List TeeOp) : Prop where
  usable : ∀ id handle, held id = some handle → Usable handle ops
  apart : ∀ id id' handle, held id = some handle → held id' = some handle → id = id'
  owned : ∀ handle ∈ liveHandles ops, ∃ id, held id = some handle
  noMisuse : NoMisuse ops

theorem holding_nil : Holding (fun _ => none) [] where
  usable := by simp
  apart := by simp
  owned := by simp [liveHandles]
  noMisuse := trivial

section Ownership

variable {held : SessionId → Option Handle} {ops : List TeeOp} {id : SessionId} {handle : Handle}

theorem Holding.use (h : Holding held ops) (hheld : held id = some handle) :
    Holding held (.use handle :: ops) where
  usable := h.usable
  apart := h.apart
  owned := h.owned
  noMisuse := ⟨h.usable id handle hheld, h.noMisuse⟩

theorem Holding.allocateFailed (h : Holding held ops) : Holding held (.allocateFailed :: ops) where
  usable := h.usable
  apart := h.apart
  owned := h.owned
  noMisuse := h.noMisuse

/-- A session frees the handle that it holds. -/
theorem Holding.release (h : Holding held ops) (hheld : held id = some handle) :
    Holding (Function.update held id none) (.free handle :: ops) where
  usable := by
    intro id' handle' hheld'
    have hid : id' ≠ id := by
      rintro rfl
      simp at hheld'
    rw [Function.update_of_ne hid] at hheld'
    rcases h.usable id' handle' hheld' with ⟨hnull, hlive⟩
    have hne : handle' ≠ handle := by
      rintro rfl
      exact hid (h.apart id' id handle' hheld' hheld)
    exact ⟨hnull, List.mem_filter.2 ⟨hlive, by simpa using hne⟩⟩
  apart := by
    intro id₁ id₂ handle' h₁ h₂
    by_cases hid₁ : id₁ = id
    · simp [hid₁] at h₁
    · by_cases hid₂ : id₂ = id
      · simp [hid₂] at h₂
      · rw [Function.update_of_ne hid₁] at h₁
        rw [Function.update_of_ne hid₂] at h₂
        exact h.apart id₁ id₂ handle' h₁ h₂
  owned := by
    intro handle' hlive
    rcases List.mem_filter.1 hlive with ⟨hlive, hne⟩
    rcases h.owned handle' hlive with ⟨id', hheld'⟩
    have hid : id' ≠ id := by
      rintro rfl
      rw [hheld] at hheld'
      simp [Option.some.inj hheld'] at hne
    exact ⟨id', by rwa [Function.update_of_ne hid]⟩
  noMisuse := ⟨h.usable id handle hheld, h.noMisuse⟩

/-- A session without a handle gets a fresh one. -/
theorem Holding.acquire (h : Holding held ops) (hheld : held id = none)
    (hnull : handle ≠ teeHandleNull) (hfresh : handle ∉ liveHandles ops) :
    Holding (Function.update held id (some handle)) (.allocate handle :: ops) where
  usable := by
    intro id' handle' hheld'
    by_cases hid : id' = id
    · subst hid
      rw [Function.update_self] at hheld'
      obtain rfl := Option.some.inj hheld'
      exact ⟨hnull, List.mem_cons_self⟩
    · rw [Function.update_of_ne hid] at hheld'
      rcases h.usable id' handle' hheld' with ⟨hnull', hlive⟩
      exact ⟨hnull', List.mem_cons_of_mem _ hlive⟩
  apart := by
    -- What another session holds is live already, so it is not the fresh handle.
    have hother : ∀ id', id' ≠ id → held id' ≠ some handle := fun id' _ hheld' =>
      hfresh (h.usable id' handle hheld').2
    intro id₁ id₂ handle' h₁ h₂
    by_cases hid₁ : id₁ = id
    · by_cases hid₂ : id₂ = id
      · exact hid₁.trans hid₂.symm
      · subst hid₁
        rw [Function.update_self] at h₁
        rw [Function.update_of_ne hid₂, ← h₁] at h₂
        exact absurd h₂ (hother id₂ hid₂)
    · rw [Function.update_of_ne hid₁] at h₁
      by_cases hid₂ : id₂ = id
      · subst hid₂
        rw [Function.update_self] at h₂
        rw [← h₂] at h₁
        exact absurd h₁ (hother id₁ hid₁)
      · rw [Function.update_of_ne hid₂] at h₂
        exact h.apart id₁ id₂ handle' h₁ h₂
  owned := by
    intro handle' hlive
    rcases List.mem_cons.1 hlive with rfl | hlive
    · exact ⟨id, Function.update_self ..⟩
    · rcases h.owned handle' hlive with ⟨id', hheld'⟩
      have hid : id' ≠ id := by
        rintro rfl
        simp [hheld] at hheld'
      exact ⟨id', by rwa [Function.update_of_ne hid]⟩
  noMisuse := h.noMisuse

end Ownership

/-! ## The instance -/

/-- A call of an entry point of a session, with what the TEE API does in it. -/
inductive Entry
  | openSession (id : SessionId) (mallocSucceeds : Bool)
  | invokeCommand (id : SessionId) (call : RawCall)
  | closeSession (id : SessionId)
  deriving DecidableEq, Repr

/-- The contexts of the open sessions.  The ghost field lists the operation calls of all sessions
there have been, newest first. -/
structure TaInstance (D : Type) where
  sessions : SessionId → Option (SessionCtx D)
  teeLog : List TeeOp

/-- `TA_CreateEntryPoint` -/
def taCreateEntryPoint : TaInstance D := ⟨fun _ => none, []⟩

/-- Put a session's context in its place, or take it away, after these operation calls. -/
def TaInstance.put (inst : TaInstance D) (id : SessionId) (session : Option (SessionCtx D))
    (ops : List TeeOp) : TaInstance D where
  sessions := Function.update inst.sessions id session
  teeLog := ops ++ inst.teeLog

/-- The operation calls by which the log of a session has grown. -/
def newCalls (old new : List TeeOp) : List TeeOp := new.take (new.length - old.length)

/-- The instance under the calls of its entry points; the TEE passes on only those that it may
make. -/
def taEntryPoint (H : Sha256 D) : Machine (TaInstance D) Entry (Option TeeResult) :=
  fun inst entry =>
    match entry with
    | .openSession id mallocSucceeds =>
        match inst.sessions id with
        | some _ => (none, inst)
        | none =>
            if mallocSucceeds then
              (some .success, inst.put id (some (taOpenSessionEntryPoint H)) [])
            else (some .outOfMemory, inst)
    | .invokeCommand id call =>
        match inst.sessions id with
        | none => (none, inst)
        | some ctx =>
            let ((res, _), ctx') := invoke H ctx call
            (some res, inst.put id (some ctx') (newCalls ctx.teeLog ctx'.teeLog))
    | .closeSession id =>
        match inst.sessions id with
        | none => (none, inst)
        | some ctx =>
            (some .success, inst.put id none (newCalls ctx.teeLog (taCloseSessionEntryPoint ctx)))

/-- The handle that a session may use. -/
def SessionCtx.held? (ctx : SessionCtx D) : Option Handle :=
  if ctx.isInitialized then some ctx.hashOp else none

/-- The handles of the open sessions. -/
def TaInstance.held (inst : TaInstance D) (id : SessionId) : Option Handle :=
  (inst.sessions id).bind SessionCtx.held?

/-- The handle that a CMD_INIT or the end of the session frees. -/
def freed (ctx : SessionCtx D) : List TeeOp :=
  if ctx.hashOp ≠ teeHandleNull then [.free ctx.hashOp] else []

/-- The contract of the TEE API, for all sessions together: a handle that is handed out is not null
and not live in any of them. -/
def FreshEntry (inst : TaInstance D) (entry : Entry) : Prop :=
  ∀ id call ctx handle, entry = .invokeCommand id call → inst.sessions id = some ctx →
    call.decoded = some (.init (.ok handle)) →
      handle ≠ teeHandleNull ∧ handle ∉ liveHandles (freed ctx ++ inst.teeLog)

/-- The call is not a CMD_INIT whose allocation fails in an initialised session. -/
def NoFailedReinitEntry (inst : TaInstance D) (entry : Entry) : Prop :=
  ∀ id call ctx err clears, entry = .invokeCommand id call → inst.sessions id = some ctx →
    ctx.isInitialized = true → call.decoded ≠ some (.init (.fail err clears))

/-- Ownership as it is kept: a session that is not initialised has the null handle. -/
structure InstanceInv (inst : TaInstance D) : Prop extends Holding inst.held inst.teeLog where
  null : ∀ id ctx, inst.sessions id = some ctx → ctx.isInitialized = false →
    ctx.hashOp = teeHandleNull

theorem instanceInv_create : InstanceInv (taCreateEntryPoint : TaInstance D) :=
  ⟨holding_nil, by simp [taCreateEntryPoint]⟩

/-! ## One call -/

theorem held_put (inst : TaInstance D) (id : SessionId) (session : Option (SessionCtx D))
    (ops : List TeeOp) :
    (inst.put id session ops).held =
      Function.update inst.held id (session.bind SessionCtx.held?) := by
  funext id'
  by_cases hid : id' = id
  · subst hid
    simp [TaInstance.held, TaInstance.put]
  · simp [TaInstance.held, TaInstance.put, hid]

theorem newCalls_append (ops old : List TeeOp) : newCalls old (ops ++ old) = ops := by
  simp [newCalls]

theorem taClose_eq (ctx : SessionCtx D) :
    taCloseSessionEntryPoint ctx = freed ctx ++ ctx.teeLog := by
  unfold taCloseSessionEntryPoint freed
  split <;> rfl

/-- What a raw call does to the handle of its session. -/
inductive HandleCase (ctx : SessionCtx D) (call : RawCall) (ctx' : SessionCtx D) : Prop
  | event (hstep : HandleStep ctx ctx')
  | reset (handle : Handle) (hcall : call.decoded = some (.init (.ok handle)))
      (hlog : ctx'.teeLog = .allocate handle :: (freed ctx ++ ctx.teeLog))
      (hop : ctx'.hashOp = handle) (hinit : ctx'.isInitialized = true)
  | failed (err : AllocError) (clears : Bool)
      (hcall : call.decoded = some (.init (.fail err clears)))
      (hlog : ctx'.teeLog = .allocateFailed :: (freed ctx ++ ctx.teeLog))
      (hop : ctx'.hashOp = if clears then teeHandleNull else ctx.hashOp)
      (hinit : ctx'.isInitialized = ctx.isInitialized)

theorem invoke_handleCase (ctx : SessionCtx D) (call : RawCall) :
    HandleCase ctx call (invoke H ctx call).2 := by
  rw [invoke_eq]
  cases hcall : call.decoded with
  | none => exact .event (.same rfl rfl rfl)
  | some cmd =>
      cases cmd with
      | init alloc =>
          cases alloc with
          | ok handle =>
              refine .reset handle hcall ?_ ?_ ?_ <;>
                simp [serve, exec, cmdInit_ok, taClose_eq]
          | fail err clears =>
              refine .failed err clears hcall ?_ ?_ ?_ <;>
                simp [serve, exec, cmdInit_fail, taClose_eq]
      | event e => exact .event (handleStep_handle ctx e)
      | finalize => exact .event (.same rfl rfl rfl)
      | getAuth out => exact .event (.same rfl rfl rfl)
      | getLog out => exact .event (.same rfl rfl rfl)

/-- A session lets go of its handle, if it has one. -/
theorem InstanceInv.freed {inst : TaInstance D} (h : InstanceInv inst) {id : SessionId}
    {ctx : SessionCtx D}
    (hctx : inst.sessions id = some ctx) :
    Holding (Function.update inst.held id none) (SecureWorld.freed ctx ++ inst.teeLog) := by
  have hheld : inst.held id = ctx.held? := by simp [TaInstance.held, hctx]
  cases hinit : ctx.isInitialized with
  | true =>
      have hsome : inst.held id = some ctx.hashOp := by simp [hheld, SessionCtx.held?, hinit]
      have hnull := (h.usable id _ hsome).1
      rw [SecureWorld.freed, if_pos hnull]
      exact h.release hsome
  | false =>
      have hnone : inst.held id = none := by simp [hheld, SessionCtx.held?, hinit]
      rw [SecureWorld.freed, if_neg (by simp [h.null id ctx hctx hinit]), ← hnone,
        Function.update_eq_self]
      exact h.toHolding

/-- The other sessions are as they were. -/
theorem InstanceInv.null_put {inst : TaInstance D} (h : InstanceInv inst) {id : SessionId}
    {session : Option (SessionCtx D)} {ops : List TeeOp}
    (hsession : ∀ ctx, session = some ctx → ctx.isInitialized = false →
      ctx.hashOp = teeHandleNull) :
    ∀ id' ctx, (inst.put id session ops).sessions id' = some ctx → ctx.isInitialized = false →
      ctx.hashOp = teeHandleNull := by
  intro id' ctx hctx
  by_cases hid : id' = id
  · subst hid
    exact hsession ctx (by simpa [TaInstance.put] using hctx)
  · exact h.null id' ctx (by simpa [TaInstance.put, hid] using hctx)

/-- A raw call other than a failing CMD_INIT of an initialised session. -/
theorem InstanceInv.invoke {inst : TaInstance D} (h : InstanceInv inst) {id : SessionId}
    {ctx : SessionCtx D}
    (hctx : inst.sessions id = some ctx) {call : RawCall} {ctx' : SessionCtx D}
    (hcase : HandleCase ctx call ctx')
    (hfresh : ∀ handle, call.decoded = some (.init (.ok handle)) →
      handle ≠ teeHandleNull ∧ handle ∉ liveHandles (SecureWorld.freed ctx ++ inst.teeLog))
    (hreinit : ctx.isInitialized = true → ∀ err clears,
      call.decoded ≠ some (.init (.fail err clears))) :
    InstanceInv (inst.put id (some ctx') (newCalls ctx.teeLog ctx'.teeLog)) := by
  have hheld : inst.held id = ctx.held? := by simp [TaInstance.held, hctx]
  cases hcase with
  | event hstep =>
      -- At most the session's own handle is used.
      obtain ⟨hops, hop, hinit⟩ :
          Holding inst.held (newCalls ctx.teeLog ctx'.teeLog ++ inst.teeLog) ∧
            ctx'.hashOp = ctx.hashOp ∧ ctx'.isInitialized = ctx.isInitialized := by
        cases hstep with
        | same hlog hop hinit =>
            refine ⟨?_, hop, hinit⟩
            rw [hlog]
            simpa [newCalls] using h.toHolding
        | used hready hlog hop hinit =>
            refine ⟨?_, hop, hinit⟩
            rw [hlog]
            have huse := h.use (by rw [hheld, SessionCtx.held?, if_pos hready])
            simpa [newCalls] using huse
      have hsame : ctx'.held? = inst.held id := by
        rw [hheld, SessionCtx.held?, SessionCtx.held?, hinit, hop]
      refine ⟨?_, h.null_put fun _ heq hnot => ?_⟩
      · rw [held_put, Option.bind_some, hsame, Function.update_eq_self]
        exact hops
      · obtain rfl := Option.some.inj heq
        rw [hop]
        exact h.null id ctx hctx (hinit.symm.trans hnot)
  -- The handle is freed before the new one is asked for, which may then be the same one.
  | reset handle hcall hlog hop hinit =>
      rcases hfresh handle hcall with ⟨hnull, hnew⟩
      have hacquired := (h.freed hctx).acquire (Function.update_self ..) hnull hnew
      rw [Function.update_idem] at hacquired
      refine ⟨?_, h.null_put fun _ heq hnot => ?_⟩
      · have hsome : ctx'.held? = some handle := by rw [SessionCtx.held?, if_pos hinit, hop]
        have hgrown : newCalls ctx.teeLog ctx'.teeLog =
            .allocate handle :: SecureWorld.freed ctx := by
          rw [hlog, ← List.cons_append, newCalls_append]
        rw [held_put, Option.bind_some, hsome]
        simp only [TaInstance.put, hgrown]
        exact hacquired
      · obtain rfl := Option.some.inj heq
        rw [hinit] at hnot
        cases hnot
  -- The session had no handle to lose.
  | failed err clears hcall hlog hop hinit =>
      have hnot : ctx.isInitialized = false := by
        rw [← Bool.not_eq_true]
        exact fun hready => hreinit hready err clears hcall
      have hnone : ctx'.held? = none := by simp [SessionCtx.held?, hinit, hnot]
      refine ⟨?_, h.null_put fun _ heq _ => ?_⟩
      · have hgrown : newCalls ctx.teeLog ctx'.teeLog =
            .allocateFailed :: SecureWorld.freed ctx := by
          rw [hlog, ← List.cons_append, newCalls_append]
        rw [held_put, Option.bind_some, hnone]
        simp only [TaInstance.put, hgrown]
        exact (h.freed hctx).allocateFailed
      · obtain rfl := Option.some.inj heq
        rw [hop, h.null id ctx hctx hnot]
        split <;> rfl

/-- A CMD_INIT that fails in an initialised session leaves it with a handle that is not live. -/
theorem not_holding_of_failed_reinit {inst inst' : TaInstance D} {id : SessionId}
    {ctx : SessionCtx D} (hinit : ctx.isInitialized = true) {call : RawCall} {err : AllocError}
    {clears : Bool} (hcall : call.decoded = some (.init (.fail err clears)))
    (hinst' : inst' = inst.put id (some (invoke H ctx call).2)
      (newCalls ctx.teeLog (invoke H ctx call).2.teeLog)) :
    ¬ Holding inst'.held inst'.teeLog := by
  have hafter : (invoke H ctx call).2 = (cmdInit H (.fail err clears) ctx).2 := by
    rw [invoke_eq, hcall]
    rfl
  rw [hafter, cmdInit_fail, taClose_eq, ← List.cons_append, newCalls_append] at hinst'
  intro hholding
  have hheld : inst'.held id = some (if clears then teeHandleNull else ctx.hashOp) := by
    simp [hinst', held_put, SessionCtx.held?, hinit]
  rcases hholding.usable id _ hheld with ⟨hnull, hlive⟩
  -- Either the variable was cleared, or it still holds the handle that was freed first.
  cases clears with
  | true => exact hnull rfl
  | false =>
      have hne : ctx.hashOp ≠ teeHandleNull := hnull
      simp [hinst', TaInstance.put, freed, hne, liveHandles] at hlive

/-! ## Runs -/

theorem InstanceInv.step {inst : TaInstance D} (h : InstanceInv inst) {entry : Entry}
    (hfresh : FreshEntry inst entry) (hreinit : NoFailedReinitEntry inst entry) :
    InstanceInv (taEntryPoint H inst entry).2 := by
  cases entry with
  | openSession id mallocSucceeds =>
      simp only [taEntryPoint]
      split
      · exact h
      · rename_i hclosed
        split
        -- A new session holds nothing, as its id did before.
        · have hheld : inst.held id = none := by simp [TaInstance.held, hclosed]
          refine ⟨?_, h.null_put fun ctx heq _ => ?_⟩
          · have hnone : (taOpenSessionEntryPoint H).held? = none := rfl
            rw [held_put, Option.bind_some, hnone, ← hheld, Function.update_eq_self]
            exact h.toHolding
          · rw [← Option.some.inj heq]
            rfl
        · exact h
  | invokeCommand id call =>
      simp only [taEntryPoint]
      split
      · exact h
      · rename_i ctx hctx
        exact h.invoke hctx (invoke_handleCase ctx call)
          (fun handle hcall => hfresh id call ctx handle rfl hctx hcall)
          (fun hinit err clears => hreinit id call ctx err clears rfl hctx hinit)
  | closeSession id =>
      simp only [taEntryPoint]
      split
      · exact h
      · rename_i ctx hctx
        refine ⟨?_, h.null_put nofun⟩
        rw [held_put, Option.bind_none, taClose_eq, newCalls_append]
        exact h.freed hctx

/-- For a TEE that hands out fresh handles, every initialised session of an instance holds a usable
handle, and the sessions share no handle, misuse none and leave none behind, in every state of a run,
exactly when no CMD_INIT of the run fails to allocate in an initialised session. -/
theorem holding_iff_no_failed_reinit (H : Sha256 D) (entries : List Entry)
    (hfresh : (taEntryPoint H).StepsMeet FreshEntry taCreateEntryPoint entries) :
    (taEntryPoint H).Always (fun inst => Holding inst.held inst.teeLog) taCreateEntryPoint entries ↔
      (taEntryPoint H).StepsMeet NoFailedReinitEntry taCreateEntryPoint entries := by
  refine (taEntryPoint H).always_iff_stepsMeet (J := InstanceInv) (fun inst h => h.toHolding) ?_ ?_
    instanceInv_create entries hfresh
  · intro inst entry hinv hfresh hreinit
    exact hinv.step hfresh hreinit
  · rintro inst entry - - hnext id call ctx err clears rfl hctx hinit hcall
    have hafter : (taEntryPoint H inst (.invokeCommand id call)).2 =
        inst.put id (some (invoke H ctx call).2)
          (newCalls ctx.teeLog (invoke H ctx call).2.teeLog) := by
      simp only [taEntryPoint, hctx]
    exact not_holding_of_failed_reinit hinit hcall hafter hnext

/-- The raw call of a CMD_INIT. -/
def initCall (alloc : AllocOutcome) : RawCall := ⟨alloc, commandInit, emptyOperation⟩

/-- Two sessions, one after the other, and a handle that both are given. -/
def twoSessions : List Entry :=
  [.openSession 1 true, .invokeCommand 1 (initCall (.ok 5)), .closeSession 1,
    .openSession 2 true, .invokeCommand 2 (initCall (.ok 5)), .closeSession 2]

theorem holding_iff_no_failed_reinit_twoSessions :
    (taEntryPoint Sha256.free).Always (fun inst => Holding inst.held inst.teeLog)
        taCreateEntryPoint twoSessions ↔
      (taEntryPoint Sha256.free).StepsMeet NoFailedReinitEntry taCreateEntryPoint twoSessions := by
  refine holding_iff_no_failed_reinit Sha256.free twoSessions ?_
  refine ⟨?_, ?_, ?_, ?_, ?_, ?_, trivial⟩ <;> rintro id call ctx handle ⟨⟩ hctx hcall
  all_goals
    obtain rfl := Option.some.inj hctx
    obtain ⟨-, ⟨⟩⟩ := decode_init_iff.1 hcall
    decide +kernel

end SecureWorld
end CFlat
