import CFlat.Runtime.Processes

/-!
# OneSession — the trusted application belongs to one process at a time

The header of the trusted application asks for a single instance and does not ask for several
sessions, so the TEE refuses a session while another one is open (`OneSession`).  Then at most one
process has a session (`exclusive_run`).  The runtime does not close a session whose CMD_INIT has
failed; under the rule such a session keeps every process out, the failed one included
(`no_command_after_initFailed`).  What the kernel closes when a process dies is outside this model.
-/

namespace CFlat
namespace Runtime

open Lib SecureWorld

variable {D : Type} {H : Sha256 D} {C : Type} [DecidableEq C]

/-! ## The rule -/

/-- The rule of a TEE for a trusted application whose header asks for a single instance and not for
several sessions: while a session is open, no other is opened. -/
structure OneSession (w : World C D) (turn : Turn C) : Prop where
  fresh : FreshSession w turn
  refuses : ∀ id, (w.inst.sessions id).isSome = true → turn.call.env.session = false

/-- At most one process has a session. -/
def Exclusive (w : World C D) : Prop :=
  ∀ c c', (w.processes c).sess.isSome = true → (w.processes c').sess.isSome = true → c = c'

theorem world_processes_of_ne (H : Sha256 D) (w : World C D) {turn : Turn C} {c : C}
    (hc : c ≠ turn.process) : (world H w turn).2.processes c = w.processes c :=
  Function.update_of_ne hc ..

theorem world_processes_self (H : Sha256 D) (w : World C D) (turn : Turn C) :
    (world H w turn).2.processes turn.process =
      (Joined.call H turn.newId ⟨w.processes turn.process, w.inst⟩ turn.call).2.process :=
  Function.update_self ..

/-- A process gets a session only when no process has one. -/
theorem Exclusive.step {w : World C D} {clients : C → Client D} (hapart : Apart w clients)
    (h : Exclusive w) {turn : Turn C} (hrule : OneSession w turn) :
    Exclusive (world H w turn).2 := by
  have hframe := (Joined.call_matches (H := H) (hapart.sees turn.process) hrule.fresh
    turn.call).frame
  cases hsession : turn.call.env.session with
  | true =>
      -- No session is open, so no other process has one.
      have hnone : ∀ c, (w.processes c).sess = none := by
        intro c
        by_contra hsess
        rcases Option.ne_none_iff_exists'.1 hsess with ⟨id, hid⟩
        have hrefused := hrule.refuses id ((hapart.sees c).isOpen id hid)
        rw [hsession] at hrefused
        cases hrefused
      have hself : ∀ c, ((world H w turn).2.processes c).sess.isSome = true →
          c = turn.process := by
        intro c hc
        by_contra hne
        rw [world_processes_of_ne H w hne, hnone c] at hc
        cases hc
      exact fun c c' hc hc' => (hself c hc).trans (hself c' hc').symm
  | false =>
      have hopens : Joined.opens turn.newId turn.call.env = none := by simp [Joined.opens, hsession]
      have hbefore : ∀ c, ((world H w turn).2.processes c).sess.isSome = true →
          (w.processes c).sess.isSome = true := by
        intro c hc
        by_cases hne : c = turn.process
        · subst hne
          rw [world_processes_self] at hc
          rcases hframe.sess with hsess | hsess | hsess
          · rwa [hsess] at hc
          · simp [hsess, hopens] at hc
          · simp [hsess] at hc
        · rwa [world_processes_of_ne H w hne] at hc
      exact fun c c' hc hc' => h c c' (hbefore c hc) (hbefore c' hc')

/-- Under the rule the processes stay apart, and one at most has a session. -/
theorem exclusive_run {turns : List (Turn C)}
    (hrule : (world H).StepsMeet OneSession .start turns) :
    ∃ clients, Apart ((world H).run .start turns) clients ∧
      Exclusive ((world H).run .start turns) := by
  have hstep : ∀ (clients : C → Client D) w turn, OneSession w turn →
      (Apart w clients ∧ Exclusive w) →
        id (alone H clients turn).1 = (world H w turn).1 ∧
          (Apart (world H w turn).2 (alone H clients turn).2 ∧ Exclusive (world H w turn).2) := by
    rintro clients w turn hrule ⟨hapart, hexclusive⟩
    rcases hapart.step hrule.fresh with ⟨hreply, hnext⟩
    exact ⟨hreply, hnext, hexclusive.step hapart hrule⟩
  have hsim := (alone H).sim_run_of_stepsMeet (world H) id hstep
    ⟨apart_start, fun _ _ hc => by cases hc⟩ hrule
  exact ⟨_, hsim.2⟩

/-! ## A failed initialisation -/

/-- What a call prints, or its command returns, when no command of it is answered. -/
def Output.isUnserved : Output → Bool
  | .contextFailed | .sessionFailed | .notInitialized | .cleanedUp => true
  | .hookDone res | .finalizeFailed res => res.isNone
  | .initFailed _ | .getAuthFailed _ | .attestation _ _ => false

/-- The instance has an open session, and no process that has been initialised has it. -/
structure Stranded (inst : TaInstance D) (w : World C D) : Prop where
  unchanged : w.inst = inst
  isOpen : ∃ id, (inst.sessions id).isSome = true
  sess : ∀ c, (w.processes c).initialized = true → (w.processes c).sess = none

namespace Joined

variable {newId : SessionId} {s : Joined D} {call : Call}

theorem teecInvokeCommand_none (hsess : s.process.sess = none) (tr : Transport) (call : TaCall) :
    teecInvokeCommand H tr call s =
      ((none, call.op.params),
        { s with
          process := { s.process with worldSwitchCount := s.process.worldSwitchCount + 1 } }) := by
  simp only [teecInvokeCommand, hsess]

/-- Without a session, and without one to be had, a call changes at most the counter and the pending
reset. -/
theorem call_unserved (newId : SessionId)
    (hsess : s.process.initialized = true → s.process.sess = none)
    (hsession : call.env.session = false) :
    (Joined.call H newId s call).1.isUnserved = true ∧
      (Joined.call H newId s call).2.inst = s.inst ∧
        (Joined.call H newId s call).2.process.initialized = s.process.initialized ∧
          (Joined.call H newId s call).2.process.sess = s.process.sess := by
  rcases s with ⟨⟨initialized, needsReinit, count, sess⟩, inst⟩
  rcases call with ⟨action, env⟩
  replace hsession : env.session = false := hsession
  cases initialized with
  | false =>
      -- The process asks for a session again, and is refused.
      cases action with
      | hook e =>
          cases hcontext : env.context <;>
            simp [Joined.call, hook, ensureInit, hcontext, hsession, Output.isUnserved]
      | _ => simp [Joined.call, cflatFinalizeAndPrint, cflatCleanup, Output.isUnserved]
  | true =>
      -- The process has closed its session and never opens another one.
      obtain rfl : sess = none := hsess rfl
      cases action with
      | hook e =>
          cases needsReinit <;> cases hforward : e.isForward <;>
            simp [Joined.call, hook, ensureInit, maybeReinit, teecInvokeCommand_none, hforward,
              Output.isUnserved]
      | _ =>
          simp [Joined.call, cflatFinalizeAndPrint, cflatCleanup, teecInvokeCommand_none,
            Output.isUnserved]

/-- A command changes nothing in the process but the counter. -/
theorem teecInvokeCommand_process (tr : Transport) (call : TaCall) :
    (teecInvokeCommand H tr call s).2.process =
      { s.process with worldSwitchCount := s.process.worldSwitchCount + 1 } := by
  unfold teecInvokeCommand
  dsimp only
  split
  · rfl
  · split
    · rfl
    · cases tr <;> rfl

/-- A failed initialisation leaves its session open. -/
theorem ensureInit_initFailed {env : Env} {res : Option TeeResult}
    (hreply : (ensureInit H newId env s).1 = some (.initFailed res)) :
    (ensureInit H newId env s).2.process.initialized = false ∧
      (ensureInit H newId env s).2.process.sess = some newId := by
  unfold ensureInit at hreply ⊢
  split at hreply
  · cases hreply
  split at hreply
  · cases hreply
  split at hreply
  · cases hreply
  · rename_i hinit hcontext hsession
    rw [if_neg hinit, if_neg hcontext, if_neg hsession]
    dsimp only at hreply ⊢
    split at hreply
    · rename_i hres
      rw [if_pos hres, teecInvokeCommand_process]
      exact ⟨by simpa using hinit, rfl⟩
    · cases hreply

theorem call_initFailed {res : Option TeeResult}
    (hreply : (Joined.call H newId s call).1 = .initFailed res) :
    (Joined.call H newId s call).2.process.initialized = false ∧
      (Joined.call H newId s call).2.process.sess = some newId := by
  rcases call with ⟨action, env⟩
  cases action with
  | hook e =>
      simp only [Joined.call, hook] at hreply ⊢
      generalize hout : ensureInit H newId env s = out at hreply ⊢
      rcases out with ⟨failure, s'⟩
      cases failure with
      | none => cases hreply
      | some out =>
          obtain rfl : out = .initFailed res := hreply
          have hfailed := ensureInit_initFailed (H := H) (s := s) (congrArg Prod.fst hout)
          rwa [hout] at hfailed
  | finalizeAndPrint =>
      simp only [Joined.call, cflatFinalizeAndPrint] at hreply
      split at hreply
      · cases hreply
      · split at hreply
        · cases hreply
        · split at hreply <;> cases hreply
  | cleanup => cases hreply

end Joined

theorem Stranded.step {inst : TaInstance D} {w : World C D} (h : Stranded inst w) {turn : Turn C}
    (hrule : OneSession w turn) :
    (world H w turn).1.isUnserved = true ∧ Stranded inst (world H w turn).2 := by
  obtain ⟨id, hid⟩ : ∃ id, (w.inst.sessions id).isSome = true := by
    rw [h.unchanged]
    exact h.isOpen
  rcases Joined.call_unserved (H := H) (s := ⟨w.processes turn.process, w.inst⟩) turn.newId
    (h.sess turn.process) (hrule.refuses id hid) with ⟨hreply, hinst, hinit, hsess⟩
  refine ⟨hreply, hinst.trans h.unchanged, h.isOpen, fun c hc => ?_⟩
  by_cases hne : c = turn.process
  · subst hne
    rw [world_processes_self] at hc ⊢
    rw [hinit] at hc
    rw [hsess]
    exact h.sess _ hc
  · rw [world_processes_of_ne H w hne] at hc ⊢
    exact h.sess c hc

/-- The session that a failed initialisation leaves open is neither used again nor closed, and under
the rule it is the only one: no command of any process is served any more. -/
theorem no_command_after_initFailed (H : Sha256 D) {before after : List (Turn C)} {turn : Turn C}
    (hrule : (world H).StepsMeet OneSession .start (before ++ turn :: after))
    {res : Option TeeResult}
    (hfailed : (world H ((world H).run .start before) turn).1 = .initFailed res) :
    (∀ out ∈ (world H).replies ((world H).run .start (before ++ [turn])) after,
        out.isUnserved = true) ∧
      ((world H).run .start (before ++ turn :: after)).inst =
        ((world H).run .start (before ++ [turn])).inst := by
  rcases ((world H).stepsMeet_append ..).1 hrule with ⟨hbefore, hturn, hafter⟩
  rcases exclusive_run hbefore with ⟨clients, hapart, hexclusive⟩
  rw [Machine.run_append, Machine.run_append]
  generalize (world H).run .start before = w at hfailed hturn hafter hapart hexclusive ⊢
  have hnext := (hapart.step (H := H) hturn.fresh).2
  have hone : Exclusive (world H w turn).2 := hexclusive.step hapart hturn
  rcases Joined.call_initFailed hfailed with ⟨hinit, hsess⟩
  rw [← world_processes_self] at hinit hsess
  -- The failed process has the only session, and it is not initialised.
  have hstranded : Stranded (world H w turn).2.inst (world H w turn).2 := by
    refine ⟨rfl, ⟨_, (hnext.sees turn.process).isOpen _ hsess⟩, fun c hc => ?_⟩
    by_contra hopen
    have heq : c = turn.process :=
      hone c turn.process (Option.isSome_iff_ne_none.2 hopen) (by rw [hsess]; rfl)
    rw [heq, hinit] at hc
    cases hc
  have hrun := (world H).replies_invariant (P := fun out => out.isUnserved = true)
    (fun _ _ hrule hstranded => hstranded.step hrule) hstranded after hafter
  exact ⟨hrun.1, hrun.2.unchanged⟩

/-- A program whose operation cannot be allocated, and another one that has to wait for it. -/
theorem no_command_after_initFailed_exhausted :
    let before : List (Turn Bool) := [⟨true, refused (.hook (.recordNode 1)), 0⟩]
    let turn : Turn Bool :=
      ⟨false, { Call.reliable (.hook (.recordNode 2)) with
        env.initAlloc := .fail .outOfMemory false }, 0⟩
    let after : List (Turn Bool) :=
      [⟨false, refused (.hook (.recordNode 2)), 1⟩, ⟨true, refused (.hook (.recordNode 1)), 1⟩,
        ⟨false, refused .finalizeAndPrint, 1⟩]
    (∀ out ∈ (world Sha256.free).replies ((world Sha256.free).run .start (before ++ [turn])) after,
        out.isUnserved = true) ∧
      ((world Sha256.free).run .start (before ++ turn :: after)).inst =
        ((world Sha256.free).run .start (before ++ [turn])).inst := by
  intro before turn after
  have hfresh : (world Sha256.free).StepsMeet FreshSession .start (before ++ turn :: after) := by
    decide +kernel
  rcases hfresh with ⟨hfresh₀, hfresh₁, hfresh₂, hfresh₃, hfresh₄, -⟩
  have hrule : (world Sha256.free).StepsMeet OneSession .start (before ++ turn :: after) :=
    ⟨⟨hfresh₀, fun _ _ => rfl⟩, ⟨hfresh₁, fun _ hopen => by cases hopen⟩,
      ⟨hfresh₂, fun _ _ => rfl⟩, ⟨hfresh₃, fun _ _ => rfl⟩, ⟨hfresh₄, fun _ _ => rfl⟩, trivial⟩
  have hfailed : (world Sha256.free ((world Sha256.free).run .start before) turn).1 =
      .initFailed (some .outOfMemory) := by decide +kernel
  exact no_command_after_initFailed Sha256.free hrule hfailed

end Runtime
end CFlat
