import CFlat.SecureWorld.Twins

/-!
# Isolation — what a report shows of earlier cycles

A cycle is a successful CMD_INIT, measurement events and a CMD_FINALIZE.  CMD_INIT resets the
counters and leaves the loop records in place, and `cmd_loop_enter` does not set `loop_hash` when
it takes a slot; so a report shows the `loop_hash` of an earlier cycle in every record that the
cycle opened and never closed, and nothing else (`isolated_iff_everySlotClosed`).
-/

namespace CFlat
namespace SecureWorld

open Lib

variable {D : Type} {H : Sha256 D}

/-- A measurement cycle, as commands. -/
def cycle (handle : Handle) (es : List Event) : List Cmd :=
  .init (.ok handle) :: (es.map .event ++ [.finalize])

/-- The context of a session after a history of commands. -/
def afterHistory (H : Sha256 D) (history : List Cmd) : SessionCtx D :=
  (exec H).run (taOpenSessionEntryPoint H) history

/-! ## A cycle in terms of its events -/

/-- The context in which a cycle issues its CMD_FINALIZE. -/
def beforeFinalize (H : Sha256 D) (ctx : SessionCtx D) (handle : Handle) (es : List Event) :
    SessionCtx D :=
  Machine.run (SecureWorld.handle H) (cmdInit H (.ok handle) ctx).2 es

theorem run_events (ctx : SessionCtx D) (es : List Event) :
    (exec H).run ctx (es.map .event) = Machine.run (handle H) ctx es := by
  induction es generalizing ctx with
  | nil => rfl
  | cons e es ih => exact ih (handle H ctx e).2

theorem replies_events (ctx : SessionCtx D) (es : List Event) :
    (exec H).replies ctx (es.map .event) =
      (Machine.replies (handle H) ctx es).map fun res => ⟨res, none⟩ := by
  induction es generalizing ctx with
  | nil => rfl
  | cons e es ih =>
      simp only [List.map_cons, Machine.replies_cons, ih]
      rfl

theorem run_cycle (ctx : SessionCtx D) (handle : Handle) (es : List Event) :
    (exec H).run ctx (cycle handle es) = (cmdFinalize H (beforeFinalize H ctx handle es)).2 := by
  calc
    (exec H).run ctx (cycle handle es)
        = (exec H).run ((exec H).run (cmdInit H (.ok handle) ctx).2 (es.map .event)) [.finalize] :=
          (exec H).run_append (cmdInit H (.ok handle) ctx).2 (es.map .event) [.finalize]
    _ = (cmdFinalize H (beforeFinalize H ctx handle es)).2 := by
          rw [run_events]
          rfl

theorem replies_cycle (ctx : SessionCtx D) (handle : Handle) (es : List Event) :
    (exec H).replies ctx (cycle handle es) =
      ⟨.success, none⟩ ::
        ((exec H).replies (cmdInit H (.ok handle) ctx).2 (es.map .event) ++
          [⟨.success, none⟩]) := by
  have hinit : (cmdInit H (.ok handle) ctx).1 = .success := by rw [cmdInit_ok]
  have hexec : exec H ctx (.init (.ok handle)) =
      (⟨.success, none⟩, (cmdInit H (.ok handle) ctx).2) := by
    simp only [exec, hinit]
  simp only [cycle, Machine.replies_cons, Machine.replies_append, hexec]
  rfl

theorem measuring_run {ctx : SessionCtx D} (h : Measuring ctx) (es : List Event) :
    Measuring (Machine.run (handle H) ctx es) :=
  Machine.run_invariant (handle H) (I := Measuring) (P := fun _ => True)
    (fun _ e _ h => measuring_handle h e) h es (fun _ _ => trivial)

theorem measuring_beforeFinalize (ctx : SessionCtx D) (handle : Handle) (es : List Event) :
    Measuring (beforeFinalize H ctx handle es) :=
  measuring_run (measuring_init_ok handle ctx) es

/-- An initialised state that a session reaches without a CMD_FINALIZE since its last CMD_INIT,
which may have failed. -/
def ReachedSinceInit (H : Sha256 D) (ctx : SessionCtx D) : Prop :=
  ctx.isInitialized = true ∧ ∃ (history : List Cmd) (alloc : AllocOutcome) (cmds : List Cmd),
    (∀ cmd ∈ cmds, cmd ≠ .finalize) ∧
      (exec H).run (afterHistory H history) (.init alloc :: cmds) = ctx

theorem reachedSinceInit_beforeFinalize (history : List Cmd) (handle : Handle) (es : List Event) :
    ReachedSinceInit H (beforeFinalize H (afterHistory H history) handle es) := by
  refine ⟨(measuring_beforeFinalize _ _ _).initialized, history, .ok handle, es.map .event, ?_, ?_⟩
  · simp
  · exact run_events _ es

/-- These states are measuring. -/
theorem ReachedSinceInit.measuring {ctx : SessionCtx D} (h : ReachedSinceInit H ctx) :
    Measuring ctx := by
  rcases h with ⟨hinit, history, alloc, cmds, hcmds, rfl⟩
  -- The counters stay in step, also through CMD_INITs that fail; only the flag is asked for.
  have hkeep : ∀ (ctx : SessionCtx D) (cmd : Cmd), cmd ≠ .finalize →
      (WellFormed ctx ∧ ctx.loopDepth = ctx.activeCount) →
        WellFormed (exec H ctx cmd).2 ∧
          (exec H ctx cmd).2.loopDepth = (exec H ctx cmd).2.activeCount := by
    rintro ctx cmd hcmd ⟨hwf, hexact⟩
    refine ⟨wellFormed_exec hwf cmd, ?_⟩
    cases cmd with
    | init alloc => exact exact_init alloc ctx
    | event e => exact loopDepth_handle hwf hexact e
    | finalize => exact absurd rfl hcmd
    | getAuth out => exact hexact
    | getLog out => exact hexact
  obtain ⟨hwf, hexact⟩ := (exec H).run_invariant hkeep
    ⟨wellFormed_init alloc (afterHistory H history), exact_init alloc _⟩ cmds hcmds
  exact ⟨hwf, hinit, hexact⟩

/-- The report of a cycle, as data. -/
def cycleReport (H : Sha256 D) (ctx : SessionCtx D) (handle : Handle) (es : List Event) :
    Report D :=
  (beforeFinalize H ctx handle es).measured

/-- The bytes that a cycle leaves in `final_auth[0..auth_size)`. -/
theorem report_cycle (ctx : SessionCtx D) (handle : Handle) (es : List Event) :
    ((exec H).run ctx (cycle handle es)).report = (cycleReport H ctx handle es).encode H := by
  rw [run_cycle]
  exact report_cmdFinalize (measuring_beforeFinalize ctx handle es).wellFormed

/-! ## The property -/

/-- Whatever the history of a session, a cycle over these events is answered in the same way and
leaves the same report, for every hash function. -/
def Isolated (es : List Event) : Prop :=
  ∀ (sha : List UInt8 → Digest) (history₁ history₂ : List Cmd) (handle₁ handle₂ : Handle),
    (exec (Sha256.ofBytes sha)).replies (afterHistory (Sha256.ofBytes sha) history₁)
        (cycle handle₁ es) =
      (exec (Sha256.ofBytes sha)).replies (afterHistory (Sha256.ofBytes sha) history₂)
        (cycle handle₂ es) ∧
    ((exec (Sha256.ofBytes sha)).run (afterHistory (Sha256.ofBytes sha) history₁)
        (cycle handle₁ es)).report =
      ((exec (Sha256.ofBytes sha)).run (afterHistory (Sha256.ofBytes sha) history₂)
        (cycle handle₂ es)).report

theorem isCycle_events (es : List Event) : ∀ cmd ∈ es.map Cmd.event, cmd.isCycle = true := by
  intro cmd hcmd
  rcases List.mem_map.1 hcmd with ⟨e, _, rfl⟩
  rfl

/-- After any two contexts the cycle goes through twins. -/
theorem twin_cycle {Q : D → D → Prop} {c₁ c₂ : SessionCtx D}
    (hQ : List.Forall₂ (fun rec₁ rec₂ => Q rec₁.loopHash rec₂.loopHash) c₁.loops.toList
      c₂.loops.toList) (handle₁ handle₂ : Handle) (es : List Event) :
    (exec H).replies c₁ (cycle handle₁ es) = (exec H).replies c₂ (cycle handle₂ es) ∧
      Twin Q (slotExec.run .empty (es.map .event)) (beforeFinalize H c₁ handle₁ es)
        (beforeFinalize H c₂ handle₂ es) := by
  obtain ⟨hreplies, htwin⟩ := twin_run (es.map .event) (isCycle_events es)
    (twin_init (H := H) hQ handle₁ handle₂)
  rw [run_events, run_events] at htwin
  refine ⟨?_, htwin⟩
  rw [replies_cycle, replies_cycle, hreplies]

/-- The sufficient half: with every slot closed, nothing left over is reported. -/
theorem cycle_isolated {es : List Event} (hclosed : EverySlotClosed (es.map .event))
    (c₁ c₂ : SessionCtx D) (handle₁ handle₂ : Handle) :
    (exec H).replies c₁ (cycle handle₁ es) = (exec H).replies c₂ (cycle handle₂ es) ∧
      ((exec H).run c₁ (cycle handle₁ es)).report =
        ((exec H).run c₂ (cycle handle₂ es)).report := by
  obtain ⟨hreplies, htwin⟩ := twin_cycle (H := H) (Q := fun _ _ => True)
    (leftover_trivial c₁ c₂) handle₁ handle₂ es
  refine ⟨hreplies, ?_⟩
  calc
    ((exec H).run c₁ (cycle handle₁ es)).report
        = (cycleReport H c₁ handle₁ es).encode H := report_cycle c₁ handle₁ es
    _ = (cycleReport H c₂ handle₂ es).encode H :=
          congrArg (Report.encode H) (htwin.measured_eq hclosed)
    _ = ((exec H).run c₂ (cycle handle₂ es)).report := (report_cycle c₂ handle₂ es).symm

/-! ## A history that leaves something over in every slot -/

/-- The hash function whose digests are all ones. -/
def onesSha : List UInt8 → Digest := fun _ => Vector.replicate 32 1

/-- Sixty-four loops entered and left once: every slot then holds a `loop_hash`. -/
def fillTable : List Cmd :=
  .init (.ok 1) :: (List.range 64).flatMap fun j =>
    [.event (.loopEnter (UInt64.ofNat j)), .event (.loopExit (UInt64.ofNat j))]

theorem loopHash_fillTable :
    ∀ rec ∈ (afterHistory (Sha256.ofBytes onesSha) fillTable).loops.toList,
      rec.loopHash = Vector.replicate 32 1 := by
  have hall : (afterHistory (Sha256.ofBytes onesSha) fillTable).loops.toList.all
      (fun rec => rec.loopHash = Vector.replicate 32 1) = true := by decide +kernel
  intro rec hrec
  exact of_decide_eq_true (List.all_eq_true.1 hall rec hrec)

theorem leftover_fillTable :
    List.Forall₂ (fun rec₁ rec₂ : LoopRecord Digest => rec₁.loopHash ≠ rec₂.loopHash)
      (afterHistory (Sha256.ofBytes onesSha) fillTable).loops.toList
      (afterHistory (Sha256.ofBytes onesSha) []).loops.toList := by
  rw [List.forall₂_iff_get]
  refine ⟨by simp, ?_⟩
  intro i h₁ h₂
  have hones := loopHash_fillTable _ (List.get_mem _ ⟨i, h₁⟩)
  have hzero : ((afterHistory (Sha256.ofBytes onesSha) []).loops.toList.get ⟨i, h₂⟩).loopHash =
      Vector.replicate 32 0 := by
    simp [afterHistory, taOpenSessionEntryPoint, Sha256.ofBytes]
  rw [hones, hzero]
  decide

/-- The necessary half: a slot that is never closed reports what was left over in it. -/
theorem everySlotClosed_of_isolated {es : List Event} (h : Isolated es) :
    EverySlotClosed (es.map .event) := by
  by_contra hopen
  have hslot : ∃ slot ∈ (slotExec.run .empty (es.map .event)).slots, slot.wasClosed = false := by
    simpa [EverySlotClosed] using hopen
  rcases h onesSha fillTable [] 1 1 with ⟨_, hreport⟩
  rcases twin_cycle (H := Sha256.ofBytes onesSha) leftover_fillTable 1 1 es with ⟨_, htwin⟩
  rw [report_cycle, report_cycle] at hreport
  exact htwin.measured_ne hslot (encode_injective Function.injective_id hreport)

/-- A cycle is isolated from the history before it exactly when every loop record that its events
open is closed by one of its loop exits at least once. -/
theorem isolated_iff_everySlotClosed (es : List Event) :
    Isolated es ↔ EverySlotClosed (es.map .event) := by
  constructor
  · exact everySlotClosed_of_isolated
  · intro hclosed sha history₁ history₂ handle₁ handle₂
    exact cycle_isolated hclosed _ _ handle₁ handle₂

/-- A loop left open at CMD_FINALIZE shows the `loop_hash` of the cycle before. -/
theorem isolation_broken_by_open_loop : ¬ ∀ es : List Event, Isolated es := by
  intro h
  obtain ⟨_, hreport⟩ := h [.loopEnter 2] onesSha
    [.init (.ok 1), .event (.loopEnter 1), .event (.loopExit 1)] [] 1 1
  rw [report_cycle, report_cycle] at hreport
  have hmeasured := encode_injective Function.injective_id hreport
  revert hmeasured
  decide +kernel

end SecureWorld
end CFlat
