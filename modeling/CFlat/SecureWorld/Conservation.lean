import CFlat.Lib.Tally
import CFlat.SecureWorld.Multiplicity

/-!
# Conservation — entries and iterations over all records of a loop

A loop that re-enters itself spreads its counts over several records.  Their sums, modulo `2^32`,
are still the number of its accepted entries and of the iterations reported while it was open
(`counts_conserved`): nothing is lost or credited to another loop.
-/

namespace CFlat
namespace SecureWorld

open Lib

variable {D : Type} {H : Sha256 D} {ctx ctx' : SessionCtx D}

/-! ## Sums over the records of a loop -/

namespace SessionCtx

/-- The sum of a counter over the records `i < loop_count` of a loop. -/
def sumOf (ctx : SessionCtx D) (count : LoopRecord D → UInt32) (loopId : UInt64) : Nat :=
  ((ctx.live.filter fun rec => rec.loopId == loopId).map fun rec => (count rec).toNat).sum

end SessionCtx

/-- What a record adds to the sum of a loop. -/
def weight (count : LoopRecord D → UInt32) (loopId : UInt64) (rec : LoopRecord D) : Nat :=
  if rec.loopId == loopId then (count rec).toNat else 0

theorem sumOf_eq (count : LoopRecord D → UInt32) (loopId : UInt64) (ctx : SessionCtx D) :
    ctx.sumOf count loopId = (ctx.live.map (weight count loopId)).sum := sum_map_filter _ _ _

/-- One more of a counter that may wrap. -/
theorem toNat_succ_modEq (n : UInt32) : (n + 1).toNat ≡ n.toNat + 1 [MOD 2 ^ 32] := by
  rw [UInt32.toNat_add]
  exact Nat.mod_modEq _ _

section Cases

variable (count : LoopRecord D → UInt32) {d : Nat} {loopId : UInt64} {i : Nat}
  {stale rec : LoopRecord D}

/-- A record that is written keeps its loop, so that its weight changes for this loop only. -/
theorem weight_write (rec rec' : LoopRecord D) (hid : rec'.loopId = rec.loopId)
    (hown : rec.loopId = loopId) (hd : (count rec').toNat ≡ (count rec).toNat + d [MOD 2 ^ 32])
    (loopId' : UInt64) :
    weight count loopId' rec' ≡
      weight count loopId' rec + (if loopId' = loopId then d else 0) [MOD 2 ^ 32] := by
  subst hown
  by_cases hloop : loopId' = rec.loopId
  · simpa [weight, hid, hloop] using hd
  · simpa [weight, hid, hloop, Ne.symm hloop] using Nat.ModEq.refl 0

theorem sumOf_reopens (h : Reopens H ctx loopId i ctx')
    (hd : ∀ rec : LoopRecord D,
      (count (rec.opened ctx.currentHash)).toNat ≡ (count rec).toNat + d [MOD 2 ^ 32])
    (loopId' : UInt64) :
    ctx'.sumOf count loopId' ≡
      ctx.sumOf count loopId' + (if loopId' = loopId then d else 0) [MOD 2 ^ 32] := by
  rw [sumOf_eq, sumOf_eq, h.live]
  refine sum_updateFirst ?_ h.mem_inactive
  intro rec _ htest
  exact weight_write count rec (rec.opened ctx.currentHash) rfl (loopId_of_isInactiveOf rec htest)
    (hd rec) loopId'

theorem sumOf_allocates (h : Allocates H ctx loopId stale ctx')
    (hd : (count ((stale.recycled loopId ctx.loopDepth).opened ctx.currentHash)).toNat = d)
    (loopId' : UInt64) :
    ctx'.sumOf count loopId' = ctx.sumOf count loopId' + if loopId' = loopId then d else 0 := by
  have hweight : weight count loopId'
      ((stale.recycled loopId ctx.loopDepth).opened ctx.currentHash) =
        if loopId' = loopId then d else 0 := by
    unfold weight
    rw [hd]
    by_cases hid : loopId' = loopId
    · simp [LoopRecord.opened, LoopRecord.recycled, hid]
    · simp [LoopRecord.opened, LoopRecord.recycled, hid, Ne.symm hid]
  rw [sumOf_eq, sumOf_eq, h.live, List.map_append, List.sum_append, ← hweight]
  simp

theorem sumOf_closes (h : Closes ctx loopId i rec ctx')
    (hd : ∀ rec : LoopRecord D, count (rec.closed ctx.currentHash) = count rec)
    (loopId' : UInt64) : ctx'.sumOf count loopId' = ctx.sumOf count loopId' := by
  rw [sumOf_eq, sumOf_eq, h.live]
  refine congrArg List.sum (map_updateFirst_of_invariant ?_)
  intro rec _ _
  rw [weight, hd]
  rfl

theorem sumOf_counts (h : Counts ctx loopId i ctx')
    (hd : ∀ rec : LoopRecord D,
      (count rec.iterated).toNat ≡ (count rec).toNat + d [MOD 2 ^ 32])
    (loopId' : UInt64) :
    ctx'.sumOf count loopId' ≡
      ctx.sumOf count loopId' + (if loopId' = loopId then d else 0) [MOD 2 ^ 32] := by
  rcases getElem?_of_findLastIdx? h.index with ⟨rec, hrec, htest⟩
  rw [sumOf_eq, sumOf_eq, h.live]
  exact sum_modify hrec
    (weight_write count rec rec.iterated rfl (loopId_of_isActiveOf rec htest) (hd rec) loopId')

theorem sumOf_of_live (h : ctx'.live = ctx.live) (loopId' : UInt64) :
    ctx'.sumOf count loopId' = ctx.sumOf count loopId' := by
  rw [SessionCtx.sumOf, h, SessionCtx.sumOf]

theorem sumOf_finalize (hwf : WellFormed ctx)
    (hd : ∀ rec : LoopRecord D, count rec.deactivated = count rec) (loopId' : UInt64) :
    (cmdFinalize H ctx).2.sumOf count loopId' = ctx.sumOf count loopId' := by
  have hlive : (cmdFinalize H ctx).2.live = ctx.live.map LoopRecord.deactivated :=
    live_forceClose hwf
  rw [sumOf_eq, sumOf_eq, hlive, List.map_map]
  refine congrArg List.sum (List.map_congr_left ?_)
  intro rec _
  have hid : rec.deactivated.loopId = rec.loopId := by
    unfold LoopRecord.deactivated
    split <;> rfl
  rw [Function.comp_apply, weight, weight, hid, hd]

end Cases

/-! ## One command -/

/-- The accepted entry of a loop that a command is, if it is one. -/
def entryOf (loopId : UInt64) (cmd : Cmd) (reply : Reply) : Nat :=
  if cmd = .event (.loopEnter loopId) ∧ reply.result = .success then 1 else 0

/-- The iteration of an open loop that a command is, if it is one. -/
def iterationOf (loopId : UInt64) (log : List Event) (cmd : Cmd) : Nat :=
  if cmd = .event (.loopIteration loopId) ∧ 0 < openCount log loopId then 1 else 0

theorem deactivated_counts (rec : LoopRecord D) :
    rec.deactivated.invocationCount = rec.invocationCount ∧
      rec.deactivated.iterationCount = rec.iterationCount := by
  unfold LoopRecord.deactivated
  split <;> exact ⟨rfl, rfl⟩

/-- What an event adds to the entries of a loop. -/
theorem EventCase.invocations {e : Event} {out : TeeResult × SessionCtx D}
    (h : EventCase H ctx e out) (loopId : UInt64) :
    out.2.sumOf (·.invocationCount) loopId ≡ ctx.sumOf (·.invocationCount) loopId +
      (if e = .loopEnter loopId ∧ out.1 = .success then 1 else 0) [MOD 2 ^ 32] := by
  cases h with
  | enterRefused => simp [Nat.ModEq.refl]
  | reopens h =>
      have hsum := sumOf_reopens LoopRecord.invocationCount h (fun rec => toNat_succ_modEq _) loopId
      simpa [eq_comm] using hsum
  | allocates h =>
      have hsum := sumOf_allocates LoopRecord.invocationCount (d := 1) h rfl loopId
      rw [hsum]
      simp [eq_comm, Nat.ModEq.refl]
  | exitRefused => simp [Nat.ModEq.refl]
  | closes h =>
      rw [sumOf_closes LoopRecord.invocationCount h (fun _ => rfl) loopId]
      simp [Nat.ModEq.refl]
  | ignored => simp [Nat.ModEq.refl]
  | counts h =>
      have hsum :=
        sumOf_counts LoopRecord.invocationCount (d := 0) h (fun rec => Nat.ModEq.refl _) loopId
      simpa using hsum
  | untouched hbracket _ h =>
      have he : e ≠ .loopEnter loopId := by
        rintro rfl
        cases hbracket
      rw [sumOf_of_live LoopRecord.invocationCount h.live]
      simp [he, Nat.ModEq.refl]

/-- What an event adds to the iterations of a loop. -/
theorem EventCase.iterations {e : Event} {out : TeeResult × SessionCtx D}
    (h : EventCase H ctx e out) (loopId : UInt64) :
    out.2.sumOf (·.iterationCount) loopId ≡ ctx.sumOf (·.iterationCount) loopId +
      (if e = .loopIteration loopId ∧ 0 < ctx.activeOf loopId then 1 else 0) [MOD 2 ^ 32] := by
  cases h with
  | enterRefused => simp [Nat.ModEq.refl]
  | reopens h =>
      have hsum :=
        sumOf_reopens LoopRecord.iterationCount (d := 0) h (fun rec => Nat.ModEq.refl _) loopId
      simpa using hsum
  | allocates h =>
      have hsum := sumOf_allocates LoopRecord.iterationCount (d := 0) h rfl loopId
      rw [hsum]
      simp [Nat.ModEq.refl]
  | exitRefused => simp [Nat.ModEq.refl]
  | closes h =>
      rw [sumOf_closes LoopRecord.iterationCount h (fun _ => rfl) loopId]
      simp [Nat.ModEq.refl]
  | @ignored loopId' h =>
      -- Without an active record the loop is not open.
      have hzero : ctx.activeOf loopId' = 0 := activeOf_eq_zero_iff.2 h
      have hnot : ¬ (Event.loopIteration loopId' = .loopIteration loopId ∧
          0 < ctx.activeOf loopId) := by
        rintro ⟨hid, hpos⟩
        cases hid
        omega
      rw [if_neg hnot]
      exact Nat.ModEq.refl _
  | @counts ctx' loopId' i h =>
      have hsum := sumOf_counts LoopRecord.iterationCount h (fun rec => toNat_succ_modEq _) loopId
      have hpos : 0 < ctx.activeOf loopId' := by
        rcases mem_of_findLastIdx? h.index with ⟨rec, hrec, htest⟩
        exact activeOf_pos_iff.2 ⟨rec, hrec, htest⟩
      by_cases hid : loopId = loopId'
      · subst hid
        simpa [hpos] using hsum
      · simpa [hid, Ne.symm hid] using hsum
  | untouched _ hiteration h =>
      rw [sumOf_of_live LoopRecord.iterationCount h.live]
      simp [hiteration loopId, Nat.ModEq.refl]

/-! ## All runs -/

variable (H) in
/-- The number of accepted entries of a loop in a run. -/
def entries (loopId : UInt64) (s : SessionCtx D × List Event) : List Cmd → Nat
  | [] => 0
  | cmd :: cmds =>
      entryOf loopId cmd (exec H s.1 cmd).1 + entries loopId (logged H s cmd).2 cmds

variable (H) in
/-- The number of iterations of a loop that a run reports while the loop is open. -/
def iterationsWhileOpen (loopId : UInt64) (s : SessionCtx D × List Event) : List Cmd → Nat
  | [] => 0
  | cmd :: cmds =>
      iterationOf loopId s.2 cmd + iterationsWhileOpen loopId (logged H s cmd).2 cmds

/-- The step lemma. -/
theorem sums_step {s : SessionCtx D × List Event} (h : Accounts s) {cmd : Cmd}
    (hcmd : ∀ alloc, cmd ≠ .init alloc) (loopId : UInt64) :
    ((logged H s cmd).2.1.sumOf (·.invocationCount) loopId ≡
        s.1.sumOf (·.invocationCount) loopId + entryOf loopId cmd (exec H s.1 cmd).1
          [MOD 2 ^ 32]) ∧
      ((logged H s cmd).2.1.sumOf (·.iterationCount) loopId ≡
        s.1.sumOf (·.iterationCount) loopId + iterationOf loopId s.2 cmd [MOD 2 ^ 32]) := by
  cases cmd with
  | init alloc => exact absurd rfl (hcmd alloc)
  | finalize =>
      have hinv := sumOf_finalize (H := H) LoopRecord.invocationCount h.wellFormed
        (fun rec => (deactivated_counts rec).1) loopId
      have hiter := sumOf_finalize (H := H) LoopRecord.iterationCount h.wellFormed
        (fun rec => (deactivated_counts rec).2) loopId
      exact ⟨congrArg (· % 2 ^ 32) hinv, congrArg (· % 2 ^ 32) hiter⟩
  | getAuth out => exact ⟨Nat.ModEq.refl _, Nat.ModEq.refl _⟩
  | getLog out => exact ⟨Nat.ModEq.refl _, Nat.ModEq.refl _⟩
  | event e =>
      have hcase := event_case (H := H) h.wellFormed e
      have hinv := hcase.invocations loopId
      have hiter := hcase.iterations loopId
      rw [← h.openCount_eq] at hiter
      simp only [entryOf, iterationOf, Cmd.event.injEq]
      exact ⟨hinv, hiter⟩

/-- The run lemma. -/
theorem sums_run {cmds : List Cmd} (hcmds : ∀ cmd ∈ cmds, ∀ alloc, cmd ≠ .init alloc)
    (loopId : UInt64) :
    ∀ {s : SessionCtx D × List Event}, Accounts s →
      (((logged H).run s cmds).1.sumOf (·.invocationCount) loopId ≡
          s.1.sumOf (·.invocationCount) loopId + entries H loopId s cmds [MOD 2 ^ 32]) ∧
        (((logged H).run s cmds).1.sumOf (·.iterationCount) loopId ≡
          s.1.sumOf (·.iterationCount) loopId + iterationsWhileOpen H loopId s cmds
            [MOD 2 ^ 32]) := by
  induction cmds with
  | nil => exact fun _ => ⟨Nat.ModEq.refl _, Nat.ModEq.refl _⟩
  | cons cmd cmds ih =>
      intro s h
      rcases sums_step (H := H) h (hcmds cmd (by simp)) loopId with ⟨hinv, hiter⟩
      rcases ih (fun c hc => hcmds c (by simp [hc])) (h.step (H := H) cmd) with ⟨hinvs, hiters⟩
      refine ⟨hinvs.trans ?_, hiters.trans ?_⟩
      · rw [entries, ← Nat.add_assoc]
        exact hinv.add_right _
      · rw [iterationsWhileOpen, ← Nat.add_assoc]
        exact hiter.add_right _

/-- The counts of a loop are conserved, over all its records and in every cycle. -/
theorem counts_conserved (H : Sha256 D) {ctx : SessionCtx D} (hstart : CycleStart H ctx)
    {cmds : List Cmd} (hcmds : ∀ cmd ∈ cmds, ∀ alloc, cmd ≠ .init alloc) (loopId : UInt64) :
    (((exec H).run ctx cmds).sumOf (·.invocationCount) loopId ≡
        entries H loopId (ctx, []) cmds [MOD 2 ^ 32]) ∧
      (((exec H).run ctx cmds).sumOf (·.iterationCount) loopId ≡
        iterationsWhileOpen H loopId (ctx, []) cmds [MOD 2 ^ 32]) := by
  have hsums := sums_run (H := H) hcmds loopId hstart.accounts
  have hnone : ∀ count : LoopRecord D → UInt32, ctx.sumOf count loopId = 0 := by
    intro count
    simp [SessionCtx.sumOf, hstart.live]
  simpa only [run_logged, hnone, Nat.zero_add] using hsums

/-- A loop that re-enters itself, iterates in both entries, and is finalised while open. -/
theorem counts_conserved_reentered :
    let cmds := [.event (.loopEnter 1), .event (.loopEnter 1), .event (.loopIteration 1),
      .event (.loopExit 1), .event (.loopIteration 1), .finalize, .event (.loopIteration 1)]
    (((exec Sha256.free).run (taOpenSessionEntryPoint Sha256.free) cmds).sumOf
        (·.invocationCount) 1 ≡ 2 [MOD 2 ^ 32]) ∧
      (((exec Sha256.free).run (taOpenSessionEntryPoint Sha256.free) cmds).sumOf
        (·.iterationCount) 1 ≡ 2 [MOD 2 ^ 32]) := by
  intro cmds
  exact counts_conserved Sha256.free .opened (by simp [cmds]) 1

end SecureWorld
end CFlat
