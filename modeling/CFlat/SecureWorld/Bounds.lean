import CFlat.Lib.Checked
import CFlat.SecureWorld.Dispatch
import CFlat.SecureWorld.Report

/-!
# Bounds — every array access of a session is inside its array

The handlers once more, as the source writes them: the tables are searched and closed by index, and
every access to `loops`, `call_stack`, `final_auth` and `debug_log` is a checked one that gives
nothing outside the array.  The early exit of the serialisation loop counts as a fault too.  On
bounded sessions the checked handlers never fault and agree with the handlers of
`CFlat.SecureWorld.Commands` (`exec?_eq`), and every session is bounded (`bounded_run`).
-/

namespace CFlat
namespace SecureWorld

open Lib

variable {D : Type} (H : Sha256 D)

/-! ## Checked handlers -/

/-- The tail of `cmd_loop_enter`. -/
def openRecord? (ctx : SessionCtx D) (recIdx : Int) (loopId : UInt64) : Option (SessionCtx D) :=
  match modify? ctx.loops recIdx (fun rec =>
    { rec with
      preLoopHash := ctx.currentHash
      isActive := true
      invocationCount := rec.invocationCount + 1 }) with
  | none => none
  | some loops =>
      some (updateHash H
        { ctx with loops := loops, currentHash := H.zero, loopDepth := ctx.loopDepth + 1 }
        loopId).2

def cmdLoopEnter? (ctx : SessionCtx D) (loopId : UInt64) : Option (TeeResult × SessionCtx D) :=
  if ctx.loopDepth ≥ maxLoopDepth then some (.overflow, ctx)
  else
    match searchUp? (isInactiveOf loopId) ctx.loops ctx.loopCount.toNat 0 with
    | none => none
    | some (some i) => (openRecord? H ctx i loopId).map fun ctx => (.success, ctx)
    | some none =>
        if ctx.loopCount ≥ maxLoopRecords then some (.overflow, ctx)
        else
          match modify? ctx.loops ctx.loopCount (fun rec =>
            { rec with
              loopId := loopId
              iterationCount := 0
              invocationCount := 0
              depthLevel := ctx.loopDepth }) with
          | none => none
          | some loops =>
              let opened := { ctx with loops := loops, loopCount := ctx.loopCount + 1 }
              (openRecord? H opened ctx.loopCount loopId).map fun ctx => (.success, ctx)

def cmdLoopExit? (ctx : SessionCtx D) (loopId : UInt64) : Option (TeeResult × SessionCtx D) :=
  if ctx.loopDepth ≤ 0 then some (.badState, ctx)
  else
    match searchUp? (isActiveOf loopId) ctx.loops ctx.loopCount.toNat 0 with
    | none => none
    | some none => some (.itemNotFound, ctx)
    | some (some i) =>
        match read? ctx.loops i,
          modify? ctx.loops i (fun rec =>
            { rec with loopHash := ctx.currentHash, isActive := false }) with
        | some rec, some loops =>
            some (.success,
              { ctx with
                loops := loops
                currentHash := rec.preLoopHash
                loopDepth := ctx.loopDepth - 1 })
        | _, _ => none

def cmdLoopIteration? (ctx : SessionCtx D) (loopId : UInt64) : Option (TeeResult × SessionCtx D) :=
  match searchDown? (isActiveOf loopId) ctx.loops ctx.loopCount.toNat with
  | none => none
  | some none => some (.success, ctx)
  | some (some i) =>
      (modify? ctx.loops i (fun rec =>
        { rec with iterationCount := rec.iterationCount + 1 })).map fun loops =>
          (.success, { ctx with loops := loops })

def cmdCallEnter? (ctx : SessionCtx D) (callSiteId callerNode : UInt64) :
    Option (TeeResult × SessionCtx D) :=
  if ctx.callDepth ≥ maxCallDepth then some (.overflow, ctx)
  else
    (modify? ctx.callStack ctx.callDepth (fun _ => ⟨callSiteId, callerNode⟩)).map fun callStack =>
      (.success, { ctx with callStack := callStack, callDepth := ctx.callDepth + 1 })

def serializeRecord? (rec : LoopRecord D) (buf : Vector UInt8 authCapacity) (offset : Nat) :
    Option (Vector UInt8 authCapacity) := do
  let buf ← move? buf offset (leBytes 8 rec.loopId.toNat)
  let buf ← move? buf (offset + 8) (H.bytes rec.preLoopHash).toList
  let buf ← move? buf (offset + 8 + 32) (H.bytes rec.loopHash).toList
  let buf ← move? buf (offset + 8 + 32 + 32) (leBytes 4 rec.iterationCount.toNat)
  move? buf (offset + 8 + 32 + 32 + 4) (leBytes 4 rec.invocationCount.toNat)

/-- The serialisation loop, over the indices `i, …, i + k - 1`; it may not leave early. -/
def serializeLoops? {n : Nat} (loops : Vector (LoopRecord D) n) :
    (k i : Nat) → Vector UInt8 authCapacity → Nat → Option (Vector UInt8 authCapacity × Nat)
  | 0, _, buf, offset => some (buf, offset)
  | k + 1, i, buf, offset =>
      match read? loops i with
      | none => none
      | some rec =>
          if offset + 80 > authCapacity then none
          else
            match serializeRecord? H rec buf offset with
            | none => none
            | some buf => serializeLoops? loops k (i + 1) buf (offset + 80)

def cmdFinalize? (ctx : SessionCtx D) : Option (TeeResult × SessionCtx D) := do
  let loops ← modifyAll? (fun rec => if rec.isActive then { rec with isActive := false } else rec)
    ctx.loopCount.toNat 0 ctx.loops
  let buf ← move? ctx.finalAuth 0 (H.bytes ctx.currentHash).toList
  let buf ← move? buf 32 (leBytes 4 (ctx.loopCount % 2 ^ 32).toNat)
  let (buf, offset) ← serializeLoops? H loops ctx.loopCount.toNat 0 buf 36
  some (.success, { ctx with loops := loops, finalAuth := buf, authSize := UInt32.ofNat offset })

def cmdGetAuth? (ctx : SessionCtx D) (out : Memref) : Option (TeeResult × Memref) :=
  if ctx.authSize = 0 then some (.badState, out)
  else if out.size < ctx.authSize then some (.shortBuffer, { out with size := ctx.authSize })
  else
    (slice? ctx.finalAuth ctx.authSize.toNat).map fun bytes =>
      (.success, ⟨bytes ++ out.buffer.drop ctx.authSize.toNat, ctx.authSize⟩)

def cmdGetLog? (ctx : SessionCtx D) (out : Memref) : Option (TeeResult × Memref) :=
  if out.size < ctx.logIdx then some (.shortBuffer, { out with size := ctx.logIdx })
  else
    (slice? ctx.debugLog ctx.logIdx.toNat).map fun bytes =>
      (.success, ⟨bytes ++ out.buffer.drop ctx.logIdx.toNat, ctx.logIdx⟩)

def handle? (ctx : SessionCtx D) : Event → Option (TeeResult × SessionCtx D)
  | .recordNode nodeId => some (cmdRecordNode H ctx nodeId)
  | .loopEnter loopId => cmdLoopEnter? H ctx loopId
  | .loopExit loopId => cmdLoopExit? ctx loopId
  | .loopIteration loopId => cmdLoopIteration? ctx loopId
  | .callEnter callId caller => cmdCallEnter? ctx callId caller
  | .callReturn callId => some (cmdCallReturn ctx callId)

def exec? (ctx : SessionCtx D) : Cmd → Option (Reply × SessionCtx D)
  | .init alloc => some (exec H ctx (.init alloc))
  | .event e => (handle? H ctx e).map fun out => (⟨out.1, none⟩, out.2)
  | .finalize => (cmdFinalize? H ctx).map fun out => (⟨out.1, none⟩, out.2)
  | .getAuth out => (cmdGetAuth? ctx out).map fun out => (⟨out.1, some out.2⟩, ctx)
  | .getLog out => (cmdGetLog? ctx out).map fun out => (⟨out.1, some out.2⟩, ctx)

variable {H}

/-! ## Searches and single writes -/

theorem searchUp?_live {ctx : SessionCtx D} (hwf : WellFormed ctx) (p : LoopRecord D → Bool) :
    searchUp? p ctx.loops ctx.loopCount.toNat 0 = some (ctx.live.findIdx? p) := by
  have hle := hwf.loopCount_le
  rw [searchUp?_eq p ctx.loops (by omega)]
  simp [SessionCtx.live]

theorem searchDown?_live {ctx : SessionCtx D} (hwf : WellFormed ctx) (p : LoopRecord D → Bool) :
    searchDown? p ctx.loops ctx.loopCount.toNat = some (findLastIdx? p ctx.live) := by
  have hle := hwf.loopCount_le
  rw [searchDown?_eq p ctx.loops (by omega)]
  rfl

/-- An index below the live records is an index of the table. -/
theorem lt_maxLoopRecords {ctx : SessionCtx D} {i : Nat} (hi : i < ctx.live.length) :
    i < maxLoopRecords := by
  simp only [SessionCtx.live, List.length_take, Vector.length_toList] at hi
  omega

theorem openRecord?_eq (ctx : SessionCtx D) {i : Int} (h₀ : 0 ≤ i) (h₁ : i < maxLoopRecords)
    (loopId : UInt64) : openRecord? H ctx i loopId = some (openRecord H ctx i.toNat loopId) := by
  rw [openRecord?, modify?_eq ctx.loops _ h₀ h₁]
  rfl

theorem cmdLoopEnter?_eq {ctx : SessionCtx D} (hwf : WellFormed ctx) (loopId : UInt64) :
    cmdLoopEnter? H ctx loopId = some (cmdLoopEnter H ctx loopId) := by
  unfold cmdLoopEnter? cmdLoopEnter
  by_cases hdeep : ctx.loopDepth ≥ maxLoopDepth
  · rw [if_pos hdeep, if_pos hdeep]
  · rw [if_neg hdeep, if_neg hdeep, searchUp?_live hwf]
    cases hfind : ctx.live.findIdx? (isInactiveOf loopId) with
    | some i =>
        have hi := lt_maxLoopRecords (List.findIdx?_eq_some_iff_getElem.1 hfind).1
        simp only [openRecord?_eq ctx (Int.natCast_nonneg i) (Int.ofNat_lt.2 hi), Option.map_some,
          Int.toNat_natCast]
    | none =>
        by_cases hfull : ctx.loopCount ≥ maxLoopRecords
        · simp only [if_pos hfull]
        · -- A slot is left, at the index `loop_count`.
          have hroom := Int.not_le.1 hfull
          simp only [if_neg hfull, modify?_eq ctx.loops _ hwf.loopCount_nonneg hroom,
            openRecord?_eq _ hwf.loopCount_nonneg hroom, Option.map_some]
          rfl

theorem cmdLoopExit?_eq {ctx : SessionCtx D} (hwf : WellFormed ctx) (loopId : UInt64) :
    cmdLoopExit? ctx loopId = some (cmdLoopExit ctx loopId) := by
  unfold cmdLoopExit? cmdLoopExit
  by_cases hdepth : ctx.loopDepth ≤ 0
  · rw [if_pos hdepth, if_pos hdepth]
  · rw [if_neg hdepth, if_neg hdepth, searchUp?_live hwf]
    cases hfind : ctx.live.findIdx? (isActiveOf loopId) with
    | none => rfl
    | some i =>
        have hi := (List.findIdx?_eq_some_iff_getElem.1 hfind).1
        have hlt := lt_maxLoopRecords hi
        have hread : read? ctx.loops i = ctx.live[i]? := by
          rw [read?_natCast, SessionCtx.live, List.getElem?_take_of_lt]
          simp only [SessionCtx.live, List.length_take] at hi
          omega
        simp only [hread, List.getElem?_eq_getElem hi,
          modify?_eq ctx.loops _ (Int.natCast_nonneg i) (Int.ofNat_lt.2 hlt), Int.toNat_natCast]
        rfl

theorem cmdLoopIteration?_eq {ctx : SessionCtx D} (hwf : WellFormed ctx) (loopId : UInt64) :
    cmdLoopIteration? ctx loopId = some (cmdLoopIteration ctx loopId) := by
  unfold cmdLoopIteration? cmdLoopIteration
  rw [searchDown?_live hwf]
  cases hfind : findLastIdx? (isActiveOf loopId) ctx.live with
  | none => rfl
  | some i =>
      have hlt := lt_maxLoopRecords (lt_length_of_findLastIdx? hfind)
      simp only [modify?_eq ctx.loops _ (Int.natCast_nonneg i) (Int.ofNat_lt.2 hlt),
        Option.map_some, Int.toNat_natCast]
      rfl

theorem cmdCallEnter?_eq {ctx : SessionCtx D} (hwf : WellFormed ctx) (callId caller : UInt64) :
    cmdCallEnter? ctx callId caller = some (cmdCallEnter ctx callId caller) := by
  unfold cmdCallEnter? cmdCallEnter
  by_cases hfull : ctx.callDepth ≥ maxCallDepth
  · rw [if_pos hfull, if_pos hfull]
  · rw [if_neg hfull, if_neg hfull,
      modify?_eq ctx.callStack _ hwf.callDepth_nonneg (Int.not_le.1 hfull), Option.map_some]

theorem handle?_eq {ctx : SessionCtx D} (hwf : WellFormed ctx) (e : Event) :
    handle? H ctx e = some (handle H ctx e) := by
  cases e with
  | recordNode nodeId => rfl
  | loopEnter loopId => exact cmdLoopEnter?_eq hwf loopId
  | loopExit loopId => exact cmdLoopExit?_eq hwf loopId
  | loopIteration loopId => exact cmdLoopIteration?_eq hwf loopId
  | callEnter callId caller => exact cmdCallEnter?_eq hwf callId caller
  | callReturn callId => rfl

/-! ## Serialisation -/

theorem serializeRecord?_eq (rec : LoopRecord D) (buf : Vector UInt8 authCapacity) {offset : Nat}
    (hfit : offset + 80 ≤ authCapacity) :
    serializeRecord? H rec buf offset = some (serializeRecord H rec buf offset) := by
  have h₁ : offset + 8 ≤ authCapacity := by omega
  have h₂ : offset + 8 + 32 ≤ authCapacity := by omega
  have h₃ : offset + 8 + 32 + 32 ≤ authCapacity := by omega
  have h₄ : offset + 8 + 32 + 32 + 4 ≤ authCapacity := by omega
  have h₅ : offset + 8 + 32 + 32 + 4 + 4 ≤ authCapacity := by omega
  simp only [serializeRecord?, Option.bind_eq_bind, Option.bind_some,
    move?_eq _ (length_leBytes 8 rec.loopId.toNat) h₁,
    move?_eq _ (length_bytes H rec.preLoopHash) h₂, move?_eq _ (length_bytes H rec.loopHash) h₃,
    move?_eq _ (length_leBytes 4 rec.iterationCount.toNat) h₄,
    move?_eq _ (length_leBytes 4 rec.invocationCount.toNat) h₅]
  rfl

/-- With room for `k` records the loop reads its `k` entries and does not leave early. -/
theorem serializeLoops?_eq {n : Nat} (loops : Vector (LoopRecord D) n) {k : Nat} :
    ∀ {i : Nat} (buf : Vector UInt8 authCapacity) {offset : Nat}, i + k ≤ n →
      offset + 80 * k ≤ authCapacity →
        serializeLoops? H loops k i buf offset =
          some (serializeLoops H ((loops.toList.drop i).take k) buf offset) := by
  induction k with
  | zero =>
      intro i buf offset _ _
      rw [List.take_zero]
      rfl
  | succ k ih =>
      intro i buf offset hk hfit
      have hlt : i < loops.toList.length := by
        simp only [Vector.length_toList]
        omega
      have hroom : ¬ offset + 80 > authCapacity := by omega
      rw [List.drop_eq_getElem_cons hlt, List.take_succ_cons, serializeLoops, if_neg hroom,
        serializeLoops?, read?_natCast, List.getElem?_eq_getElem hlt]
      simp only [if_neg hroom, serializeRecord?_eq loops.toList[i] buf (Nat.not_lt.1 hroom)]
      exact ih _ (by omega) (by omega)

theorem cmdFinalize?_eq {ctx : SessionCtx D} (hwf : WellFormed ctx) :
    cmdFinalize? H ctx = some (cmdFinalize H ctx) := by
  have hcount : 0 + ctx.loopCount.toNat ≤ maxLoopRecords := by
    have hle := hwf.loopCount_le
    omega
  have hheader : 32 + 4 ≤ authCapacity := by decide
  have hhash : 0 + 32 ≤ authCapacity := by decide
  have hfit : 36 + 80 * ctx.loopCount.toNat ≤ authCapacity := by
    simp only [authCapacity]
    omega
  simp only [cmdFinalize?, Option.bind_eq_bind, Option.bind_some, modifyAll?_eq _ ctx.loops hcount,
    move?_eq _ (length_bytes H ctx.currentHash) hhash,
    move?_eq _ (length_leBytes 4 (ctx.loopCount % 2 ^ 32).toNat) hheader,
    serializeLoops?_eq _ _ hcount hfit, List.drop_zero]
  rw [← List.range_eq_range']
  rfl

/-! ## Bounded sessions -/

/-- The capacities of a session: the counters stay inside the tables they index, and the stored
report inside its buffer. -/
structure Bounded (ctx : SessionCtx D) : Prop extends WellFormed ctx where
  authSize : ctx.authSize = 0 ∨ ∃ k ≤ maxLoopRecords, ctx.authSize.toNat = 36 + 80 * k
  logIdx : ctx.logIdx = 0

theorem Bounded.authSize_le {ctx : SessionCtx D} (h : Bounded ctx) :
    ctx.authSize.toNat ≤ authCapacity := by
  rcases h.authSize with hzero | ⟨k, hk, hsize⟩
  · rw [hzero]
    exact Nat.zero_le _
  · rw [hsize, authCapacity]
    omega

theorem Bounded.logIdx_le {ctx : SessionCtx D} (h : Bounded ctx) :
    ctx.logIdx.toNat ≤ maxLogSize := by
  rw [h.logIdx]
  exact Nat.zero_le _

theorem cmdGetAuth?_eq {ctx : SessionCtx D} (h : Bounded ctx) (out : Memref) :
    cmdGetAuth? ctx out = some (cmdGetAuth ctx out) := by
  simp only [cmdGetAuth?, cmdGetAuth, slice?_eq _ h.authSize_le, Option.map_some, apply_ite some]

theorem cmdGetLog?_eq {ctx : SessionCtx D} (h : Bounded ctx) (out : Memref) :
    cmdGetLog? ctx out = some (cmdGetLog ctx out) := by
  simp only [cmdGetLog?, cmdGetLog, slice?_eq _ h.logIdx_le, Option.map_some, apply_ite some]

/-- On a bounded session no command leaves an array or the serialisation loop early. -/
theorem exec?_eq {ctx : SessionCtx D} (h : Bounded ctx) (cmd : Cmd) :
    exec? H ctx cmd = some (exec H ctx cmd) := by
  cases cmd with
  | init alloc => rfl
  | event e => rw [exec?, handle?_eq h.toWellFormed e]; rfl
  | finalize => rw [exec?, cmdFinalize?_eq h.toWellFormed]; rfl
  | getAuth out => rw [exec?, cmdGetAuth?_eq h out]; rfl
  | getLog out => rw [exec?, cmdGetLog?_eq h out]; rfl

/-! ## Runs -/

theorem bounded_open : Bounded (taOpenSessionEntryPoint H) :=
  { wellFormed_open with
    authSize := .inl rfl
    logIdx := rfl }

theorem bounded_exec {ctx : SessionCtx D} (h : Bounded ctx) (cmd : Cmd) :
    Bounded (exec H ctx cmd).2 := by
  have hwf := wellFormed_exec (H := H) h.toWellFormed cmd
  cases cmd with
  | init alloc =>
      refine { hwf with authSize := .inl (authSize_cmdInit alloc ctx), logIdx := ?_ }
      cases alloc with
      | ok handle => simp [exec, cmdInit_ok]
      | fail err clears => simp [exec, cmdInit_fail]
  | event e =>
      have hstore := storeFrame_handle (H := H) h.toWellFormed e
      refine { hwf with authSize := ?_, logIdx := hstore.logIdx.trans h.logIdx }
      rw [show (exec H ctx (.event e)).2.authSize = ctx.authSize from hstore.authSize]
      exact h.authSize
  | finalize =>
      have hsize := toNat_authSize_cmdFinalize (H := H) h.toWellFormed
      have hle := h.loopCount_le
      have hlen := length_live h.toWellFormed
      exact { hwf with
        authSize := .inr ⟨ctx.live.length, by omega, hsize⟩
        logIdx := h.logIdx }
  | getAuth out => exact h
  | getLog out => exact h

theorem wellFormed_invoke {ctx : SessionCtx D} (hwf : WellFormed ctx) (call : RawCall) :
    WellFormed (invoke H ctx call).2 := by
  rw [invoke_eq]
  cases call.decoded with
  | none => exact hwf
  | some cmd => exact wellFormed_exec hwf cmd

theorem bounded_run (calls : List RawCall) :
    Bounded ((invoke H).run (taOpenSessionEntryPoint H) calls) := by
  rw [run_invoke]
  exact (exec H).run_invariant (I := Bounded) (P := fun _ => True)
    (fun _ cmd _ h => bounded_exec h cmd) bounded_open _ (fun _ _ => trivial)

/-- What the capacities of a session give: no command leaves an array or the serialisation loop
early, and a CMD_FINALIZE stores the header and one record for each of the `loop_count` that the
header announces. -/
structure Capacity (H : Sha256 D) (ctx : SessionCtx D) : Prop extends Bounded ctx where
  noFault : ∀ cmd, exec? H ctx cmd = some (exec H ctx cmd)
  announced : (ctx.measured.loops.length : Int) = ctx.loopCount
  reportSize : ((cmdFinalize H ctx).2.authSize.toNat : Int) = 36 + 80 * ctx.loopCount
  reportBytes : (cmdFinalize H ctx).2.report = ctx.measured.encode H

theorem Bounded.capacity {ctx : SessionCtx D} (h : Bounded ctx) : Capacity H ctx where
  toBounded := h
  noFault := exec?_eq h
  announced := by
    rw [SessionCtx.measured, List.length_map]
    exact length_live h.toWellFormed
  reportSize := by
    have hlen := length_live h.toWellFormed
    rw [toNat_authSize_cmdFinalize h.toWellFormed]
    omega
  reportBytes := report_cmdFinalize h.toWellFormed

/-- Every session keeps to its capacities, under any raw calls and allocation outcomes. -/
theorem capacity_run (H : Sha256 D) (calls : List RawCall) :
    Capacity H ((invoke H).run (taOpenSessionEntryPoint H) calls) :=
  (bounded_run calls).capacity

end SecureWorld
end CFlat
