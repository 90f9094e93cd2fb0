import CFlat.SecureWorld.Commands

/-!
# LoopTable — what each handler does to the live loop records

The handlers work on an array and an index; everything later is about the list `ctx.live` of live
records.  This module says once, for each loop command, all it can do (`EnterCase`, `ExitCase`,
`IterationCase`), together with the counters it moves and the fields it leaves alone
(`LoopFrame`).  Later proofs split these cases and never unfold a handler.
-/

namespace CFlat
namespace SecureWorld

open Lib

variable {D : Type} {H : Sha256 D}

/-! ## Well-formed contexts -/

/-- The counters stay inside the arrays they index. -/
structure WellFormed (ctx : SessionCtx D) : Prop where
  loopCount_nonneg : 0 ≤ ctx.loopCount
  loopCount_le : ctx.loopCount ≤ maxLoopRecords
  loopDepth_nonneg : 0 ≤ ctx.loopDepth
  loopDepth_le : ctx.loopDepth ≤ maxLoopDepth
  callDepth_nonneg : 0 ≤ ctx.callDepth
  callDepth_le : ctx.callDepth ≤ maxCallDepth

/-- The fields that no loop command changes. -/
structure LoopFrame (ctx ctx' : SessionCtx D) : Prop where
  hashOp : ctx'.hashOp = ctx.hashOp
  isInitialized : ctx'.isInitialized = ctx.isInitialized
  callStack : ctx'.callStack = ctx.callStack
  callDepth : ctx'.callDepth = ctx.callDepth
  finalAuth : ctx'.finalAuth = ctx.finalAuth
  authSize : ctx'.authSize = ctx.authSize
  debugLog : ctx'.debugLog = ctx.debugLog
  logIdx : ctx'.logIdx = ctx.logIdx

theorem length_live {ctx : SessionCtx D} (hwf : WellFormed ctx) :
    (ctx.live.length : Int) = ctx.loopCount := by
  have h₀ := hwf.loopCount_nonneg
  have h₁ := hwf.loopCount_le
  simp only [SessionCtx.live, List.length_take, Vector.length_toList]
  omega

theorem live_modifyLoop (ctx : SessionCtx D) (i : Nat) (f : LoopRecord D → LoopRecord D) :
    (ctx.modifyLoop i f).live = ctx.live.modify i f := by
  simp only [SessionCtx.live, SessionCtx.modifyLoop, toList_modifyAt, List.take_modify]

/-- A write into the live records leaves the slots behind them alone. -/
theorem spare_modifyLoop {ctx : SessionCtx D} {i : Nat} (hi : i < ctx.live.length)
    (f : LoopRecord D → LoopRecord D) : (ctx.modifyLoop i f).spare = ctx.spare := by
  have hlt : i < ctx.loopCount.toNat := by
    simp only [SessionCtx.live, List.length_take] at hi
    omega
  simp only [SessionCtx.spare, SessionCtx.modifyLoop, toList_modifyAt]
  exact List.drop_modify_of_lt f i _ _ hlt

/-! ## Opening a record -/

/-- What `cmd_loop_enter` writes into the record it opens, from the hash before the loop. -/
def LoopRecord.opened (hash : D) (rec : LoopRecord D) : LoopRecord D :=
  { rec with
    preLoopHash := hash
    isActive := true
    invocationCount := rec.invocationCount + 1 }

/-- What `cmd_loop_enter` makes of a stale slot before opening it: every field but the two hashes
is set. -/
def LoopRecord.recycled (loopId : UInt64) (depth : Int) (stale : LoopRecord D) : LoopRecord D :=
  { stale with
    loopId := loopId
    iterationCount := 0
    invocationCount := 0
    depthLevel := depth }

/-- What `cmd_loop_exit` writes into the record it closes, from the hash of the loop. -/
def LoopRecord.closed (hash : D) (rec : LoopRecord D) : LoopRecord D :=
  { rec with loopHash := hash, isActive := false }

/-- What `cmd_loop_iteration` writes into the record it counts for. -/
def LoopRecord.iterated (rec : LoopRecord D) : LoopRecord D :=
  { rec with iterationCount := rec.iterationCount + 1 }

/-- The hash a loop starts from: `H(0 || loop_id)`; without a hash operation, the zero hash. -/
def startHash (H : Sha256 D) (ctx : SessionCtx D) (loopId : UInt64) : D :=
  if ctx.isInitialized then H.digest H.zero loopId else H.zero

/-- The conditions under which `cmd_loop_enter` refuses: nesting too deep, or no inactive record
of the loop and no slot left. -/
def EnterRefused (ctx : SessionCtx D) (loopId : UInt64) : Prop :=
  ctx.loopDepth ≥ maxLoopDepth ∨
    (∀ rec ∈ ctx.live, isInactiveOf loopId rec = false) ∧ ctx.loopCount ≥ maxLoopRecords

instance (ctx : SessionCtx D) (loopId : UInt64) : Decidable (EnterRefused ctx loopId) :=
  inferInstanceAs (Decidable (ctx.loopDepth ≥ maxLoopDepth ∨
    (∀ rec ∈ ctx.live, isInactiveOf loopId rec = false) ∧ ctx.loopCount ≥ maxLoopRecords))

/-- What every accepted `cmd_loop_enter` does outside the table. -/
structure Enters (H : Sha256 D) (ctx : SessionCtx D) (loopId : UInt64) (ctx' : SessionCtx D) :
    Prop where
  depth_lt : ctx.loopDepth < maxLoopDepth
  loopDepth : ctx'.loopDepth = ctx.loopDepth + 1
  currentHash : ctx'.currentHash = startHash H ctx loopId
  frame : LoopFrame ctx ctx'

/-- The first inactive record of the loop, at index `i`, is opened again. -/
structure Reopens (H : Sha256 D) (ctx : SessionCtx D) (loopId : UInt64) (i : Nat)
    (ctx' : SessionCtx D) : Prop extends Enters H ctx loopId ctx' where
  index : ctx.live.findIdx? (isInactiveOf loopId) = some i
  live : ctx'.live =
    updateFirst (isInactiveOf loopId) (LoopRecord.opened ctx.currentHash) ctx.live
  spare : ctx'.spare = ctx.spare
  loopCount : ctx'.loopCount = ctx.loopCount

/-- The first spare slot is taken; what it held before is `stale`. -/
structure Allocates (H : Sha256 D) (ctx : SessionCtx D) (loopId : UInt64) (stale : LoopRecord D)
    (ctx' : SessionCtx D) : Prop extends Enters H ctx loopId ctx' where
  none_inactive : ∀ rec ∈ ctx.live, isInactiveOf loopId rec = false
  room : ctx.loopCount < maxLoopRecords
  spare : ctx.spare = stale :: ctx'.spare
  live : ctx'.live = ctx.live ++ [(stale.recycled loopId ctx.loopDepth).opened ctx.currentHash]
  loopCount : ctx'.loopCount = ctx.loopCount + 1

/-- All that `cmd_loop_enter` can do. -/
inductive EnterCase (H : Sha256 D) (ctx : SessionCtx D) (loopId : UInt64) :
    TeeResult × SessionCtx D → Prop
  | refused (h : EnterRefused ctx loopId) : EnterCase H ctx loopId (.overflow, ctx)
  | reopens {ctx' : SessionCtx D} {i : Nat} (h : Reopens H ctx loopId i ctx') :
      EnterCase H ctx loopId (.success, ctx')
  | allocates {ctx' : SessionCtx D} {stale : LoopRecord D}
      (h : Allocates H ctx loopId stale ctx') : EnterCase H ctx loopId (.success, ctx')

theorem Reopens.mem_inactive {ctx ctx' : SessionCtx D} {loopId : UInt64} {i : Nat}
    (h : Reopens H ctx loopId i ctx') : ∃ rec ∈ ctx.live, isInactiveOf loopId rec = true := by
  rcases List.findIdx?_eq_some_iff_getElem.1 h.index with ⟨hi, hmatch, _⟩
  exact ⟨_, List.getElem_mem hi, hmatch⟩

theorem Reopens.not_refused {ctx ctx' : SessionCtx D} {loopId : UInt64} {i : Nat}
    (h : Reopens H ctx loopId i ctx') : ¬ EnterRefused ctx loopId := by
  rintro (hdeep | ⟨hnone, _⟩)
  · exact absurd h.depth_lt (Int.not_lt.2 hdeep)
  · rcases h.mem_inactive with ⟨rec, hrec, hmatch⟩
    simp [hnone rec hrec] at hmatch

theorem Allocates.not_refused {ctx ctx' : SessionCtx D} {loopId : UInt64} {stale : LoopRecord D}
    (h : Allocates H ctx loopId stale ctx') : ¬ EnterRefused ctx loopId := by
  rintro (hdeep | ⟨_, hfull⟩)
  · exact absurd h.depth_lt (Int.not_lt.2 hdeep)
  · exact absurd h.room (Int.not_lt.2 hfull)

section OpenRecord

variable (ctx : SessionCtx D) (i : Nat) (loopId : UInt64)

theorem loops_openRecord :
    (openRecord H ctx i loopId).loops =
      (ctx.modifyLoop i (LoopRecord.opened ctx.currentHash)).loops := by
  cases hinit : ctx.isInitialized
  · simp only [openRecord, updateHash, SessionCtx.modifyLoop, hinit, Bool.not_false, if_true]
    rfl
  · simp only [openRecord, updateHash, SessionCtx.modifyLoop, hinit, Bool.not_true,
      Bool.false_eq_true, if_false]
    rfl

theorem loopCount_openRecord : (openRecord H ctx i loopId).loopCount = ctx.loopCount := by
  cases hinit : ctx.isInitialized <;>
    simp [openRecord, updateHash, SessionCtx.modifyLoop, hinit]

theorem live_openRecord :
    (openRecord H ctx i loopId).live = ctx.live.modify i (LoopRecord.opened ctx.currentHash) := by
  calc
    (openRecord H ctx i loopId).live
        = (ctx.modifyLoop i (LoopRecord.opened ctx.currentHash)).live := by
          rw [SessionCtx.live, SessionCtx.live, loops_openRecord, loopCount_openRecord]
          rfl
    _ = ctx.live.modify i (LoopRecord.opened ctx.currentHash) := live_modifyLoop ..

theorem spare_openRecord (hi : i < ctx.live.length) :
    (openRecord H ctx i loopId).spare = ctx.spare := by
  calc
    (openRecord H ctx i loopId).spare
        = (ctx.modifyLoop i (LoopRecord.opened ctx.currentHash)).spare := by
          rw [SessionCtx.spare, SessionCtx.spare, loops_openRecord, loopCount_openRecord]
          rfl
    _ = ctx.spare := spare_modifyLoop hi _

theorem loopDepth_openRecord : (openRecord H ctx i loopId).loopDepth = ctx.loopDepth + 1 := by
  cases hinit : ctx.isInitialized <;>
    simp [openRecord, updateHash, SessionCtx.modifyLoop, hinit]

theorem currentHash_openRecord :
    (openRecord H ctx i loopId).currentHash = startHash H ctx loopId := by
  cases hinit : ctx.isInitialized <;>
    simp [openRecord, updateHash, SessionCtx.modifyLoop, startHash, hinit]

theorem loopFrame_openRecord : LoopFrame ctx (openRecord H ctx i loopId) := by
  cases hinit : ctx.isInitialized <;> constructor <;>
    simp [openRecord, updateHash, SessionCtx.modifyLoop, hinit]

end OpenRecord

/-- The context after the first spare slot has been made a live record. -/
def allocated (ctx : SessionCtx D) (loopId : UInt64) : SessionCtx D :=
  { ctx.modifyLoop ctx.loopCount.toNat (LoopRecord.recycled loopId ctx.loopDepth) with
    loopCount := ctx.loopCount + 1 }

theorem live_allocated {ctx : SessionCtx D} (hwf : WellFormed ctx)
    (hroom : ctx.loopCount < maxLoopRecords) (loopId : UInt64) :
    ∃ stale, (allocated ctx loopId).live = ctx.live ++ [stale.recycled loopId ctx.loopDepth] ∧
      ctx.spare = stale :: (allocated ctx loopId).spare := by
  have h₀ := hwf.loopCount_nonneg
  have hlt : ctx.loopCount.toNat < ctx.loops.toList.length := by
    simp only [Vector.length_toList]
    omega
  have hsucc : (ctx.loopCount + 1).toNat = ctx.loopCount.toNat + 1 := by omega
  have hlen : (ctx.loops.toList.take ctx.loopCount.toNat).length = ctx.loopCount.toNat := by
    rw [List.length_take, Nat.min_eq_left (Nat.le_of_lt hlt)]
  -- The stale slot is the head of the spare ones.
  refine ⟨ctx.loops.toList[ctx.loopCount.toNat], ?_, ?_⟩
  · simp only [SessionCtx.live, SessionCtx.modifyLoop, allocated, toList_modifyAt, hsucc,
      List.modify_eq_take_cons_drop hlt]
    rw [List.take_append, List.take_of_length_le (by omega), hlen]
    simp
  · simp only [SessionCtx.spare, SessionCtx.modifyLoop, allocated, toList_modifyAt, hsucc]
    rw [List.drop_modify_of_lt _ _ _ _ (by omega), List.drop_eq_getElem_cons hlt]

theorem enters_openRecord {ctx : SessionCtx D} (hdepth : ctx.loopDepth < maxLoopDepth) (i : Nat)
    (loopId : UInt64) : Enters H ctx loopId (openRecord H ctx i loopId) :=
  ⟨hdepth, loopDepth_openRecord .., currentHash_openRecord .., loopFrame_openRecord ..⟩

theorem cmdLoopEnter_case {ctx : SessionCtx D} (hwf : WellFormed ctx) (loopId : UInt64) :
    EnterCase H ctx loopId (cmdLoopEnter H ctx loopId) := by
  by_cases hdeep : ctx.loopDepth ≥ maxLoopDepth
  -- Nested too deep.
  · simp only [cmdLoopEnter, hdeep, if_true]
    exact .refused (Or.inl hdeep)
  · have hdepth : ctx.loopDepth < maxLoopDepth := Int.not_le.1 hdeep
    cases hidx : ctx.live.findIdx? (isInactiveOf loopId) with
    | some i =>
        -- An inactive record of the loop.
        simp only [cmdLoopEnter, hdeep, if_false, hidx]
        have hi : i < ctx.live.length := (List.findIdx?_eq_some_iff_getElem.1 hidx).1
        refine .reopens
          { enters_openRecord hdepth i loopId with
            index := hidx, live := ?_, spare := spare_openRecord ctx i loopId hi
            loopCount := loopCount_openRecord .. }
        rw [live_openRecord, modify_of_findIdx? hidx]
    | none =>
        have hnone : ∀ rec ∈ ctx.live, isInactiveOf loopId rec = false := by
          intro rec hrec
          simpa using List.findIdx?_eq_none_iff.1 hidx rec hrec
        by_cases hfull : ctx.loopCount ≥ maxLoopRecords
        -- No inactive record and no free slot.
        · simp only [cmdLoopEnter, hdeep, if_false, hidx, hfull, if_true]
          exact .refused (Or.inr ⟨hnone, hfull⟩)
        · have hroom : ctx.loopCount < maxLoopRecords := Int.not_le.1 hfull
          rcases live_allocated hwf hroom loopId with ⟨stale, hlive, hspare⟩
          have hlen : ctx.loopCount.toNat = ctx.live.length := by
            have := length_live hwf
            omega
          have hi : ctx.loopCount.toNat < (allocated ctx loopId).live.length := by
            simp [hlive, hlen]
          -- A fresh slot is opened in the table that it has been added to.
          have henters := @enters_openRecord _ H (allocated ctx loopId) hdepth
            ctx.loopCount.toNat loopId
          simp only [cmdLoopEnter, hdeep, if_false, hidx, hfull]
          refine .allocates
            { depth_lt := hdepth, loopDepth := henters.loopDepth
              currentHash := henters.currentHash, frame := ?_, none_inactive := hnone
              room := hroom, live := ?_
              spare := hspare.trans (congrArg _ (spare_openRecord _ _ loopId hi).symm)
              loopCount := loopCount_openRecord .. }
          · rcases henters.frame with ⟨h₁, h₂, h₃, h₄, h₅, h₆, h₇, h₈⟩
            exact ⟨h₁, h₂, h₃, h₄, h₅, h₆, h₇, h₈⟩
          -- The new record is the last one, so that the write goes to the end of the table.
          · have hopen := live_openRecord (H := H) (allocated ctx loopId) ctx.loopCount.toNat loopId
            rw [hlive, hlen, modify_append_cons, ← hlen] at hopen
            exact hopen

/-! ## Closing a record and counting an iteration -/

/-- The first active record of the loop, at index `i`, is closed and its saved hash restored. -/
structure Closes (ctx : SessionCtx D) (loopId : UInt64) (i : Nat) (rec : LoopRecord D)
    (ctx' : SessionCtx D) : Prop where
  depth_pos : 0 < ctx.loopDepth
  index : ctx.live.findIdx? (isActiveOf loopId) = some i
  record : ctx.live[i]? = some rec
  live : ctx'.live =
    updateFirst (isActiveOf loopId) (LoopRecord.closed ctx.currentHash) ctx.live
  spare : ctx'.spare = ctx.spare
  loopCount : ctx'.loopCount = ctx.loopCount
  loopDepth : ctx'.loopDepth = ctx.loopDepth - 1
  currentHash : ctx'.currentHash = rec.preLoopHash
  frame : LoopFrame ctx ctx'

theorem Closes.mem_active {ctx ctx' : SessionCtx D} {loopId : UInt64} {i : Nat}
    {rec : LoopRecord D} (h : Closes ctx loopId i rec ctx') :
    ∃ rec ∈ ctx.live, isActiveOf loopId rec = true := by
  rcases List.findIdx?_eq_some_iff_getElem.1 h.index with ⟨hi, hmatch, _⟩
  exact ⟨_, List.getElem_mem hi, hmatch⟩

/-- All that `cmd_loop_exit` can do. -/
inductive ExitCase (ctx : SessionCtx D) (loopId : UInt64) : TeeResult × SessionCtx D → Prop
  | underflow (h : ctx.loopDepth ≤ 0) : ExitCase ctx loopId (.badState, ctx)
  | notFound (hdepth : 0 < ctx.loopDepth) (h : ∀ rec ∈ ctx.live, isActiveOf loopId rec = false) :
      ExitCase ctx loopId (.itemNotFound, ctx)
  | closes {ctx' : SessionCtx D} {i : Nat} {rec : LoopRecord D}
      (h : Closes ctx loopId i rec ctx') : ExitCase ctx loopId (.success, ctx')

theorem cmdLoopExit_case (ctx : SessionCtx D) (loopId : UInt64) :
    ExitCase ctx loopId (cmdLoopExit ctx loopId) := by
  by_cases hdepth : ctx.loopDepth ≤ 0
  · simp only [cmdLoopExit, hdepth, if_true]
    exact .underflow hdepth
  · have hpos : 0 < ctx.loopDepth := Int.not_le.1 hdepth
    cases hidx : ctx.live.findIdx? (isActiveOf loopId) with
    | none =>
        simp only [cmdLoopExit, hdepth, if_false, hidx]
        refine .notFound hpos ?_
        intro rec hrec
        simpa using List.findIdx?_eq_none_iff.1 hidx rec hrec
    | some i =>
        rcases List.findIdx?_eq_some_iff_getElem.1 hidx with ⟨hi, _⟩
        have hrec : ctx.live[i]? = some ctx.live[i] := List.getElem?_eq_getElem hi
        -- The index of the search is in range, so the record is there.
        simp only [cmdLoopExit, hdepth, if_false, hidx, hrec]
        refine .closes
          { depth_pos := hpos, index := hidx, record := hrec, live := ?_
            spare := spare_modifyLoop hi (LoopRecord.closed ctx.currentHash)
            loopCount := rfl, loopDepth := rfl, currentHash := rfl
            frame := ⟨rfl, rfl, rfl, rfl, rfl, rfl, rfl, rfl⟩ }
        rw [← modify_of_findIdx? hidx]
        exact live_modifyLoop ctx i (LoopRecord.closed ctx.currentHash)

/-- The last active record of the loop, at index `i`, counts an iteration. -/
structure Counts (ctx : SessionCtx D) (loopId : UInt64) (i : Nat) (ctx' : SessionCtx D) :
    Prop where
  index : findLastIdx? (isActiveOf loopId) ctx.live = some i
  live : ctx'.live = ctx.live.modify i LoopRecord.iterated
  spare : ctx'.spare = ctx.spare
  loopCount : ctx'.loopCount = ctx.loopCount
  loopDepth : ctx'.loopDepth = ctx.loopDepth
  currentHash : ctx'.currentHash = ctx.currentHash
  frame : LoopFrame ctx ctx'

/-- An iteration changes nothing of the table but its counts. -/
theorem Counts.map_live {α : Type*} {ctx ctx' : SessionCtx D} {loopId : UInt64} {i : Nat}
    (h : Counts ctx loopId i ctx') {g : LoopRecord D → α} (hg : ∀ rec, g rec.iterated = g rec) :
    ctx'.live.map g = ctx.live.map g := by
  rw [h.live]
  refine (map_modify (k := id) ?_ i).trans (List.modify_id _ _)
  exact fun rec _ => hg rec

/-- All that `cmd_loop_iteration` can do; it succeeds also for a loop that is not active. -/
inductive IterationCase (ctx : SessionCtx D) (loopId : UInt64) : TeeResult × SessionCtx D → Prop
  | ignored (h : findLastIdx? (isActiveOf loopId) ctx.live = none) :
      IterationCase ctx loopId (.success, ctx)
  | counts {ctx' : SessionCtx D} {i : Nat} (h : Counts ctx loopId i ctx') :
      IterationCase ctx loopId (.success, ctx')

theorem cmdLoopIteration_case (ctx : SessionCtx D) (loopId : UInt64) :
    IterationCase ctx loopId (cmdLoopIteration ctx loopId) := by
  cases hidx : findLastIdx? (isActiveOf loopId) ctx.live with
  | none =>
      simp only [cmdLoopIteration, hidx]
      exact .ignored hidx
  | some i =>
      have hi : i < ctx.live.length := lt_length_of_findLastIdx? hidx
      simp only [cmdLoopIteration, hidx]
      exact .counts
        { index := hidx, live := live_modifyLoop ctx i LoopRecord.iterated
          spare := spare_modifyLoop hi LoopRecord.iterated
          loopCount := rfl, loopDepth := rfl, currentHash := rfl
          frame := ⟨rfl, rfl, rfl, rfl, rfl, rfl, rfl, rfl⟩ }

/-- An iteration touches the live loop records only. -/
structure IterationFrame (ctx ctx' : SessionCtx D) : Prop where
  loopDepth : ctx'.loopDepth = ctx.loopDepth
  currentHash : ctx'.currentHash = ctx.currentHash
  callDepth : ctx'.callDepth = ctx.callDepth
  spare : ctx'.spare = ctx.spare

theorem frame_iteration (ctx : SessionCtx D) (loopId : UInt64) :
    IterationFrame ctx (cmdLoopIteration ctx loopId).2 := by
  have hcase := cmdLoopIteration_case ctx loopId
  generalize cmdLoopIteration ctx loopId = out at hcase ⊢
  cases hcase with
  | ignored => exact ⟨rfl, rfl, rfl, rfl⟩
  | counts h => exact ⟨h.loopDepth, h.currentHash, h.frame.callDepth, h.spare⟩

end SecureWorld
end CFlat
