import CFlat.Lib.KeyedTable
import CFlat.SecureWorld.LoopDepth
import CFlat.SecureWorld.Report

/-!
# Records — the loop table without re-entrance

As long as no loop is entered while it is active, the live records carry distinct loop ids and the
table is a keyed one.  The lemmas here say what each event does to the list of ids and to the
record of each loop (`Entered`, `Exited`), once the preconditions of the handlers are known.
-/

namespace CFlat
namespace SecureWorld

open Lib

variable {D : Type} {H : Sha256 D}

namespace SessionCtx

/-- The loop ids of the live records, in table order. -/
def ids (ctx : SessionCtx D) : List UInt64 := ctx.live.map (·.loopId)

/-- The live record of a loop. -/
def lookup (ctx : SessionCtx D) (loopId : UInt64) : Option (LoopRecord D) :=
  Lib.lookup (·.loopId) loopId ctx.live

/-- No live record of the loop is active. -/
def IsClosed (ctx : SessionCtx D) (loopId : UInt64) : Prop :=
  ∀ rec, ctx.lookup loopId = some rec → rec.isActive = false

end SessionCtx

theorem ids_of_live {ctx ctx' : SessionCtx D} (h : ctx'.live = ctx.live) : ctx'.ids = ctx.ids := by
  rw [SessionCtx.ids, h, SessionCtx.ids]

theorem lookup_of_live {ctx ctx' : SessionCtx D} (h : ctx'.live = ctx.live) (loopId : UInt64) :
    ctx'.lookup loopId = ctx.lookup loopId := by
  rw [SessionCtx.lookup, h, SessionCtx.lookup]

theorem length_ids {ctx : SessionCtx D} (hwf : WellFormed ctx) :
    (ctx.ids.length : Int) = ctx.loopCount := by
  rw [SessionCtx.ids, List.length_map, length_live hwf]

/-! ## Entering -/

/-- The effect of a loop entry on the keyed table. -/
structure Entered (H : Sha256 D) (ctx ctx' : SessionCtx D) (loopId : UInt64)
    (rec : LoopRecord D) : Prop where
  loopDepth : ctx'.loopDepth = ctx.loopDepth + 1
  currentHash : ctx'.currentHash = H.digest H.zero loopId
  ids : ctx'.ids = addKey ctx.ids loopId
  record : ctx'.lookup loopId = some rec
  isActive : rec.isActive = true
  preLoopHash : rec.preLoopHash = ctx.currentHash
  iterationCount : rec.iterationCount = ((ctx.lookup loopId).map (·.iterationCount)).getD 0
  invocationCount :
    rec.invocationCount = ((ctx.lookup loopId).map (·.invocationCount)).getD 0 + 1
  others : ∀ loopId', loopId' ≠ loopId → ctx'.lookup loopId' = ctx.lookup loopId'

theorem entered_of_reopens {ctx ctx' : SessionCtx D} {loopId : UInt64} {i : Nat}
    (hm : Measuring ctx) (hclosed : ctx.IsClosed loopId) (h : Reopens H ctx loopId i ctx') :
    ∃ rec, Entered H ctx ctx' loopId rec := by
  rcases h.mem_inactive with ⟨old, hmem, hold⟩
  have hid := loopId_of_isInactiveOf old hold
  have hsome : loopId ∈ ctx.ids := by
    rw [← hid]
    exact List.mem_map_of_mem hmem
  -- The record that is reopened is the one that a lookup finds.
  obtain ⟨rec, hrec⟩ : ∃ rec, ctx.lookup loopId = some rec := by
    cases hl : ctx.lookup loopId with
    | some rec => exact ⟨rec, rfl⟩
    | none => exact absurd hsome (lookup_eq_none.1 hl)
  have htest : isInactiveOf loopId rec = true := by
    simp [isInactiveOf, hclosed rec hrec, key_of_lookup hrec]
  have hkey : ∀ r : LoopRecord D, (r.opened ctx.currentHash).loopId = r.loopId := fun _ => rfl
  refine ⟨rec.opened ctx.currentHash, h.loopDepth, ?_, ?_, ?_, rfl, rfl, ?_, ?_, ?_⟩
  · rw [h.currentHash, startHash, hm.initialized, if_pos rfl]
  · rw [addKey_of_mem hsome, SessionCtx.ids, h.live]
    exact keys_updateFirst hkey
  · rw [SessionCtx.lookup, h.live]
    exact lookup_updateFirst hkey loopId_of_isInactiveOf hrec htest
  · simp [hrec, LoopRecord.opened]
  · simp [hrec, LoopRecord.opened]
  · intro loopId' hne
    rw [SessionCtx.lookup, h.live]
    exact lookup_updateFirst_of_ne hkey loopId_of_isInactiveOf hne

theorem entered_of_allocates {ctx ctx' : SessionCtx D} {loopId : UInt64} {stale : LoopRecord D}
    (hm : Measuring ctx) (hclosed : ctx.IsClosed loopId)
    (h : Allocates H ctx loopId stale ctx') : ∃ rec, Entered H ctx ctx' loopId rec := by
  have hnone : ctx.lookup loopId = none := by
    cases hl : ctx.lookup loopId with
    | none => rfl
    | some rec =>
        -- A closed record of the loop would have been reused.
        have hfree := h.none_inactive rec (mem_of_lookup hl)
        simp [isInactiveOf, hclosed rec hl, key_of_lookup hl] at hfree
  refine ⟨(stale.recycled loopId ctx.loopDepth).opened ctx.currentHash, h.loopDepth, ?_, ?_, ?_,
    rfl, rfl, ?_, ?_, ?_⟩
  · rw [h.currentHash, startHash, hm.initialized, if_pos rfl]
  · have hid : loopId ∉ ctx.ids := lookup_eq_none.1 hnone
    rw [addKey_of_notMem hid, SessionCtx.ids, h.live, List.map_append]
    rfl
  · rw [SessionCtx.lookup, h.live, lookup_append_singleton]
    change Option.or (ctx.lookup loopId) _ = _
    simp [hnone, LoopRecord.opened, LoopRecord.recycled]
  · simp [hnone, LoopRecord.opened, LoopRecord.recycled]
  · simp [hnone, LoopRecord.opened, LoopRecord.recycled]
  · intro loopId' hne
    rw [SessionCtx.lookup, h.live, lookup_append_singleton]
    simp [LoopRecord.opened, LoopRecord.recycled, hne.symm, SessionCtx.lookup]

/-- A loop that is not active can be entered while there is room. -/
theorem enter_spec {ctx : SessionCtx D} {loopId : UInt64} (hm : Measuring ctx)
    (hclosed : ctx.IsClosed loopId) (hdepth : ctx.loopDepth < 16)
    (hroom : (addKey ctx.ids loopId).length ≤ 64) :
    ∃ ctx' rec, cmdLoopEnter H ctx loopId = (.success, ctx') ∧ Entered H ctx ctx' loopId rec := by
  have hcase := cmdLoopEnter_case (H := H) hm.wellFormed loopId
  generalize cmdLoopEnter H ctx loopId = out at hcase ⊢
  cases hcase with
  | reopens h =>
      rcases entered_of_reopens hm hclosed h with ⟨rec, hrec⟩
      exact ⟨_, rec, rfl, hrec⟩
  | allocates h =>
      rcases entered_of_allocates hm hclosed h with ⟨rec, hrec⟩
      exact ⟨_, rec, rfl, hrec⟩
  | refused h =>
      exfalso
      rcases h with hdeep | ⟨hnone, hfull⟩
      · simp only [maxLoopDepth] at hdeep
        omega
      · have hlen := length_ids hm.wellFormed
        -- A loop that has a record is closed, so the record would be free.
        have hid : loopId ∉ ctx.ids := by
          intro hmem
          rcases List.mem_map.1 hmem with ⟨rec, hrec, hid⟩
          have hfree := hnone rec hrec
          have hactive : rec.isActive = true := by simpa [isInactiveOf, hid] using hfree
          cases hl : ctx.lookup loopId with
          | none => exact lookup_eq_none.1 hl hmem
          | some rec' =>
              have hfree' := hnone rec' (mem_of_lookup hl)
              simp [isInactiveOf, key_of_lookup hl, hclosed rec' hl] at hfree'
        rw [addKey_of_notMem hid, List.length_append, List.length_singleton] at hroom
        simp only [maxLoopRecords] at hfull
        omega

/-! ## Leaving -/

/-- The effect of a loop exit on the keyed table. -/
structure Exited (ctx ctx' : SessionCtx D) (loopId : UInt64) (rec : LoopRecord D) : Prop where
  loopDepth : ctx'.loopDepth = ctx.loopDepth - 1
  currentHash : ctx'.currentHash = rec.preLoopHash
  ids : ctx'.ids = ctx.ids
  record : ctx'.lookup loopId = some (rec.closed ctx.currentHash)
  others : ∀ loopId', loopId' ≠ loopId → ctx'.lookup loopId' = ctx.lookup loopId'

/-- An active loop can be left, and the record it closes is its own. -/
theorem exit_spec {ctx : SessionCtx D} {loopId : UInt64} {rec : LoopRecord D} (hm : Measuring ctx)
    (hnodup : ctx.ids.Nodup) (hrec : ctx.lookup loopId = some rec)
    (hactive : rec.isActive = true) :
    ∃ ctx', cmdLoopExit ctx loopId = (.success, ctx') ∧ Exited ctx ctx' loopId rec := by
  have hcase := cmdLoopExit_case ctx loopId
  have hmem : rec ∈ ctx.live := mem_of_lookup hrec
  have htest : isActiveOf loopId rec = true := by
    simp [isActiveOf, hactive, key_of_lookup hrec]
  have hkey : ∀ r : LoopRecord D, (r.closed ctx.currentHash).loopId = r.loopId := fun _ => rfl
  generalize cmdLoopExit ctx loopId = out at hcase ⊢
  cases hcase with
  | underflow h =>
      have hpos := activeCount_pos hmem hactive
      have hexact := hm.exact
      omega
  | notFound _ h => simp [h rec hmem] at htest
  | @closes ctx' i rec' h =>
      -- With distinct ids the first active record of the loop is its only one.
      have hfound : rec' = rec := by
        rcases List.findIdx?_eq_some_iff_getElem.1 h.index with ⟨hi, hmatch, _⟩
        have hrec' : ctx.live[i] = rec' :=
          Option.some.inj ((List.getElem?_eq_getElem hi).symm.trans h.record)
        rw [hrec'] at hmatch
        have hmem' : rec' ∈ ctx.live := List.mem_of_getElem? h.record
        have hlookup := lookup_of_mem hnodup hmem'
        rw [loopId_of_isActiveOf rec' hmatch] at hlookup
        exact Option.some.inj (hlookup.symm.trans hrec)
      refine ⟨ctx', rfl, h.loopDepth, ?_, ?_, ?_, ?_⟩
      · rw [h.currentHash, hfound]
      · rw [SessionCtx.ids, h.live]
        exact keys_updateFirst hkey
      · rw [SessionCtx.lookup, h.live]
        exact lookup_updateFirst hkey loopId_of_isActiveOf hrec htest
      · intro loopId' hne
        rw [SessionCtx.lookup, h.live]
        exact lookup_updateFirst_of_ne hkey loopId_of_isActiveOf hne

/-! ## Counting an iteration -/

/-- The effect of an iteration on the record of a loop. -/
def LoopRecord.iteratedIf (rec : LoopRecord D) (isOwn : Bool) : LoopRecord D :=
  if isOwn && rec.isActive then rec.iterated else rec

theorem iteration_spec {ctx : SessionCtx D} (hnodup : ctx.ids.Nodup) (loopId : UInt64) :
    (cmdLoopIteration ctx loopId).1 = .success ∧
      (cmdLoopIteration ctx loopId).2.loopDepth = ctx.loopDepth ∧
      (cmdLoopIteration ctx loopId).2.ids = ctx.ids ∧
      ∀ loopId', (cmdLoopIteration ctx loopId).2.lookup loopId' =
        (ctx.lookup loopId').map fun rec => rec.iteratedIf (loopId' = loopId) := by
  have hcase := cmdLoopIteration_case ctx loopId
  have hkey : ∀ r : LoopRecord D, r.iterated.loopId = r.loopId := fun _ => rfl
  generalize cmdLoopIteration ctx loopId = out at hcase ⊢
  cases hcase with
  | ignored h =>
      refine ⟨rfl, rfl, rfl, ?_⟩
      intro loopId'
      cases hl : ctx.lookup loopId' with
      | none => simp
      | some rec =>
          -- Nothing was counted, so the loop's own record is not active.
          have hidle := findLastIdx?_eq_none h rec (mem_of_lookup hl)
          have hid : rec.loopId = loopId' := key_of_lookup hl
          have hoff : (decide (loopId' = loopId) && rec.isActive) = false := by
            simpa [isActiveOf, hid, Bool.beq_eq_decide_eq] using hidle
          have hstay : rec.iteratedIf (decide (loopId' = loopId)) = rec := by
            rw [LoopRecord.iteratedIf, hoff]
            rfl
          rw [Option.map_some, hstay]
  | @counts ctx' i h =>
      have hlive : ctx'.live = updateFirst (isActiveOf loopId) LoopRecord.iterated ctx.live := by
        rw [h.live]
        -- With distinct ids the last active record of the loop is the first one.
        exact modify_of_findLastIdx? loopId_of_isActiveOf hnodup h.index
      refine ⟨rfl, h.loopDepth, ?_, ?_⟩
      · rw [SessionCtx.ids, hlive]
        exact keys_updateFirst hkey
      · intro loopId'
        by_cases hid : loopId' = loopId
        · subst hid
          rcases mem_of_findLastIdx? h.index with ⟨rec, hrec, hactive⟩
          have hlookup : ctx.lookup loopId' = some rec := by
            have := lookup_of_mem hnodup hrec
            rwa [loopId_of_isActiveOf rec hactive] at this
          have hon := isActive_of_isActiveOf hactive
          rw [SessionCtx.lookup, hlive,
            lookup_updateFirst hkey loopId_of_isActiveOf hlookup hactive, hlookup]
          simp [LoopRecord.iteratedIf, hon]
        · rw [SessionCtx.lookup, hlive,
            lookup_updateFirst_of_ne hkey loopId_of_isActiveOf hid]
          change ctx.lookup loopId' = _
          simp [LoopRecord.iteratedIf, hid]

end SecureWorld
end CFlat
