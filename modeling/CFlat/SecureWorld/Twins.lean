import CFlat.SecureWorld.Slots
import CFlat.SecureWorld.Report

/-!
# Twins — two contexts that have gone through the same events

`Twin Q T c₁ c₂` relates two contexts that have gone through the same events since their CMD_INIT,
whatever they held before: slot by slot their live records agree in every field, except that
`loop_hash` agrees only in slots that were closed once.  In the other slots it is still what an
earlier cycle left there, and `Q` is what is known of these leftovers.  `twin_exec` is the step
lemma, `twin_run` the run lemma, and `Twin.measured_eq` what a CMD_FINALIZE then reports.
-/

namespace CFlat
namespace SecureWorld

open Lib

variable {D : Type} {H : Sha256 D} {Q : D → D → Prop}

/-- A slot with the two records that stand at its place. -/
abbrev Place (D : Type) := Slot × LoopRecord D × LoopRecord D

/-- The two records of a place agree with the slot and with each other, `loop_hash` only where the
slot was closed. -/
structure Agrees (Q : D → D → Prop) (p : Place D) : Prop where
  loopId : p.2.1.loopId = p.1.loopId
  isActive : p.2.1.isActive = p.1.isOpen
  others : p.2.2 = { p.2.1 with loopHash := p.2.2.loopHash }
  loopHash : p.1.wasClosed = true → p.2.2.loopHash = p.2.1.loopHash
  leftover : p.1.wasClosed = false → Q p.2.1.loopHash p.2.2.loopHash

/-- The live records of the two contexts, slot by slot. -/
structure Places (Q : D → D → Prop) (σ : List Slot) (c₁ c₂ : SessionCtx D)
    (ps : List (Place D)) : Prop where
  slots : σ = ps.map (·.1)
  left : c₁.live = ps.map (·.2.1)
  right : c₂.live = ps.map (·.2.2)
  agree : ∀ p ∈ ps, Agrees Q p

/-- Two initialised contexts that have gone through the same events since their CMD_INIT. -/
structure Twin (Q : D → D → Prop) (T : SlotTable) (c₁ c₂ : SessionCtx D) : Prop where
  left : Ready c₁
  right : Ready c₂
  depth_left : c₁.loopDepth = T.depth
  depth_right : c₂.loopDepth = T.depth
  currentHash : c₁.currentHash = c₂.currentHash
  callDepth : c₁.callDepth = c₂.callDepth
  places : ∃ ps, Places Q T.slots c₁ c₂ ps
  spare : List.Forall₂ (fun rec₁ rec₂ => Q rec₁.loopHash rec₂.loopHash) c₁.spare c₂.spare

/-! ## Places -/

theorem Agrees.loopId_right {p : Place D} (h : Agrees Q p) : p.2.2.loopId = p.1.loopId := by
  rw [h.others]
  exact h.loopId

theorem Agrees.isActive_right {p : Place D} (h : Agrees Q p) : p.2.2.isActive = p.1.isOpen := by
  rw [h.others]
  exact h.isActive

/-- A search for an inactive record is a search for a free slot, on both sides. -/
theorem Agrees.isInactiveOf {p : Place D} (h : Agrees Q p) (loopId : UInt64) :
    isInactiveOf loopId p.2.1 = Slot.isFreeOf loopId p.1 ∧
      isInactiveOf loopId p.2.2 = Slot.isFreeOf loopId p.1 := by
  simp [SecureWorld.isInactiveOf, Slot.isFreeOf, h.loopId, h.isActive, h.loopId_right,
    h.isActive_right]

/-- A search for an active record is a search for an open slot, on both sides. -/
theorem Agrees.isActiveOf {p : Place D} (h : Agrees Q p) (loopId : UInt64) :
    isActiveOf loopId p.2.1 = Slot.isOpenOf loopId p.1 ∧
      isActiveOf loopId p.2.2 = Slot.isOpenOf loopId p.1 := by
  simp [SecureWorld.isActiveOf, Slot.isOpenOf, h.loopId, h.isActive, h.loopId_right,
    h.isActive_right]

theorem Agrees.toReport {p : Place D} (h : Agrees Q p) (hclosed : p.1.wasClosed = true) :
    p.2.1.toReport = p.2.2.toReport := by
  rw [h.others, h.loopHash hclosed]

theorem Agrees.opened {p : Place D} (h : Agrees Q p) (hash : D) :
    Agrees Q (p.1.opened, p.2.1.opened hash, p.2.2.opened hash) where
  loopId := h.loopId
  isActive := rfl
  others := by
    rw [h.others]
    rfl
  loopHash := h.loopHash
  leftover := h.leftover

theorem Agrees.closed {p : Place D} (h : Agrees Q p) (hash : D) :
    Agrees Q (p.1.closed, p.2.1.closed hash, p.2.2.closed hash) where
  loopId := h.loopId
  isActive := rfl
  others := by
    rw [h.others]
    rfl
  loopHash := fun _ => rfl
  leftover := fun h => by cases h

theorem Agrees.iterated {p : Place D} (h : Agrees Q p) :
    Agrees Q (p.1, p.2.1.iterated, p.2.2.iterated) where
  loopId := h.loopId
  isActive := h.isActive
  others := by
    rw [h.others]
    rfl
  loopHash := h.loopHash
  leftover := h.leftover

theorem Agrees.shut {p : Place D} (h : Agrees Q p) :
    Agrees Q (p.1.shut, p.2.1.deactivated, p.2.2.deactivated) := by
  have hactive : ∀ rec : LoopRecord D, rec.deactivated = { rec with isActive := false } := by
    rintro ⟨_, _, _, _, _, _ | _, _⟩ <;> rfl
  rw [hactive, hactive]
  exact
    { loopId := h.loopId
      isActive := rfl
      others := by
        rw [h.others]
      loopHash := h.loopHash
      leftover := h.leftover }

/-- Two freshly taken slots agree, whatever stood there, up to the stale `loop_hash`. -/
theorem agrees_recycled {stale₁ stale₂ : LoopRecord D} (hQ : Q stale₁.loopHash stale₂.loopHash)
    (loopId : UInt64) (depth : Int) (hash : D) :
    Agrees Q (⟨loopId, true, false⟩, (stale₁.recycled loopId depth).opened hash,
      (stale₂.recycled loopId depth).opened hash) where
  loopId := rfl
  isActive := rfl
  others := rfl
  loopHash := fun h => by cases h
  leftover := fun _ => hQ

section Places

variable {σ : List Slot} {c₁ c₂ c₁' c₂' : SessionCtx D} {ps : List (Place D)}
  (h : Places Q σ c₁ c₂ ps)
include h

theorem Places.over_left {depth : Nat} (hdepth : c₁.loopDepth = depth) : Over ⟨σ, depth⟩ c₁ := by
  refine ⟨?_, hdepth⟩
  rw [h.left, h.slots, List.map_map, List.map_map]
  apply List.map_congr_left
  intro p hp
  simp [(h.agree p hp).loopId, (h.agree p hp).isActive]

theorem Places.over_right {depth : Nat} (hdepth : c₂.loopDepth = depth) :
    Over ⟨σ, depth⟩ c₂ := by
  refine ⟨?_, hdepth⟩
  rw [h.right, h.slots, List.map_map, List.map_map]
  apply List.map_congr_left
  intro p hp
  simp [(h.agree p hp).loopId_right, (h.agree p hp).isActive_right]

/-- The tables are updated in the same way at the first place that passes a test. -/
theorem Places.updateFirst {test : Slot → Bool} {ltest : LoopRecord D → Bool}
    {k : Slot → Slot} {f : LoopRecord D → LoopRecord D}
    (htest : ∀ p, Agrees Q p → ltest p.2.1 = test p.1 ∧ ltest p.2.2 = test p.1)
    (hgood : ∀ p, Agrees Q p → Agrees Q (k p.1, f p.2.1, f p.2.2))
    (hleft : c₁'.live = Lib.updateFirst ltest f c₁.live)
    (hright : c₂'.live = Lib.updateFirst ltest f c₂.live) :
    ∃ ps', Places Q (Lib.updateFirst test k σ) c₁' c₂' ps' := by
  refine ⟨Lib.updateFirst (fun p => test p.1) (fun p => (k p.1, f p.2.1, f p.2.2)) ps,
    ?_, ?_, ?_, ?_⟩
  · rw [h.slots]
    refine (map_updateFirst ?_ ?_).symm
    · exact fun _ _ => rfl
    · exact fun _ _ _ => rfl
  · rw [hleft, h.left]
    refine (map_updateFirst ?_ ?_).symm
    · exact fun p hp => (htest p (h.agree p hp)).1.symm
    · exact fun _ _ _ => rfl
  · rw [hright, h.right]
    refine (map_updateFirst ?_ ?_).symm
    · exact fun p hp => (htest p (h.agree p hp)).2.symm
    · exact fun _ _ _ => rfl
  · intro p hp
    rcases mem_updateFirst hp with hold | ⟨p₀, hp₀, _, rfl⟩
    · exact h.agree p hold
    · exact hgood p₀ (h.agree p₀ hp₀)

/-- A place is added behind the others. -/
theorem Places.append {p : Place D} (hp : Agrees Q p) (hleft : c₁'.live = c₁.live ++ [p.2.1])
    (hright : c₂'.live = c₂.live ++ [p.2.2]) : Places Q (σ ++ [p.1]) c₁' c₂' (ps ++ [p]) where
  slots := by simp [h.slots]
  left := by simp [hleft, h.left]
  right := by simp [hright, h.right]
  agree := by
    intro q hq
    rcases List.mem_append.1 hq with hold | hnew
    · exact h.agree q hold
    · rwa [List.mem_singleton.1 hnew]

/-- Both contexts find the first active record of a loop at the same place. -/
theorem Places.preLoopHash_eq {loopId : UInt64} {i₁ i₂ : Nat} {rec₁ rec₂ : LoopRecord D}
    (h₁ : Closes c₁ loopId i₁ rec₁ c₁') (h₂ : Closes c₂ loopId i₂ rec₂ c₂') :
    rec₁.preLoopHash = rec₂.preLoopHash := by
  have hidx₁ := h₁.index
  have hidx₂ := h₂.index
  rw [h.left, findIdx?_map_of_test (fun p hp => ((h.agree p hp).isActiveOf loopId).1)] at hidx₁
  rw [h.right, findIdx?_map_of_test (fun p hp => ((h.agree p hp).isActiveOf loopId).2)] at hidx₂
  obtain rfl : i₁ = i₂ := Option.some.inj (hidx₁.symm.trans hidx₂)
  have hrec₁ := h₁.record
  have hrec₂ := h₂.record
  rw [h.left, List.getElem?_map] at hrec₁
  rw [h.right, List.getElem?_map] at hrec₂
  rcases Option.map_eq_some_iff.1 hrec₁ with ⟨p, hp, hpre₁⟩
  rw [hp] at hrec₂
  have hpre₂ : p.2.2 = rec₂ := Option.some.inj hrec₂
  have hothers := (h.agree p (List.mem_of_getElem? hp)).others
  calc
    rec₁.preLoopHash = p.2.1.preLoopHash := by rw [← hpre₁]
    _ = p.2.2.preLoopHash := by rw [hothers]
    _ = rec₂.preLoopHash := by rw [hpre₂]

/-- Both contexts count an iteration at the same place, or not at all. -/
theorem Places.iteration (loopId : UInt64) :
    (cmdLoopIteration c₁ loopId).1 = (cmdLoopIteration c₂ loopId).1 ∧
      ∃ ps', Places Q σ (cmdLoopIteration c₁ loopId).2 (cmdLoopIteration c₂ loopId).2 ps' := by
  have hidx₁ : findLastIdx? (SecureWorld.isActiveOf loopId) c₁.live =
      findLastIdx? (fun p : Place D => Slot.isOpenOf loopId p.1) ps := by
    rw [h.left, findLastIdx?_map_of_test (fun p hp => ((h.agree p hp).isActiveOf loopId).1)]
  have hidx₂ : findLastIdx? (SecureWorld.isActiveOf loopId) c₂.live =
      findLastIdx? (fun p : Place D => Slot.isOpenOf loopId p.1) ps := by
    rw [h.right, findLastIdx?_map_of_test (fun p hp => ((h.agree p hp).isActiveOf loopId).2)]
  simp only [cmdLoopIteration, hidx₁, hidx₂]
  cases findLastIdx? (fun p : Place D => Slot.isOpenOf loopId p.1) ps with
  | none => exact ⟨rfl, ps, h⟩
  | some i =>
      refine ⟨rfl, ps.modify i (fun p => (p.1, p.2.1.iterated, p.2.2.iterated)), ?_, ?_, ?_, ?_⟩
      · rw [h.slots]
        refine ((map_modify (k := id) ?_ i).trans (List.modify_id _ _)).symm
        exact fun _ _ => rfl
      · rw [live_modifyLoop, h.left]
        refine (map_modify ?_ i).symm
        exact fun _ _ => rfl
      · rw [live_modifyLoop, h.right]
        refine (map_modify ?_ i).symm
        exact fun _ _ => rfl
      · intro p hp
        rcases mem_modify hp with hold | ⟨p₀, hp₀, rfl⟩
        · exact h.agree p hold
        · exact (h.agree p₀ hp₀).iterated

end Places

/-! ## One command in two contexts -/

section Twin

variable {T : SlotTable} {c₁ c₂ c₁' c₂' : SessionCtx D} (h : Twin Q T c₁ c₂)
include h

theorem Twin.over_left : Over T c₁ := by
  rcases h.places with ⟨ps, hps⟩
  exact hps.over_left h.depth_left

theorem Twin.over_right : Over T c₂ := by
  rcases h.places with ⟨ps, hps⟩
  exact hps.over_right h.depth_right

theorem Twin.startHash (loopId : UInt64) :
    startHash H c₁ loopId = startHash H c₂ loopId := by
  unfold SecureWorld.startHash
  rw [h.left.initialized, h.right.initialized]

/-- A command outside the loop table keeps twins that agree on the rest. -/
theorem Twin.of_tableFrame (hready₁ : Ready c₁') (hready₂ : Ready c₂') (h₁ : TableFrame c₁ c₁')
    (h₂ : TableFrame c₂ c₂') (hhash : c₁'.currentHash = c₂'.currentHash)
    (hcall : c₁'.callDepth = c₂'.callDepth) : Twin Q T c₁' c₂' := by
  rcases h.places with ⟨ps, hps⟩
  refine ⟨hready₁, hready₂, h₁.loopDepth.trans h.depth_left, h₂.loopDepth.trans h.depth_right,
    hhash, hcall, ⟨ps, hps.slots, h₁.live.trans hps.left, h₂.live.trans hps.right, hps.agree⟩, ?_⟩
  rw [h₁.spare, h₂.spare]
  exact h.spare

theorem twin_enter (loopId : UInt64) :
    (cmdLoopEnter H c₁ loopId).1 = (cmdLoopEnter H c₂ loopId).1 ∧
      Twin Q (T.enter loopId).2 (cmdLoopEnter H c₁ loopId).2 (cmdLoopEnter H c₂ loopId).2 := by
  have hready₁ : Ready (cmdLoopEnter H c₁ loopId).2 :=
    ready_handle (H := H) h.left (.loopEnter loopId)
  have hready₂ : Ready (cmdLoopEnter H c₂ loopId).2 :=
    ready_handle (H := H) h.right (.loopEnter loopId)
  have hcase := slotEnter_case T loopId
  have hwf₁ := h.left.wellFormed
  have hwf₂ := h.right.wellFormed
  have hdepth₁ := h.depth_left
  have hdepth₂ := h.depth_right
  generalize T.enter loopId = out at hcase ⊢
  rcases h.places with ⟨ps, hps⟩
  cases hcase with
  | refused hfull =>
      rw [h.over_left.enter_refused hwf₁ hfull, h.over_right.enter_refused hwf₂ hfull]
      exact ⟨rfl, h⟩
  | reopens hdeep hfree =>
      rcases h.over_left.enter_reopens (H := H) hwf₁ hdeep hfree with ⟨i₁, c₁', heq₁, h₁⟩
      rcases h.over_right.enter_reopens (H := H) hwf₂ hdeep hfree with ⟨i₂, c₂', heq₂, h₂⟩
      rw [heq₁] at hready₁ ⊢
      rw [heq₂] at hready₂ ⊢
      refine ⟨rfl, hready₁, hready₂, ?_, ?_, ?_, ?_, ?_, ?_⟩
      · rw [h₁.loopDepth, hdepth₁]
        rfl
      · rw [h₂.loopDepth, hdepth₂]
        rfl
      · rw [h₁.currentHash, h₂.currentHash, h.startHash]
      · rw [h₁.frame.callDepth, h₂.frame.callDepth, h.callDepth]
      -- Both searches stop at the first free slot.
      · exact hps.updateFirst (fun p hp => hp.isInactiveOf loopId)
          (fun p hp => hp.opened c₁.currentHash) h₁.live (h.currentHash ▸ h₂.live)
      · rw [h₁.spare, h₂.spare]
        exact h.spare
  | allocates hdeep hnone hroom =>
      obtain ⟨stale₁, c₁', heq₁, h₁⟩ :=
        h.over_left.enter_allocates (H := H) hwf₁ hdeep hnone hroom
      obtain ⟨stale₂, c₂', heq₂, h₂⟩ :=
        h.over_right.enter_allocates (H := H) hwf₂ hdeep hnone hroom
      rw [heq₁] at hready₁ ⊢
      rw [heq₂] at hready₂ ⊢
      have hlive₂ := h₂.live
      rw [hdepth₂, ← hdepth₁, ← h.currentHash] at hlive₂
      have hspare := h.spare
      -- The stale slots are the first spare ones, whose leftovers are related.
      rw [h₁.spare, h₂.spare, List.forall₂_cons] at hspare
      refine ⟨rfl, hready₁, hready₂, ?_, ?_, ?_, ?_,
        ⟨_, hps.append (agrees_recycled hspare.1 ..) h₁.live hlive₂⟩, hspare.2⟩
      · rw [h₁.loopDepth, hdepth₁]
        rfl
      · rw [h₂.loopDepth, hdepth₂]
        rfl
      · rw [h₁.currentHash, h₂.currentHash, h.startHash]
      · rw [h₁.frame.callDepth, h₂.frame.callDepth, h.callDepth]

theorem twin_exit (loopId : UInt64) :
    (handle H c₁ (.loopExit loopId)).1 = (handle H c₂ (.loopExit loopId)).1 ∧
      Twin Q (T.exit loopId).2 (handle H c₁ (.loopExit loopId)).2
        (handle H c₂ (.loopExit loopId)).2 := by
  have hready₁ := ready_handle (H := H) h.left (.loopExit loopId)
  have hready₂ := ready_handle (H := H) h.right (.loopExit loopId)
  have hcase := slotExit_case T loopId
  have hdepth₁ := h.depth_left
  have hdepth₂ := h.depth_right
  generalize T.exit loopId = out at hcase ⊢
  simp only [handle] at hready₁ hready₂ ⊢
  rcases h.places with ⟨ps, hps⟩
  cases hcase with
  | underflow hzero =>
      rw [h.over_left.exit_underflow hzero, h.over_right.exit_underflow hzero]
      exact ⟨rfl, h⟩
  | notFound hpos hnone =>
      rw [h.over_left.exit_notFound hpos hnone, h.over_right.exit_notFound hpos hnone]
      exact ⟨rfl, h⟩
  | closes hpos hmatch =>
      rcases h.over_left.exit_closes hpos hmatch with ⟨i₁, rec₁, c₁', heq₁, h₁⟩
      rcases h.over_right.exit_closes hpos hmatch with ⟨i₂, rec₂, c₂', heq₂, h₂⟩
      rw [heq₁] at hready₁ ⊢
      rw [heq₂] at hready₂ ⊢
      refine ⟨rfl, hready₁, hready₂, ?_, ?_, ?_, ?_, ?_, ?_⟩
      · rw [h₁.loopDepth, hdepth₁]
        simp only
        omega
      · rw [h₂.loopDepth, hdepth₂]
        simp only
        omega
      · rw [h₁.currentHash, h₂.currentHash, hps.preLoopHash_eq h₁ h₂]
      · rw [h₁.frame.callDepth, h₂.frame.callDepth, h.callDepth]
      -- Both searches stop at the first open slot.
      · exact hps.updateFirst (fun p hp => hp.isActiveOf loopId)
          (fun p hp => hp.closed c₁.currentHash) h₁.live (h.currentHash ▸ h₂.live)
      · rw [h₁.spare, h₂.spare]
        exact h.spare

theorem twin_handle (e : Event) :
    (handle H c₁ e).1 = (handle H c₂ e).1 ∧
      Twin Q (slotExec T (.event e)).2 (handle H c₁ e).2 (handle H c₂ e).2 := by
  have hready₁ := ready_handle (H := H) h.left e
  have hready₂ := ready_handle (H := H) h.right e
  cases e with
  | recordNode nodeId =>
      rcases cmdRecordNode_of_initialized (H := H) h.left.initialized nodeId with ⟨hres₁, hhash₁⟩
      rcases cmdRecordNode_of_initialized (H := H) h.right.initialized nodeId with ⟨hres₂, hhash₂⟩
      refine ⟨hres₁.trans hres₂.symm, h.of_tableFrame hready₁ hready₂
        (tableFrame_recordNode c₁ nodeId) (tableFrame_recordNode c₂ nodeId) ?_ ?_⟩
      · exact hhash₁.trans ((congrArg (H.digest · nodeId) h.currentHash).trans hhash₂.symm)
      · simpa [handle] using h.callDepth
  | loopEnter loopId => exact twin_enter h loopId
  | loopExit loopId => exact twin_exit h loopId
  | loopIteration loopId =>
      rcases h.places with ⟨ps, hps⟩
      rcases hps.iteration loopId with ⟨hres, ps', hps'⟩
      have hframe₁ := frame_iteration c₁ loopId
      have hframe₂ := frame_iteration c₂ loopId
      refine ⟨hres, hready₁, hready₂, ?_, ?_, ?_, ?_, ⟨ps', hps'⟩, ?_⟩
      · exact hframe₁.loopDepth.trans h.depth_left
      · exact hframe₂.loopDepth.trans h.depth_right
      · exact hframe₁.currentHash.trans (h.currentHash.trans hframe₂.currentHash.symm)
      · exact hframe₁.callDepth.trans (h.callDepth.trans hframe₂.callDepth.symm)
      · simp only [handle, hframe₁.spare, hframe₂.spare]
        exact h.spare
  | callEnter callId caller =>
      rcases callEnter_of_callDepth_eq h.callDepth callId caller with ⟨hres, hdepth⟩
      refine ⟨hres, h.of_tableFrame hready₁ hready₂ (tableFrame_callEnter c₁ callId caller)
        (tableFrame_callEnter c₂ callId caller) ?_ hdepth⟩
      simpa [handle] using h.currentHash
  | callReturn callId =>
      refine ⟨by simp [handle], h.of_tableFrame hready₁ hready₂ (tableFrame_callReturn c₁ callId)
        (tableFrame_callReturn c₂ callId) ?_ (callReturn_of_callDepth_eq h.callDepth callId)⟩
      simpa [handle] using h.currentHash

/-- A CMD_FINALIZE shuts every place and leaves the rest as it was. -/
theorem twin_finalize : Twin Q T.finalize (cmdFinalize H c₁).2 (cmdFinalize H c₂).2 := by
  rcases h.places with ⟨ps, hps⟩
  refine ⟨ready_finalize h.left, ready_finalize h.right, h.depth_left, h.depth_right,
    h.currentHash, h.callDepth,
    ⟨ps.map fun p => (p.1.shut, p.2.1.deactivated, p.2.2.deactivated), ?_, ?_, ?_, ?_⟩, ?_⟩
  · rw [SlotTable.finalize, hps.slots, List.map_map, List.map_map]
    rfl
  · refine (live_forceClose h.left.wellFormed).trans ?_
    rw [hps.left, List.map_map, List.map_map]
    rfl
  · refine (live_forceClose h.right.wellFormed).trans ?_
    rw [hps.right, List.map_map, List.map_map]
    rfl
  · intro p hp
    rcases List.mem_map.1 hp with ⟨p₀, hp₀, rfl⟩
    exact (hps.agree p₀ hp₀).shut
  · have hspare₁ : (cmdFinalize H c₁).2.spare = c₁.spare := spare_forceClose h.left.wellFormed
    have hspare₂ : (cmdFinalize H c₂).2.spare = c₂.spare := spare_forceClose h.right.wellFormed
    rw [hspare₁, hspare₂]
    exact h.spare

end Twin

/-- The commands of a cycle after its CMD_INIT. -/
def Cmd.isCycle : Cmd → Bool
  | .event _ => true
  | .finalize => true
  | _ => false

/-- The step lemma: a command of a cycle keeps twins twins and gets the same answer from both. -/
theorem twin_exec {T : SlotTable} {c₁ c₂ : SessionCtx D} (h : Twin Q T c₁ c₂) {cmd : Cmd}
    (hcmd : cmd.isCycle = true) :
    (exec H c₁ cmd).1 = (exec H c₂ cmd).1 ∧
      Twin Q (slotExec T cmd).2 (exec H c₁ cmd).2 (exec H c₂ cmd).2 := by
  cases cmd with
  | event e =>
      rcases twin_handle (H := H) h e with ⟨hres, hstep⟩
      exact ⟨by simp [exec, hres], hstep⟩
  | finalize => exact ⟨rfl, twin_finalize h⟩
  | init alloc => cases hcmd
  | getAuth out => cases hcmd
  | getLog out => cases hcmd

/-! ## Whole runs -/

/-- What a CMD_INIT resets, and the slots it leaves behind. -/
theorem reset_init (alloc : AllocOutcome) (ctx : SessionCtx D) :
    (cmdInit H alloc ctx).2.currentHash = H.zero ∧ (cmdInit H alloc ctx).2.callDepth = 0 ∧
      (cmdInit H alloc ctx).2.spare = ctx.loops.toList := by
  cases alloc with
  | ok handle => simp [cmdInit_ok, SessionCtx.spare]
  | fail err clears => simp [cmdInit_fail, SessionCtx.spare]

/-- Two CMD_INITs lead to twins over no slots, if they leave both sessions initialised; what was
there before is left over. -/
theorem twin_reset {c₁ c₂ : SessionCtx D}
    (hQ : List.Forall₂ (fun rec₁ rec₂ => Q rec₁.loopHash rec₂.loopHash) c₁.loops.toList
      c₂.loops.toList) {alloc₁ alloc₂ : AllocOutcome} (h₁ : Ready (cmdInit H alloc₁ c₁).2)
    (h₂ : Ready (cmdInit H alloc₂ c₂).2) :
    Twin Q .empty (cmdInit H alloc₁ c₁).2 (cmdInit H alloc₂ c₂).2 := by
  rcases reset_init (H := H) alloc₁ c₁ with ⟨hhash₁, hcalls₁, hspare₁⟩
  rcases reset_init (H := H) alloc₂ c₂ with ⟨hhash₂, hcalls₂, hspare₂⟩
  rcases live_init (H := H) alloc₁ c₁ with ⟨hlive₁, hdepth₁⟩
  rcases live_init (H := H) alloc₂ c₂ with ⟨hlive₂, hdepth₂⟩
  refine ⟨h₁, h₂, hdepth₁, hdepth₂, hhash₁.trans hhash₂.symm, hcalls₁.trans hcalls₂.symm, ?_, ?_⟩
  · exact ⟨[], rfl, hlive₁, hlive₂, fun p hp => by simp at hp⟩
  · rw [hspare₁, hspare₂]
    exact hQ

/-- Two successful CMD_INITs lead to twins. -/
theorem twin_init {c₁ c₂ : SessionCtx D}
    (hQ : List.Forall₂ (fun rec₁ rec₂ => Q rec₁.loopHash rec₂.loopHash) c₁.loops.toList
      c₂.loops.toList) (handle₁ handle₂ : Handle) :
    Twin Q .empty (cmdInit H (.ok handle₁) c₁).2 (cmdInit H (.ok handle₂) c₂).2 :=
  twin_reset hQ (measuring_init_ok handle₁ c₁).ready (measuring_init_ok handle₂ c₂).ready

/-- Of any two contexts at all, nothing is known of what is left over. -/
theorem leftover_trivial (c₁ c₂ : SessionCtx D) :
    List.Forall₂ (fun _ _ => True) c₁.loops.toList c₂.loops.toList := by
  rw [List.forall₂_iff_get]
  exact ⟨by simp, fun _ _ _ => trivial⟩

/-- The run lemma. -/
theorem twin_run (cmds : List Cmd) (hcmds : ∀ cmd ∈ cmds, cmd.isCycle = true) {T : SlotTable}
    {c₁ c₂ : SessionCtx D} (h : Twin Q T c₁ c₂) :
    (exec H).replies c₁ cmds = (exec H).replies c₂ cmds ∧
      Twin Q (slotExec.run T cmds) ((exec H).run c₁ cmds) ((exec H).run c₂ cmds) := by
  induction cmds generalizing T c₁ c₂ with
  | nil => exact ⟨rfl, h⟩
  | cons cmd cmds ih =>
      rcases twin_exec (H := H) h (hcmds cmd (by simp)) with ⟨hres, hstep⟩
      rcases ih (fun cmd' hcmd' => hcmds cmd' (by simp [hcmd'])) hstep with ⟨hreplies, hrun⟩
      exact ⟨by simp [hres, hreplies], hrun⟩

/-- When every slot was closed once, both contexts are about to report the same. -/
theorem Twin.measured_eq {T : SlotTable} {c₁ c₂ : SessionCtx D} (h : Twin Q T c₁ c₂)
    (hclosed : ∀ slot ∈ T.slots, slot.wasClosed = true) : c₁.measured = c₂.measured := by
  rcases h.places with ⟨ps, hps⟩
  -- Where the slot was closed the two records agree in every serialised field.
  have hloops : c₁.live.map LoopRecord.toReport = c₂.live.map LoopRecord.toReport := by
    rw [hps.left, hps.right, List.map_map, List.map_map]
    apply List.map_congr_left
    intro p hp
    refine (hps.agree p hp).toReport (hclosed p.1 ?_)
    rw [hps.slots]
    exact List.mem_map_of_mem hp
  simp [SessionCtx.measured, h.currentHash, hloops]

/-- A slot that was never closed shows what was left over. -/
theorem Twin.measured_ne {T : SlotTable} {c₁ c₂ : SessionCtx D}
    (h : Twin (fun hash₁ hash₂ => hash₁ ≠ hash₂) T c₁ c₂)
    (hopen : ∃ slot ∈ T.slots, slot.wasClosed = false) : c₁.measured ≠ c₂.measured := by
  rcases h.places with ⟨ps, hps⟩
  rcases hopen with ⟨slot, hslot, hunclosed⟩
  rw [hps.slots] at hslot
  rcases List.mem_map.1 hslot with ⟨p, hp, rfl⟩
  intro heq
  have hloops : c₁.live.map LoopRecord.toReport = c₂.live.map LoopRecord.toReport :=
    congrArg Report.loops heq
  rw [hps.left, hps.right, List.map_map, List.map_map, List.map_inj_left] at hloops
  -- Equal reports have equal `loop_hash` fields, also in the slot that was never closed.
  have hrec : p.2.1.loopHash = p.2.2.loopHash := congrArg ReportRecord.loopHash (hloops p hp)
  exact (hps.agree p hp).leftover hunclosed hrec

end SecureWorld
end CFlat
