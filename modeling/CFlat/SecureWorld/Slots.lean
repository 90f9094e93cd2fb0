import CFlat.SecureWorld.LoopDepth

/-!
# Slots — which loops are open, without any hash

The abstract model of the loop table: a list of slots, each with the loop it belongs to, whether it
is open, and whether it was closed since it was taken, and the nesting depth.  `slotExec` is its
machine; it decides which loop events are accepted.  `Over T ctx` says that the live records of a
context lie over the slots, and the lemmas below it that the handlers then take the branch that the
slots take.
-/

namespace CFlat
namespace SecureWorld

open Lib

/-- One slot of the loop table. -/
structure Slot where
  loopId : UInt64
  isOpen : Bool
  wasClosed : Bool
  deriving DecidableEq, Repr

namespace Slot

def isFreeOf (loopId : UInt64) (slot : Slot) : Bool := slot.loopId == loopId && !slot.isOpen

def isOpenOf (loopId : UInt64) (slot : Slot) : Bool := slot.loopId == loopId && slot.isOpen

def opened (slot : Slot) : Slot := { slot with isOpen := true }

def closed (slot : Slot) : Slot := { slot with isOpen := false, wasClosed := true }

def shut (slot : Slot) : Slot := { slot with isOpen := false }

end Slot

/-- The loop table: its slots and the nesting depth, which is counted apart from them. -/
structure SlotTable where
  slots : List Slot
  depth : Nat
  deriving DecidableEq, Repr

namespace SlotTable

def empty : SlotTable := ⟨[], 0⟩

/-- Enter a loop: reuse its first free slot, else take a new one, within depth 16 and 64 slots. -/
def enter (T : SlotTable) (loopId : UInt64) : TeeResult × SlotTable :=
  if T.depth ≥ 16 then (.overflow, T)
  else if T.slots.any (Slot.isFreeOf loopId) then
    (.success, ⟨updateFirst (Slot.isFreeOf loopId) Slot.opened T.slots, T.depth + 1⟩)
  else if T.slots.length ≥ 64 then (.overflow, T)
  else (.success, ⟨T.slots ++ [⟨loopId, true, false⟩], T.depth + 1⟩)

/-- Exit a loop: close its first open slot. -/
def exit (T : SlotTable) (loopId : UInt64) : TeeResult × SlotTable :=
  if T.depth = 0 then (.badState, T)
  else if T.slots.any (Slot.isOpenOf loopId) then
    (.success, ⟨updateFirst (Slot.isOpenOf loopId) Slot.closed T.slots, T.depth - 1⟩)
  else (.itemNotFound, T)

/-- All slots are shut without being closed, and the depth stays. -/
def finalize (T : SlotTable) : SlotTable := ⟨T.slots.map Slot.shut, T.depth⟩

end SlotTable

/-- The machine of the loop table. -/
def slotExec : Machine SlotTable Cmd TeeResult := fun T cmd =>
  match cmd with
  | .init _ => (.success, .empty)
  | .event (.loopEnter loopId) => T.enter loopId
  | .event (.loopExit loopId) => T.exit loopId
  | .finalize => (.success, T.finalize)
  | _ => (.success, T)

/-- Every slot that the commands take from an empty table is closed by a loop exit at least
once. -/
def EverySlotClosed (cmds : List Cmd) : Prop :=
  ∀ slot ∈ (slotExec.run .empty cmds).slots, slot.wasClosed = true

instance (cmds : List Cmd) : Decidable (EverySlotClosed cmds) :=
  inferInstanceAs (Decidable (∀ slot ∈ (slotExec.run .empty cmds).slots, slot.wasClosed = true))

/-- All that entering can do. -/
inductive SlotEnterCase (T : SlotTable) (loopId : UInt64) : TeeResult × SlotTable → Prop
  | refused (h : T.depth ≥ 16 ∨ T.slots.any (Slot.isFreeOf loopId) = false ∧ T.slots.length ≥ 64) :
      SlotEnterCase T loopId (.overflow, T)
  | reopens (hdeep : T.depth < 16) (hfree : T.slots.any (Slot.isFreeOf loopId) = true) :
      SlotEnterCase T loopId
        (.success, ⟨updateFirst (Slot.isFreeOf loopId) Slot.opened T.slots, T.depth + 1⟩)
  | allocates (hdeep : T.depth < 16) (hnone : T.slots.any (Slot.isFreeOf loopId) = false)
      (hroom : T.slots.length < 64) :
      SlotEnterCase T loopId (.success, ⟨T.slots ++ [⟨loopId, true, false⟩], T.depth + 1⟩)

/-- All that exiting can do. -/
inductive SlotExitCase (T : SlotTable) (loopId : UInt64) : TeeResult × SlotTable → Prop
  | underflow (h : T.depth = 0) : SlotExitCase T loopId (.badState, T)
  | notFound (hdepth : 0 < T.depth) (hnone : T.slots.any (Slot.isOpenOf loopId) = false) :
      SlotExitCase T loopId (.itemNotFound, T)
  | closes (hdepth : 0 < T.depth) (hmatch : T.slots.any (Slot.isOpenOf loopId) = true) :
      SlotExitCase T loopId
        (.success, ⟨updateFirst (Slot.isOpenOf loopId) Slot.closed T.slots, T.depth - 1⟩)

theorem slotEnter_case (T : SlotTable) (loopId : UInt64) :
    SlotEnterCase T loopId (T.enter loopId) := by
  by_cases hdeep : T.depth ≥ 16
  · simp only [SlotTable.enter, hdeep, if_true]
    exact .refused (Or.inl hdeep)
  · cases hfree : T.slots.any (Slot.isFreeOf loopId) with
    | true =>
        simp only [SlotTable.enter, hdeep, hfree, if_true, if_false]
        exact .reopens (by omega) hfree
    | false =>
        by_cases hfull : T.slots.length ≥ 64
        · simp only [SlotTable.enter, hdeep, hfree, hfull, if_true, if_false, Bool.false_eq_true]
          exact .refused (Or.inr ⟨hfree, hfull⟩)
        · simp only [SlotTable.enter, hdeep, hfree, hfull, if_false, Bool.false_eq_true]
          exact .allocates (by omega) hfree (by omega)

theorem slotExit_case (T : SlotTable) (loopId : UInt64) :
    SlotExitCase T loopId (T.exit loopId) := by
  by_cases hdepth : T.depth = 0
  · simp only [SlotTable.exit, hdepth, if_true]
    exact .underflow hdepth
  · cases hmatch : T.slots.any (Slot.isOpenOf loopId) with
    | true =>
        simp only [SlotTable.exit, hdepth, hmatch, if_true, if_false]
        exact .closes (by omega) hmatch
    | false =>
        simp only [SlotTable.exit, hdepth, hmatch, if_false, Bool.false_eq_true]
        exact .notFound (by omega) hmatch

/-! ## A context over slots -/

variable {D : Type} {H : Sha256 D}

/-- The live records of a context lie over the slots, at the same depth. -/
structure Over (T : SlotTable) (ctx : SessionCtx D) : Prop where
  slots : ctx.live.map (fun rec => (rec.loopId, rec.isActive)) =
    T.slots.map (fun slot => (slot.loopId, slot.isOpen))
  depth : ctx.loopDepth = T.depth

section Over

variable {T : SlotTable} {ctx : SessionCtx D} (hover : Over T ctx)
include hover

theorem Over.any (q : UInt64 × Bool → Bool) :
    ctx.live.any (fun rec => q (rec.loopId, rec.isActive)) =
      T.slots.any (fun slot => q (slot.loopId, slot.isOpen)) := by
  have h := congrArg (List.any · q) hover.slots
  simpa [List.any_map, Function.comp_def] using h

theorem Over.any_isInactiveOf (loopId : UInt64) :
    ctx.live.any (isInactiveOf loopId) = T.slots.any (Slot.isFreeOf loopId) :=
  hover.any (fun k => k.1 == loopId && !k.2)

theorem Over.any_isActiveOf (loopId : UInt64) :
    ctx.live.any (isActiveOf loopId) = T.slots.any (Slot.isOpenOf loopId) :=
  hover.any (fun k => k.1 == loopId && k.2)

variable (hwf : WellFormed ctx) {loopId : UInt64}
include hwf

theorem Over.loopCount : ctx.loopCount = T.slots.length := by
  have hlen : ctx.live.length = T.slots.length := by
    simpa using congrArg List.length hover.slots
  rw [← length_live hwf, hlen]

theorem Over.enterRefused_iff :
    EnterRefused ctx loopId ↔
      T.depth ≥ 16 ∨ T.slots.any (Slot.isFreeOf loopId) = false ∧ T.slots.length ≥ 64 := by
  have hany := hover.any_isInactiveOf loopId
  unfold EnterRefused
  rw [hover.depth, hover.loopCount hwf, ← hany]
  simp only [maxLoopDepth, maxLoopRecords, List.any_eq_false, Bool.not_eq_true]
  norm_cast

theorem Over.enter_refused
    (h : T.depth ≥ 16 ∨ T.slots.any (Slot.isFreeOf loopId) = false ∧ T.slots.length ≥ 64) :
    cmdLoopEnter H ctx loopId = (.overflow, ctx) := by
  have hcase := cmdLoopEnter_case (H := H) hwf loopId
  have hrefused := (hover.enterRefused_iff hwf).2 h
  generalize cmdLoopEnter H ctx loopId = out at hcase ⊢
  cases hcase with
  | refused => rfl
  | reopens h => exact absurd hrefused h.not_refused
  | allocates h => exact absurd hrefused h.not_refused

theorem Over.enter_reopens (hdeep : T.depth < 16)
    (hfree : T.slots.any (Slot.isFreeOf loopId) = true) :
    ∃ i ctx', cmdLoopEnter H ctx loopId = (.success, ctx') ∧ Reopens H ctx loopId i ctx' := by
  have hcase := cmdLoopEnter_case (H := H) hwf loopId
  have hany := hover.any_isInactiveOf loopId
  generalize cmdLoopEnter H ctx loopId = out at hcase ⊢
  cases hcase with
  | refused h =>
      rw [hover.enterRefused_iff hwf, hfree] at h
      rcases h with h | ⟨h, _⟩
      · omega
      · cases h
  | reopens h => exact ⟨_, _, rfl, h⟩
  | allocates h =>
      rw [hfree] at hany
      rcases List.any_eq_true.1 hany with ⟨rec, hrec, hmatch⟩
      -- A free slot is an inactive record, which would have been reopened.
      simp [h.none_inactive rec hrec] at hmatch

theorem Over.enter_allocates (hdeep : T.depth < 16)
    (hnone : T.slots.any (Slot.isFreeOf loopId) = false) (hroom : T.slots.length < 64) :
    ∃ stale ctx', cmdLoopEnter H ctx loopId = (.success, ctx') ∧
      Allocates H ctx loopId stale ctx' := by
  have hcase := cmdLoopEnter_case (H := H) hwf loopId
  have hany := hover.any_isInactiveOf loopId
  generalize cmdLoopEnter H ctx loopId = out at hcase ⊢
  cases hcase with
  | refused h =>
      rw [hover.enterRefused_iff hwf] at h
      omega
  | reopens h =>
      rw [hnone] at hany
      rcases h.mem_inactive with ⟨rec, hrec, hmatch⟩
      exact absurd hmatch (List.any_eq_false.1 hany rec hrec)
  | allocates h => exact ⟨_, _, rfl, h⟩

omit hwf in
theorem Over.exit_underflow (h : T.depth = 0) : cmdLoopExit ctx loopId = (.badState, ctx) := by
  have hdepth := hover.depth
  simp [cmdLoopExit, hdepth, h]

omit hwf in
theorem Over.exit_notFound (hpos : 0 < T.depth)
    (hnone : T.slots.any (Slot.isOpenOf loopId) = false) :
    cmdLoopExit ctx loopId = (.itemNotFound, ctx) := by
  have hcase := cmdLoopExit_case ctx loopId
  have hdepth := hover.depth
  have hany := hover.any_isActiveOf loopId
  generalize cmdLoopExit ctx loopId = out at hcase ⊢
  cases hcase with
  | underflow h => omega
  | notFound => rfl
  | closes h =>
      rw [hnone] at hany
      rcases h.mem_active with ⟨rec, hrec, hmatch⟩
      exact absurd hmatch (List.any_eq_false.1 hany rec hrec)

omit hwf in
theorem Over.exit_closes (hpos : 0 < T.depth)
    (hmatch : T.slots.any (Slot.isOpenOf loopId) = true) :
    ∃ i rec ctx', cmdLoopExit ctx loopId = (.success, ctx') ∧ Closes ctx loopId i rec ctx' := by
  have hcase := cmdLoopExit_case ctx loopId
  have hdepth := hover.depth
  have hany := hover.any_isActiveOf loopId
  generalize cmdLoopExit ctx loopId = out at hcase ⊢
  cases hcase with
  | underflow h => omega
  | notFound _ h =>
      rw [hmatch] at hany
      rcases List.any_eq_true.1 hany with ⟨rec, hrec, hactive⟩
      simp [h rec hrec] at hactive
  | closes h => exact ⟨_, _, _, rfl, h⟩

end Over

/-! ## Well-nested events close every slot -/

namespace SlotTable

/-- The number of open slots of a loop. -/
def openOf (T : SlotTable) (loopId : UInt64) : Nat := T.slots.countP (Slot.isOpenOf loopId)

/-- The depth counts the open slots, and every slot is open or was closed. -/
structure Sound (T : SlotTable) : Prop where
  depth : T.depth = T.slots.countP (·.isOpen)
  closed : ∀ slot ∈ T.slots, slot.isOpen = true ∨ slot.wasClosed = true

theorem sound_empty : Sound empty := ⟨rfl, fun slot h => by simp [empty] at h⟩

theorem Sound.openOf_pos {T : SlotTable} (h : T.Sound) {loopId : UInt64}
    (hpos : 0 < T.openOf loopId) :
    0 < T.depth ∧ T.slots.any (Slot.isOpenOf loopId) = true := by
  rcases List.countP_pos_iff.1 hpos with ⟨slot, hslot, hopen⟩
  refine ⟨?_, List.any_eq_true.2 ⟨slot, hslot, hopen⟩⟩
  rw [h.depth]
  exact List.countP_pos_iff.2 ⟨slot, hslot, (Bool.and_eq_true_iff.1 hopen).2⟩

theorem sound_enter {T : SlotTable} (h : T.Sound) (loopId : UInt64) : (T.enter loopId).2.Sound := by
  have hcase := slotEnter_case T loopId
  generalize T.enter loopId = out at hcase ⊢
  cases hcase with
  | refused => exact h
  | reopens _ hfree =>
      constructor
      · rw [h.depth]
        refine (countP_updateFirst_of_enters ?_ (List.any_eq_true.1 hfree)).symm
        intro slot _ htest
        have hshut : slot.isOpen = false := by simpa using (Bool.and_eq_true_iff.1 htest).2
        exact ⟨hshut, rfl⟩
      · intro slot hslot
        rcases mem_updateFirst hslot with hold | ⟨slot₀, _, _, rfl⟩
        · exact h.closed slot hold
        · exact Or.inl rfl
  | allocates =>
      constructor
      · simp [h.depth]
      · intro slot hslot
        rcases List.mem_append.1 hslot with hold | hnew
        · exact h.closed slot hold
        · rw [List.mem_singleton.1 hnew]
          exact Or.inl rfl

theorem sound_exit {T : SlotTable} (h : T.Sound) (loopId : UInt64) : (T.exit loopId).2.Sound := by
  have hcase := slotExit_case T loopId
  generalize T.exit loopId = out at hcase ⊢
  cases hcase with
  | underflow => exact h
  | notFound => exact h
  | closes _ hmatch =>
      constructor
      · have hcount :
            (updateFirst (Slot.isOpenOf loopId) Slot.closed T.slots).countP (·.isOpen) + 1 =
              T.slots.countP (·.isOpen) :=
          countP_updateFirst_of_leaves
            (fun slot _ htest => ⟨(Bool.and_eq_true_iff.1 htest).2, rfl⟩)
            (List.any_eq_true.1 hmatch)
        have hdepth := h.depth
        simp only
        omega
      · intro slot hslot
        rcases mem_updateFirst hslot with hold | ⟨slot₀, _, _, rfl⟩
        · exact h.closed slot hold
        · exact Or.inr rfl

theorem openOf_enter_le (T : SlotTable) (loopId loopId' : UInt64) :
    (T.enter loopId).2.openOf loopId' ≤
      T.openOf loopId' + if loopId' = loopId then 1 else 0 := by
  have hcase := slotEnter_case T loopId
  generalize T.enter loopId = out at hcase ⊢
  cases hcase with
  | refused => exact Nat.le_add_right _ _
  | reopens _ hfree =>
      by_cases hid : loopId' = loopId
      · subst hid
        rw [if_pos rfl]
        refine Nat.le_of_eq (countP_updateFirst_of_enters ?_ (List.any_eq_true.1 hfree))
        intro slot _ htest
        rcases Bool.and_eq_true_iff.1 htest with ⟨hof, hshut⟩
        simp only [Bool.not_eq_true'] at hshut
        simp [Slot.isOpenOf, Slot.opened, hof, hshut]
      · rw [if_neg hid]
        refine Nat.le_of_eq (countP_updateFirst_of_invariant ?_)
        intro slot _ htest
        have hne : slot.loopId ≠ loopId' := by
          rw [(eq_of_beq (Bool.and_eq_true_iff.1 htest).1 : slot.loopId = loopId)]
          exact fun h => hid h.symm
        simp [Slot.isOpenOf, Slot.opened, hne]
  | allocates =>
      by_cases hid : loopId' = loopId
      · simp [openOf, Slot.isOpenOf, hid]
      · have hid' : ¬ loopId = loopId' := fun h => hid h.symm
        simp [openOf, Slot.isOpenOf, hid, hid']

theorem openOf_exit_le {T : SlotTable} (h : T.Sound) (loopId loopId' : UInt64) :
    (T.exit loopId).2.openOf loopId' ≤
      T.openOf loopId' - if loopId' = loopId then 1 else 0 := by
  have hpos : 0 < T.openOf loopId → _ := h.openOf_pos
  have hcase := slotExit_case T loopId
  generalize T.exit loopId = out at hcase ⊢
  cases hcase with
  | underflow hzero =>
      split
      · subst loopId'
        simp only
        omega
      · exact Nat.le_refl _
  | notFound _ hnone =>
      rw [hnone] at hpos
      split
      · subst loopId'
        simp only [Bool.false_eq_true, and_false, imp_false] at hpos ⊢
        omega
      · exact Nat.le_refl _
  | closes _ hmatch =>
      by_cases hid : loopId' = loopId
      · subst hid
        rw [if_pos rfl]
        have hcount := countP_updateFirst_of_leaves (q := Slot.isOpenOf loopId') (f := Slot.closed)
          (fun slot _ htest => ⟨htest, by simp [Slot.isOpenOf, Slot.closed]⟩)
          (List.any_eq_true.1 hmatch)
        simp only [openOf]
        omega
      · rw [if_neg hid]
        refine Nat.le_of_eq (countP_updateFirst_of_invariant ?_)
        intro slot _ htest
        have hne : slot.loopId ≠ loopId' := by
          rw [(eq_of_beq (Bool.and_eq_true_iff.1 htest).1 : slot.loopId = loopId)]
          exact fun h => hid h.symm
        simp [Slot.isOpenOf, Slot.closed, hne]

/-- A well-nested stretch, with entries refused or not, leaves no more slots open than it found.
The induction is on the trace; at a loop the exit makes up for the entry. -/
theorem wellNested_run (t : Trace) : ∀ {T : SlotTable}, T.Sound →
    (slotExec.run T (t.events.map .event)).Sound ∧
      ∀ loopId, (slotExec.run T (t.events.map .event)).openOf loopId ≤ T.openOf loopId := by
  induction t with
  | nil =>
      intro T h
      exact ⟨h, fun _ => Nat.le_refl _⟩
  | leaf a rest ih =>
      intro T h
      have hstay : (slotExec T (.event a.toEvent)).2 = T := by cases a <;> rfl
      rw [Trace.events_leaf, List.map_cons, Machine.run_cons, hstay]
      exact ih h
  | loop loopId body rest ihb ihr =>
      intro T h
      rcases ihb (sound_enter h loopId) with ⟨hsound₁, hle₁⟩
      have hsound₂ := sound_exit hsound₁ loopId
      rcases ihr hsound₂ with ⟨hsound₃, hle₃⟩
      simp only [Trace.events_loop, List.map_cons, List.map_append, Machine.run_cons,
        Machine.run_append]
      refine ⟨hsound₃, ?_⟩
      intro loopId'
      -- The exit takes back what the entry added.
      have henter := openOf_enter_le T loopId loopId'
      have hbody := hle₁ loopId'
      have hexit := openOf_exit_le hsound₁ loopId loopId'
      have hrest := hle₃ loopId'
      refine Nat.le_trans hrest (Nat.le_trans hexit ?_)
      split at henter <;> split <;> omega

end SlotTable

/-- Well-nested events close every slot they take. -/
theorem everySlotClosed_of_wellNested {es : List Event} (h : WellNested es) :
    EverySlotClosed (es.map .event) := by
  rcases h with ⟨t, rfl⟩
  rcases SlotTable.wellNested_run t SlotTable.sound_empty with ⟨hsound, hle⟩
  intro slot hslot
  rcases hsound.closed slot hslot with hopen | hclosed
  -- An open slot at the end would be one more than at the start.
  · have hpos : 0 < (slotExec.run .empty (t.events.map .event)).openOf slot.loopId :=
      List.countP_pos_iff.2 ⟨slot, hslot, by simp [Slot.isOpenOf, hopen]⟩
    have hzero := hle slot.loopId
    simp only [SlotTable.openOf, SlotTable.empty, List.countP_nil] at hzero hpos
    omega
  · exact hclosed

end SecureWorld
end CFlat
