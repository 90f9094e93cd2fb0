import CFlat.SecureWorld.Isolation

/-!
# Bracketing — a loop entered while it is active

With re-entrance several live records carry one loop id.  `cmd_loop_enter` opens the first inactive
one, `cmd_loop_iteration` counts for the last active one and `cmd_loop_exit` closes the first
active one.  Below any index of the table the active records of a loop behave like a counter that
saturates at the number of records of the loop there; a well-nested sequence that enters the loop
`d` times inside itself lowers it by what exceeds the saturation minus `d` (`Stretch.below`).  So
the exit of a loop closes the record of its own entry exactly when the sequence in between nests
the loop as deep as there were active records before the first inactive one.
-/

namespace CFlat
namespace SecureWorld

open Lib

variable {D : Type} {H : Sha256 D}

/-! ## Counting records below an index -/

/-- A live record belongs to the loop. -/
def isOf (loopId : UInt64) (rec : LoopRecord D) : Bool := rec.loopId == loopId

namespace SessionCtx

/-- The number of live records of a loop below an index. -/
def recordsBelow (ctx : SessionCtx D) (loopId : UInt64) (i : Nat) : Nat :=
  countBelow (isOf loopId) i ctx.live

/-- The number of active records of a loop below an index. -/
def activeBelow (ctx : SessionCtx D) (loopId : UInt64) (i : Nat) : Nat :=
  countBelow (isActiveOf loopId) i ctx.live

theorem activeBelow_le (ctx : SessionCtx D) (loopId : UInt64) (i : Nat) :
    ctx.activeBelow loopId i ≤ ctx.recordsBelow loopId i :=
  countBelow_le (fun _ h => (Bool.and_eq_true_iff.1 h).1) i ctx.live

end SessionCtx

/-- What the handlers read of a record, without its hashes of the loop and its counts. -/
def LoopRecord.view (rec : LoopRecord D) : UInt64 × Bool × D :=
  (rec.loopId, rec.isActive, rec.preLoopHash)

/-- No loop entry of the run is refused. -/
def NoneRefused (H : Sha256 D) (ctx : SessionCtx D) (es : List Event) : Prop :=
  Machine.StepsMeet (handle H)
    (fun ctx e => ∀ loopId, e = .loopEnter loopId → ¬ EnterRefused ctx loopId) ctx es

/-! ## What a well-nested stretch does -/

/-- Between `ctx` and `ctx'` every loop has been left as often as it has been entered, and no more
than `depths loopId` times at once. -/
structure Stretch (ctx ctx' : SessionCtx D) (depths : UInt64 → Nat) : Prop where
  measuring : Measuring ctx'
  activeOf : ∀ loopId, ctx'.activeOf loopId = ctx.activeOf loopId
  length : ctx.live.length ≤ ctx'.live.length
  records : ∀ loopId i, i ≤ ctx.live.length →
    ctx'.recordsBelow loopId i = ctx.recordsBelow loopId i
  below : ∀ loopId i, i ≤ ctx.live.length → ctx'.activeBelow loopId i =
    min (ctx.activeBelow loopId i) (ctx.recordsBelow loopId i - depths loopId)
  kept : ∀ {i : Nat} {rec : LoopRecord D}, ctx.live[i]? = some rec → rec.isActive = true →
    depths rec.loopId ≤ ctx.recordsBelow rec.loopId i →
      ∃ rec', ctx'.live[i]? = some rec' ∧ rec'.view = rec.view

theorem Stretch.of_view {ctx ctx' : SessionCtx D} (hm : Measuring ctx')
    (h : ctx'.live.map LoopRecord.view = ctx.live.map LoopRecord.view) :
    Stretch ctx ctx' (fun _ => 0) where
  measuring := hm
  activeOf := by
    intro loopId
    have hcount := congrArg (List.countP fun v => v.1 == loopId && v.2.1) h
    rw [List.countP_map, List.countP_map] at hcount
    exact hcount
  length := by
    have hlen := congrArg List.length h
    simp only [List.length_map] at hlen
    omega
  records := fun loopId i _ =>
    countBelow_congr_of_map (q := fun v : UInt64 × Bool × D => v.1 == loopId) h i
  below := by
    intro loopId i _
    have hle := ctx.activeBelow_le loopId i
    have hsame : ctx'.activeBelow loopId i = ctx.activeBelow loopId i :=
      countBelow_congr_of_map (q := fun v : UInt64 × Bool × D => v.1 == loopId && v.2.1) h i
    omega
  kept := by
    intro i rec hrec _ _
    have hview := congrArg (·[i]?) h
    simp only [List.getElem?_map, hrec, Option.map_some, Option.map_eq_some_iff] at hview
    exact hview

theorem Stretch.trans {c₁ c₂ c₃ : SessionCtx D} {depths₁ depths₂ : UInt64 → Nat}
    (h₁ : Stretch c₁ c₂ depths₁) (h₂ : Stretch c₂ c₃ depths₂) :
    Stretch c₁ c₃ (fun loopId => max (depths₁ loopId) (depths₂ loopId)) where
  measuring := h₂.measuring
  activeOf := fun loopId => (h₂.activeOf loopId).trans (h₁.activeOf loopId)
  length := Nat.le_trans h₁.length h₂.length
  records := fun loopId i hi =>
    (h₂.records loopId i (Nat.le_trans hi h₁.length)).trans (h₁.records loopId i hi)
  below := by
    intro loopId i hi
    rw [h₂.below loopId i (Nat.le_trans hi h₁.length), h₁.below loopId i hi, h₁.records loopId i hi]
    omega
  kept := by
    intro i rec hrec hactive hdepth
    have hi : i ≤ c₁.live.length := by
      have := (List.getElem?_eq_some_iff.1 hrec).1
      omega
    rcases h₁.kept hrec hactive (by omega) with ⟨rec₂, hrec₂, hview₂⟩
    simp only [LoopRecord.view, Prod.mk.injEq] at hview₂
    obtain ⟨rec₃, hrec₃, hview₃⟩ := h₂.kept hrec₂ (hview₂.2.1.trans hactive)
      (by rw [hview₂.1, h₁.records _ i hi]; omega)
    refine ⟨rec₃, hrec₃, hview₃.trans ?_⟩
    simp only [LoopRecord.view, Prod.mk.injEq]
    exact hview₂

/-! ## Entering and leaving -/

/-- The index of the record that `cmd_loop_enter` opens. -/
def enterIndex (ctx : SessionCtx D) (loopId : UInt64) : Nat :=
  (ctx.live.findIdx? (isInactiveOf loopId)).getD ctx.live.length

/-- The index of the record that `cmd_loop_exit` closes. -/
def exitIndex? (ctx : SessionCtx D) (loopId : UInt64) : Option Nat :=
  ctx.live.findIdx? (isActiveOf loopId)

/-- The number of records of a loop that are active before its first inactive one. -/
def leadingActive (ctx : SessionCtx D) (loopId : UInt64) : Nat :=
  ((ctx.live.filter (isOf loopId)).takeWhile (·.isActive)).length

theorem below_enterIndex (ctx : SessionCtx D) (loopId : UInt64) :
    ctx.recordsBelow loopId (enterIndex ctx loopId) = leadingActive ctx loopId ∧
      ctx.activeBelow loopId (enterIndex ctx loopId) = leadingActive ctx loopId :=
  countBelow_findIdx?_not (isOf loopId) (·.isActive) ctx.live

theorem enterIndex_le (ctx : SessionCtx D) (loopId : UInt64) :
    enterIndex ctx loopId ≤ ctx.live.length := by
  cases hidx : ctx.live.findIdx? (isInactiveOf loopId) with
  | none => simp [enterIndex, hidx]
  | some i =>
      have hlt := (List.findIdx?_eq_some_iff_getElem.1 hidx).1
      simp only [enterIndex, hidx, Option.getD_some]
      omega

/-- What an accepted entry does to the counts and to the active records. -/
structure Opens (ctx ctx' : SessionCtx D) (loopId : UInt64) : Prop where
  activeOf : ∀ loopId', ctx'.activeOf loopId' =
    ctx.activeOf loopId' + if loopId' = loopId then 1 else 0
  length : ctx.live.length ≤ ctx'.live.length
  records : ∀ loopId' i, i ≤ ctx.live.length →
    ctx'.recordsBelow loopId' i = ctx.recordsBelow loopId' i
  below : ∀ loopId' i, i ≤ ctx.live.length → ctx'.activeBelow loopId' i =
    if loopId' = loopId then min (ctx.activeBelow loopId i + 1) (ctx.recordsBelow loopId i)
    else ctx.activeBelow loopId' i
  kept : ∀ {i : Nat} {rec : LoopRecord D}, ctx.live[i]? = some rec → rec.isActive = true →
    ctx'.live[i]? = some rec
  opened : ∃ rec, ctx'.live[enterIndex ctx loopId]? = some rec ∧
    rec.view = (loopId, true, ctx.currentHash)

theorem opens_of_reopens {ctx ctx' : SessionCtx D} {loopId : UInt64} {i : Nat}
    (h : Reopens H ctx loopId i ctx') : Opens ctx ctx' loopId := by
  have hother : ∀ loopId' : UInt64, loopId' ≠ loopId → ∀ rec : LoopRecord D,
      isInactiveOf loopId rec = true →
        isActiveOf loopId' (rec.opened ctx.currentHash) = isActiveOf loopId' rec := by
    intro loopId' hne rec hrec
    have hid : rec.loopId ≠ loopId' := by
      rw [loopId_of_isInactiveOf rec hrec]
      exact hne.symm
    simp [isActiveOf, LoopRecord.opened, hid]
  refine ⟨?_, ?_, ?_, ?_, ?_, ?_⟩
  · intro loopId'
    unfold SessionCtx.activeOf
    rw [h.live]
    by_cases hid : loopId' = loopId
    · subst hid
      rw [if_pos rfl]
      apply countP_updateFirst_of_enters
      · intro rec _ hrec
        simp [isActiveOf, LoopRecord.opened, isActive_of_isInactiveOf hrec,
          loopId_of_isInactiveOf rec hrec]
      · exact h.mem_inactive
    · rw [if_neg hid]
      exact countP_updateFirst_of_invariant (fun rec _ hrec => hother loopId' hid rec hrec)
  · exact Nat.le_of_eq (by rw [h.live, length_updateFirst])
  · intro loopId' i _
    unfold SessionCtx.recordsBelow
    rw [h.live]
    apply countBelow_updateFirst_of_invariant
    exact fun _ _ => rfl
  · intro loopId' i _
    unfold SessionCtx.activeBelow
    rw [h.live]
    by_cases hid : loopId' = loopId
    · subst hid
      rw [if_pos rfl]
      apply countBelow_openFirst (k := isOf loopId') (o := LoopRecord.isActive)
      exact fun _ hk => ⟨hk, rfl⟩
    · rw [if_neg hid]
      exact countBelow_updateFirst_of_invariant (hother loopId' hid) i _
  · intro i rec hrec hactive
    rw [h.live]
    exact getElem?_updateFirst hrec (Or.inl (by simp [isInactiveOf, hactive]))
  · rcases List.findIdx?_eq_some_iff_getElem.1 h.index with ⟨hi, hmatch, _⟩
    have hid := loopId_of_isInactiveOf _ hmatch
    refine ⟨ctx.live[i].opened ctx.currentHash, ?_, ?_⟩
    · rw [h.live, ← modify_of_findIdx? h.index, enterIndex, h.index, Option.getD_some,
        List.getElem?_modify_eq, List.getElem?_eq_getElem hi]
      rfl
    · simp [LoopRecord.view, LoopRecord.opened, hid]

theorem opens_of_allocates {ctx ctx' : SessionCtx D} {loopId : UInt64} {stale : LoopRecord D}
    (h : Allocates H ctx loopId stale ctx') : Opens ctx ctx' loopId := by
  have hindex : enterIndex ctx loopId = ctx.live.length := by
    rw [enterIndex, List.findIdx?_eq_none_iff.2 h.none_inactive, Option.getD_none]
  refine ⟨?_, ?_, ?_, ?_, ?_, ?_⟩
  · intro loopId'
    unfold SessionCtx.activeOf
    rw [h.live, List.countP_append, List.countP_singleton]
    by_cases hid : loopId' = loopId
    · simp [hid, isActiveOf, LoopRecord.opened, LoopRecord.recycled]
    · have hid' : ¬ loopId = loopId' := fun heq => hid heq.symm
      simp [hid, hid', isActiveOf, LoopRecord.opened, LoopRecord.recycled]
  · rw [h.live, List.length_append]
    omega
  · intro loopId' i hi
    unfold SessionCtx.recordsBelow
    rw [h.live, countBelow_append_of_le hi]
  · intro loopId' i hi
    -- The new record stands behind every index below the old length.
    have hsame : ctx'.activeBelow loopId' i = ctx.activeBelow loopId' i := by
      unfold SessionCtx.activeBelow
      rw [h.live, countBelow_append_of_le hi]
    rw [hsame]
    by_cases hid : loopId' = loopId
    · subst hid
      -- No record of the loop is inactive, so below any index all of them are active.
      have hle := ctx.activeBelow_le loopId' i
      have hfull : ctx.activeBelow loopId' i = ctx.recordsBelow loopId' i := by
        apply List.countP_congr
        intro rec hrec
        have hbusy := h.none_inactive rec (List.mem_of_mem_take hrec)
        cases hof : rec.loopId == loopId' <;> cases hon : rec.isActive <;>
          simp [isInactiveOf, isActiveOf, isOf, hof, hon] at hbusy ⊢
      rw [if_pos rfl]
      omega
    · rw [if_neg hid]
  · intro i rec hrec _
    rw [h.live]
    exact List.getElem?_append_left (List.getElem?_eq_some_iff.1 hrec).1 ▸ hrec
  · refine ⟨(stale.recycled loopId ctx.loopDepth).opened ctx.currentHash, ?_, rfl⟩
    rw [h.live, hindex]
    simp

theorem opens_of_not_refused {ctx : SessionCtx D} {loopId : UInt64} (hm : Measuring ctx)
    (hroom : ¬ EnterRefused ctx loopId) :
    ∃ ctx', cmdLoopEnter H ctx loopId = (.success, ctx') ∧ Opens ctx ctx' loopId := by
  have hcase := cmdLoopEnter_case (H := H) hm.wellFormed loopId
  generalize cmdLoopEnter H ctx loopId = out at hcase ⊢
  cases hcase with
  | refused h => exact absurd h hroom
  | reopens h => exact ⟨_, rfl, opens_of_reopens h⟩
  | allocates h => exact ⟨_, rfl, opens_of_allocates h⟩

/-- Accepted or not, an exit closes the first active record of its loop if there is one. -/
theorem live_exit {ctx : SessionCtx D} (hm : Measuring ctx) (loopId : UInt64) :
    (cmdLoopExit ctx loopId).2.live =
      updateFirst (isActiveOf loopId) (LoopRecord.closed ctx.currentHash) ctx.live := by
  have hcase := cmdLoopExit_case ctx loopId
  generalize cmdLoopExit ctx loopId = out at hcase ⊢
  cases hcase with
  | underflow h =>
      -- At depth zero no record is active.
      have hexact := hm.exact
      have hnone : ctx.live.countP (·.isActive) = 0 := by
        simp only [SessionCtx.activeCount] at hexact
        omega
      refine (updateFirst_eq_self ?_).symm
      intro rec hrec
      have hoff := List.countP_eq_zero.1 hnone rec hrec
      simp [isActiveOf, hoff]
  | notFound _ h => exact (updateFirst_eq_self h).symm
  | closes h => exact h.live

/-- What an exit does to the counts and to the active records. -/
structure Leaves (ctx ctx' : SessionCtx D) (loopId : UInt64) : Prop where
  length : ctx'.live.length = ctx.live.length
  activeOf : ∀ loopId', ctx'.activeOf loopId' =
    ctx.activeOf loopId' - if loopId' = loopId then 1 else 0
  records : ∀ loopId' i, ctx'.recordsBelow loopId' i = ctx.recordsBelow loopId' i
  below : ∀ loopId' i, ctx'.activeBelow loopId' i =
    if loopId' = loopId then ctx.activeBelow loopId i - 1 else ctx.activeBelow loopId' i
  kept : ∀ {i : Nat} {rec : LoopRecord D}, ctx.live[i]? = some rec →
    rec.loopId ≠ loopId ∨ 0 < ctx.activeBelow loopId i → ctx'.live[i]? = some rec

theorem leaves_exit {ctx : SessionCtx D} (hm : Measuring ctx) (loopId : UInt64) :
    Leaves ctx (cmdLoopExit ctx loopId).2 loopId := by
  have hlive := live_exit hm loopId
  have hother : ∀ loopId' : UInt64, loopId' ≠ loopId → ∀ rec : LoopRecord D,
      isActiveOf loopId rec = true →
        isActiveOf loopId' (rec.closed ctx.currentHash) = isActiveOf loopId' rec := by
    intro loopId' hne rec hrec
    have hid : rec.loopId ≠ loopId' := by
      rw [loopId_of_isActiveOf rec hrec]
      exact hne.symm
    simp [isActiveOf, LoopRecord.closed, hid]
  have hbelow : ∀ loopId' i, (cmdLoopExit ctx loopId).2.activeBelow loopId' i =
      if loopId' = loopId then ctx.activeBelow loopId i - 1 else ctx.activeBelow loopId' i := by
    intro loopId' i
    unfold SessionCtx.activeBelow
    rw [hlive]
    by_cases hid : loopId' = loopId
    · subst hid
      rw [if_pos rfl]
      apply countBelow_closeFirst (k := isOf loopId') (o := LoopRecord.isActive)
      exact fun _ => rfl
    · rw [if_neg hid]
      exact countBelow_updateFirst_of_invariant (hother loopId' hid) i _
  have hlen : (cmdLoopExit ctx loopId).2.live.length = ctx.live.length := by
    rw [hlive, length_updateFirst]
  -- All active records are those below the end of the table.
  have hall : ∀ (c : SessionCtx D) loopId', c.activeOf loopId' =
      c.activeBelow loopId' c.live.length := by
    intro c loopId'
    simp [SessionCtx.activeOf, SessionCtx.activeBelow, countBelow]
  refine ⟨hlen, ?_, ?_, hbelow, ?_⟩
  · intro loopId'
    rw [hall, hall, hlen, hbelow]
    by_cases hid : loopId' = loopId
    · simp [hid]
    · simp [hid]
  · intro loopId' i
    unfold SessionCtx.recordsBelow
    rw [hlive]
    apply countBelow_updateFirst_of_invariant
    exact fun _ _ => rfl
  · intro i rec hrec hsafe
    rw [hlive]
    -- The exit closes a record of another loop, or one further down.
    refine getElem?_updateFirst hrec ?_
    rcases hsafe with hne | hpos
    · left
      simp [isActiveOf, hne]
    · exact Or.inr hpos

theorem exit_of_activeOf_pos {ctx : SessionCtx D} {loopId : UInt64} (hm : Measuring ctx)
    (hpos : 0 < ctx.activeOf loopId) :
    ∃ i rec ctx', cmdLoopExit ctx loopId = (.success, ctx') ∧ Closes ctx loopId i rec ctx' := by
  rcases List.countP_pos_iff.1 hpos with ⟨rec, hrec, hactive⟩
  have hcase := cmdLoopExit_case ctx loopId
  generalize cmdLoopExit ctx loopId = out at hcase ⊢
  cases hcase with
  | underflow h =>
      have hcount := activeCount_pos hrec (isActive_of_isActiveOf hactive)
      have hexact := hm.exact
      omega
  | notFound _ h => simp [h rec hrec] at hactive
  | closes h => exact ⟨_, _, _, rfl, h⟩

/-! ## Whole stretches -/

theorem stretch_loop {ctx c₁ c₂ c₃ : SessionCtx D} {loopId : UInt64} {depths : UInt64 → Nat}
    (hopen : Opens ctx c₁ loopId) (hbody : Stretch c₁ c₂ depths) (hleave : Leaves c₂ c₃ loopId)
    (hm : Measuring c₃) :
    Stretch ctx c₃ (fun loopId' =>
      if loopId = loopId' then depths loopId' + 1 else depths loopId') where
  measuring := hm
  activeOf := by
    intro loopId'
    calc
      c₃.activeOf loopId' = c₂.activeOf loopId' - if loopId' = loopId then 1 else 0 :=
            hleave.activeOf loopId'
      _ = c₁.activeOf loopId' - if loopId' = loopId then 1 else 0 := by rw [hbody.activeOf]
      _ = ctx.activeOf loopId' := by rw [hopen.activeOf, Nat.add_sub_cancel]
  length := by
    rw [hleave.length]
    exact Nat.le_trans hopen.length hbody.length
  records := by
    intro loopId' i hi
    calc
      c₃.recordsBelow loopId' i = c₂.recordsBelow loopId' i := hleave.records loopId' i
      _ = c₁.recordsBelow loopId' i := hbody.records loopId' i (Nat.le_trans hi hopen.length)
      _ = ctx.recordsBelow loopId' i := hopen.records loopId' i hi
  below := by
    intro loopId' i hi
    have hi₁ := Nat.le_trans hi hopen.length
    have hle := ctx.activeBelow_le loopId' i
    rw [hleave.below]
    by_cases hid : loopId' = loopId
    · subst hid
      rw [if_pos rfl, if_pos rfl, hbody.below _ i hi₁, hopen.below _ i hi, if_pos rfl,
        hopen.records _ i hi]
      omega
    · have hid' : ¬ loopId = loopId' := fun h => hid h.symm
      rw [if_neg hid, if_neg hid', hbody.below _ i hi₁, hopen.below _ i hi, if_neg hid,
        hopen.records _ i hi]
  kept := by
    intro i rec hrec hactive hdepth
    have hi : i ≤ ctx.live.length := Nat.le_of_lt (List.getElem?_eq_some_iff.1 hrec).1
    have hi₁ := Nat.le_trans hi hopen.length
    obtain ⟨rec₂, hrec₂, hview⟩ := hbody.kept (hopen.kept hrec hactive) hactive
      (by rw [hopen.records _ i hi]; split at hdepth <;> omega)
    refine ⟨rec₂, hleave.kept hrec₂ ?_, hview⟩
    have hid₂ : rec₂.loopId = rec.loopId := congrArg (·.1) hview
    by_cases hid : rec.loopId = loopId
    · right
      -- The body leaves an active record of the loop below this one.
      subst hid
      rw [if_pos rfl] at hdepth
      rw [hbody.below _ i hi₁, hopen.below _ i hi, if_pos rfl, hopen.records _ i hi]
      omega
    · exact Or.inl (hid₂.trans_ne hid)

theorem stretch_leaf {ctx : SessionCtx D} (hm : Measuring ctx) {a : Leaf}
    (ha : a.toEvent.isCall = false) :
    (handle H ctx a.toEvent).1 = .success ∧
      Stretch ctx (handle H ctx a.toEvent).2 (fun _ => 0) := by
  have hm' := measuring_handle (H := H) hm a.toEvent
  cases a with
  | node nodeId =>
      have hframe := tableFrame_recordNode (H := H) ctx nodeId
      exact ⟨(cmdRecordNode_of_initialized hm.initialized nodeId).1,
        Stretch.of_view hm' (congrArg _ hframe.live)⟩
  | iteration loopId =>
      have hcase := cmdLoopIteration_case ctx loopId
      simp only [Leaf.toEvent, handle] at hm' ⊢
      generalize cmdLoopIteration ctx loopId = out at hcase hm' ⊢
      cases hcase with
      | ignored => exact ⟨rfl, Stretch.of_view hm' rfl⟩
      | counts h => exact ⟨rfl, Stretch.of_view hm' (h.map_live fun _ => rfl)⟩
  | callEnter callId caller => cases ha
  | callReturn callId => cases ha

/-- The run lemma, by induction on the trace: every command is accepted, and the counts come out
as `Stretch` says. -/
theorem stretch_events (t : Trace) : ∀ {ctx : SessionCtx D}, Measuring ctx → t.CallFree →
    NoneRefused H ctx t.events →
      (∀ res ∈ Machine.replies (handle H) ctx t.events, res = .success) ∧
        Stretch ctx (Machine.run (handle H) ctx t.events) (fun loopId => t.depthOf loopId) := by
  induction t with
  | nil =>
      intro ctx hm _ _
      exact ⟨fun _ h => by simp at h, Stretch.of_view hm rfl⟩
  | leaf a rest ih =>
      intro ctx hm hcf hroom
      rcases stretch_leaf (H := H) hm (hcf a (by simp [Nest.leaves])) with ⟨hres, hleaf⟩
      obtain ⟨hreplies, hrest⟩ :=
        ih hleaf.measuring (fun b hb => hcf b (by simp [Nest.leaves, hb])) hroom.2
      refine ⟨?_, by simpa [Nest.depthOf] using hleaf.trans hrest⟩
      intro res hmem
      rcases List.mem_cons.1 hmem with rfl | hmem
      · exact hres
      · exact hreplies res hmem
  | loop loopId body rest ihb ihr =>
      intro ctx hm hcf hroom
      simp only [NoneRefused, Trace.events_loop, Machine.stepsMeet_cons,
        Machine.stepsMeet_append] at hroom
      rcases hroom with ⟨hroom_enter, hroom_body, _, hroom_rest⟩
      rcases opens_of_not_refused (H := H) hm (hroom_enter loopId rfl) with ⟨c₁, henter, hopen⟩
      have hm₁ := measuring_handle (H := H) hm (.loopEnter loopId)
      simp only [handle, henter] at hm₁ hroom_body hroom_rest
      obtain ⟨hreplies_body, hbody⟩ :=
        ihb hm₁ (fun b hb => hcf b (by simp [Nest.leaves, hb])) hroom_body
      -- The body leaves the record open, so that the exit is accepted.
      have hpos : 0 < (Machine.run (handle H) c₁ (Trace.events body)).activeOf loopId := by
        rw [hbody.activeOf, hopen.activeOf, if_pos rfl]
        omega
      rcases exit_of_activeOf_pos hbody.measuring hpos with ⟨i, rec, c₃, hexit, _⟩
      have hm₃ := measuring_handle (H := H) hbody.measuring (.loopExit loopId)
      have hleave := leaves_exit hbody.measuring loopId
      simp only [handle, hexit] at hm₃ hleave hroom_rest
      -- Entry, body and exit together are a stretch, one level deeper than the body.
      have hloop := stretch_loop hopen hbody hleave hm₃
      obtain ⟨hreplies_rest, hrest⟩ :=
        ihr hm₃ (fun b hb => hcf b (by simp [Nest.leaves, hb])) hroom_rest
      constructor
      · intro res hmem
        simp only [Trace.events_loop, Machine.replies_cons, Machine.replies_append, handle,
          henter, hexit, List.mem_cons, List.mem_append] at hmem
        rcases hmem with rfl | hmem | rfl | hmem
        · rfl
        · exact hreplies_body res hmem
        · rfl
        · exact hreplies_rest res hmem
      · simp only [Trace.events_loop, Machine.run_cons, Machine.run_append, handle, henter, hexit]
        exact hloop.trans hrest

/-- After the body of a loop, an exit closes the record of its entry exactly when the body nests the
loop as deep as there were active records before the first inactive one. -/
theorem exitIndex_eq_iff {ctx c₁ c₂ : SessionCtx D} {loopId : UInt64} {depths : UInt64 → Nat}
    (hopen : Opens ctx c₁ loopId) (hbody : Stretch c₁ c₂ depths) :
    exitIndex? c₂ loopId = some (enterIndex ctx loopId) ↔
      depths loopId = leadingActive ctx loopId := by
  -- The entry opens the record at index `i`, below which all records of the loop are active.
  rcases below_enterIndex ctx loopId with ⟨hrecords, hactive⟩
  rcases hopen.opened with ⟨rec, hrec, hview⟩
  have hle := enterIndex_le ctx loopId
  have hlt₁ : enterIndex ctx loopId + 1 ≤ c₁.live.length := (List.getElem?_eq_some_iff.1 hrec).1
  have hbelow := hbody.below loopId (enterIndex ctx loopId) (by omega)
  have hupto := hbody.below loopId (enterIndex ctx loopId + 1) hlt₁
  have hrecords_succ := countBelow_succ (q := isOf loopId) hrec
  have hactive_succ := countBelow_succ (q := isActiveOf loopId) hrec
  simp only [LoopRecord.view, Prod.mk.injEq] at hview
  rw [hopen.below _ _ hle, hopen.records _ _ hle, if_pos rfl, hrecords, hactive] at hbelow
  simp only [isOf, isActiveOf, hview.1, hview.2.1, beq_self_eq_true, Bool.and_self,
    if_true] at hrecords_succ hactive_succ
  change c₁.recordsBelow loopId _ = c₁.recordsBelow loopId _ + 1 at hrecords_succ
  change c₁.activeBelow loopId _ = c₁.activeBelow loopId _ + 1 at hactive_succ
  rw [hrecords_succ, hactive_succ, hopen.below _ _ hle, hopen.records _ _ hle, if_pos rfl,
    hrecords, hactive] at hupto
  -- The exit finds index `i` when no active record is left below it and it still holds one itself.
  rw [exitIndex?, findIdx?_eq_some_iff_countBelow]
  change c₂.activeBelow loopId _ = 0 ∧ c₂.activeBelow loopId _ = 1 ↔ _
  rw [hbelow, hupto]
  omega

/-! ## The law -/

/-- The state in which the final `loop_exit(L)` of `loop_enter(L), w, loop_exit(L)` is issued. -/
def beforeExit (H : Sha256 D) (ctx : SessionCtx D) (loopId : UInt64) (w : Trace) : SessionCtx D :=
  Machine.run (handle H) ctx (.loopEnter loopId :: w.events)

/-- The state behind it. -/
def afterExit (H : Sha256 D) (ctx : SessionCtx D) (loopId : UInt64) (w : Trace) : SessionCtx D :=
  Machine.run (handle H) ctx (Trace.events (.loop loopId w .nil))

/-- The `loop_enter` makes the record at this index an active one of the loop. -/
structure OpensRecord (H : Sha256 D) (ctx : SessionCtx D) (loopId : UInt64) (i : Nat) : Prop where
  before : ∀ rec, ctx.live[i]? = some rec → rec.isActive = false
  after : ∃ rec, (cmdLoopEnter H ctx loopId).2.live[i]? = some rec ∧
    rec.loopId = loopId ∧ rec.isActive = true

/-- Processing `loop_enter(L), w, loop_exit(L)` succeeds and leaves `current_hash` as it was, and
its final exit stores the hash that it finds in the record that its entry opened, closes that record
and writes to no other. -/
structure Bracketed (H : Sha256 D) (ctx : SessionCtx D) (loopId : UInt64) (w : Trace) : Prop where
  succeeds : ∀ res ∈ Machine.replies (handle H) ctx (Trace.events (.loop loopId w .nil)),
    res = .success
  restores : (afterExit H ctx loopId w).currentHash = ctx.currentHash
  opens : OpensRecord H ctx loopId (enterIndex ctx loopId)
  stores : ∃ rec, (afterExit H ctx loopId w).live[enterIndex ctx loopId]? = some rec ∧
    rec.loopHash = (beforeExit H ctx loopId w).currentHash ∧ rec.isActive = false
  others : ∀ j, j ≠ enterIndex ctx loopId →
    (afterExit H ctx loopId w).live[j]? = (beforeExit H ctx loopId w).live[j]?

/-- What an accepted exit does to the table, record by record. -/
theorem Closes.getElem?_live {ctx ctx' : SessionCtx D} {loopId : UInt64} {i : Nat}
    {rec : LoopRecord D} (h : Closes ctx loopId i rec ctx') (j : Nat) :
    ctx'.live[j]? = if i = j then some (rec.closed ctx.currentHash) else ctx.live[j]? := by
  rw [h.live, ← modify_of_findIdx? h.index, List.getElem?_modify]
  split
  · rename_i hij
    rw [← hij, h.record]
    rfl
  · cases ctx.live[j]? <;> rfl

/-- The entry opens the record at `enterIndex`, whatever stood there before. -/
theorem opensRecord_of_not_refused {ctx : SessionCtx D} {loopId : UInt64} (hm : Measuring ctx)
    (hroom : ¬ EnterRefused ctx loopId) : OpensRecord H ctx loopId (enterIndex ctx loopId) where
  before := by
    intro rec hrec
    rw [enterIndex] at hrec
    cases hidx : ctx.live.findIdx? (isInactiveOf loopId) with
    | none =>
        -- A new record stands behind all others.
        rw [hidx, Option.getD_none, List.getElem?_eq_none (Nat.le_refl _)] at hrec
        cases hrec
    | some i =>
        rcases List.findIdx?_eq_some_iff_getElem.1 hidx with ⟨hi, hmatch, _⟩
        rw [hidx, Option.getD_some, List.getElem?_eq_getElem hi] at hrec
        obtain rfl := Option.some.inj hrec
        exact isActive_of_isInactiveOf hmatch
  after := by
    rcases opens_of_not_refused (H := H) hm hroom with ⟨c₁, henter, hopen⟩
    rcases hopen.opened with ⟨rec, hrec, hview⟩
    simp only [LoopRecord.view, Prod.mk.injEq] at hview
    rw [henter]
    exact ⟨rec, hrec, hview.1, hview.2.1⟩

/-- The law holds of a loop and a well-nested sequence exactly when the sequence nests the loop as
deep as there are records of it active before its first inactive one. -/
theorem bracketed_iff_depth_eq_leadingActive {ctx : SessionCtx D} (hctx : ReachedSinceInit H ctx)
    (loopId : UInt64) {w : Trace} (hcf : w.CallFree)
    (hroom : NoneRefused H ctx (Trace.events (.loop loopId w .nil))) :
    Bracketed H ctx loopId w ↔ w.depthOf loopId = leadingActive ctx loopId := by
  have hm := hctx.measuring
  have hcf' : Trace.CallFree (.loop loopId w .nil) := by
    simpa [Trace.CallFree, Nest.leaves] using hcf
  have hsucceeds := (stretch_events (H := H) (.loop loopId w .nil) hm hcf' hroom).1
  simp only [NoneRefused, Trace.events_loop, Machine.stepsMeet_cons,
    Machine.stepsMeet_append] at hroom
  rcases hroom with ⟨hroom_enter, hroom_body, _⟩
  have hopens := opensRecord_of_not_refused (H := H) hm (hroom_enter loopId rfl)
  rcases opens_of_not_refused (H := H) hm (hroom_enter loopId rfl) with ⟨c₁, henter, hopen⟩
  have hm₁ := measuring_handle (H := H) hm (.loopEnter loopId)
  simp only [handle, henter] at hm₁ hroom_body
  rcases stretch_events (H := H) w hm₁ hcf hroom_body with ⟨_, hbody⟩
  have hbefore : beforeExit H ctx loopId w = Machine.run (handle H) c₁ w.events := by
    simp [beforeExit, handle, henter]
  have hindex := exitIndex_eq_iff hopen hbody
  have hle := enterIndex_le ctx loopId
  rcases below_enterIndex ctx loopId with ⟨hrecords, _⟩
  rcases hopen.opened with ⟨rec, hrec, hview⟩
  simp only [LoopRecord.view, Prod.mk.injEq] at hview
  have hpos : 0 < (Machine.run (handle H) c₁ w.events).activeOf loopId := by
    rw [hbody.activeOf, hopen.activeOf, if_pos rfl]
    omega
  rcases exit_of_activeOf_pos hbody.measuring hpos with ⟨j, rec₃, c₃, hexit, hcloses⟩
  have hafter : afterExit H ctx loopId w = c₃ := by
    simp only [afterExit, Trace.events_loop, Machine.run_cons, Machine.run_append, handle, henter,
      hexit, Trace.events_nil, Machine.run_nil]
  constructor
  · intro h
    -- An exit that closed another record would have written to it.
    have hj : j = enterIndex ctx loopId := by
      by_contra hne
      have hsame := h.others j hne
      rw [hafter, hbefore, hcloses.getElem?_live, if_pos rfl, hcloses.record] at hsame
      rcases List.findIdx?_eq_some_iff_getElem.1 hcloses.index with ⟨hi, hmatch, _⟩
      have hactive := isActive_of_isActiveOf hmatch
      have hrecord := hcloses.record
      rw [List.getElem?_eq_getElem hi] at hrecord
      rw [Option.some.inj hrecord, ← Option.some.inj hsame] at hactive
      cases hactive
    exact hindex.1 (hj ▸ hcloses.index)
  · intro hdepth
    -- The record that the exit closes is the one that the entry opened.
    have hj : j = enterIndex ctx loopId :=
      Option.some.inj (hcloses.index.symm.trans (hindex.2 hdepth))
    -- It still holds the hash that the entry saved in it.
    obtain ⟨rec₂, hrec₂, hview₂⟩ := hbody.kept hrec hview.2.1
      (by rw [hview.1, hopen.records _ _ hle, hrecords]; omega)
    have hsame : rec₃ = rec₂ := by
      have hrec₃ := hcloses.record
      rw [hj, hrec₂] at hrec₃
      exact (Option.some.inj hrec₃).symm
    have hpre : rec₂.preLoopHash = rec.preLoopHash := congrArg (·.2.2) hview₂
    refine ⟨hsucceeds, ?_, hopens, ?_, ?_⟩
    · rw [hafter]
      calc
        c₃.currentHash = rec₂.preLoopHash := by rw [hcloses.currentHash, hsame]
        _ = rec.preLoopHash := hpre
        _ = ctx.currentHash := hview.2.2
    · refine ⟨rec₃.closed (beforeExit H ctx loopId w).currentHash, ?_, rfl, rfl⟩
      rw [hafter, hbefore, hcloses.getElem?_live, if_pos hj]
    · intro k hk
      rw [hafter, hbefore, hcloses.getElem?_live, if_neg fun heq => hk (heq.symm.trans hj)]

/-- A session with loop 7 open. -/
def loopOpen : SessionCtx (List UInt64) :=
  beforeFinalize Sha256.free (taOpenSessionEntryPoint Sha256.free) 1
    [.loopEnter 7, .recordNode 5]

theorem bracketed_iff_depth_eq_leadingActive_loopOpen :
    Bracketed Sha256.free loopOpen 7 (.loop 7 (.leaf (.node 6) .nil) .nil) ↔
      Nest.depthOf 7 (.loop 7 (.leaf (.node 6) .nil) .nil : Trace) = leadingActive loopOpen 7 := by
  refine bracketed_iff_depth_eq_leadingActive (reachedSinceInit_beforeFinalize [] 1 _) 7
    (by decide) ?_
  refine ⟨?_, ?_, ?_, ?_, ?_, trivial⟩
  all_goals
    intro loopId h
    cases h
  · decide +kernel
  · decide +kernel

/-- Entering and leaving a loop that is already active restores the wrong hash. -/
theorem bracketing_broken_by_reentry :
    ¬ ∀ ctx : SessionCtx (List UInt64), ReachedSinceInit Sha256.free ctx →
      ∀ (loopId : UInt64) (w : Trace), w.CallFree →
        NoneRefused Sha256.free ctx (Trace.events (.loop loopId w .nil)) →
          Bracketed Sha256.free ctx loopId w := by
  intro h
  have hroom : NoneRefused Sha256.free loopOpen (Trace.events (.loop 7 .nil .nil)) := by
    refine ⟨?_, ?_, trivial⟩
    all_goals
      intro loopId h
      cases h
    decide +kernel
  have hreached : ReachedSinceInit Sha256.free loopOpen := reachedSinceInit_beforeFinalize [] 1 _
  have hrestores := (h loopOpen hreached 7 .nil (by decide) hroom).restores
  revert hrestores
  decide +kernel

end SecureWorld
end CFlat
