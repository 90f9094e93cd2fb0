import CFlat.SecureWorld.Report

/-!
# Views — sessions seen through other digests and other counts

The handlers do not look into a digest or an iteration count: they copy digests, hash them on, and
add one to a count.  A `View` maps both.  Two sessions that look alike through two views answer
alike, and keep looking alike, whatever the commands (`LooksAlike.exec`).
-/

namespace CFlat
namespace SecureWorld

open Lib

variable {D E F : Type} {H : Sha256 D} {H' : Sha256 E} {K : Sha256 F}

/-- A map of digests that keeps how they are made, and a map of counts that keeps zero. -/
structure View (H : Sha256 D) (K : Sha256 F) where
  hash : D → F
  count : UInt32 → UInt32
  hash_zero : hash H.zero = K.zero
  hash_digest : ∀ h nodeId, hash (H.digest h nodeId) = K.digest (hash h) nodeId
  count_zero : count 0 = 0

/-- Digests as they are. -/
def View.ofCount (count : UInt32 → UInt32) (h : count 0 = 0) : View H H where
  hash := id
  count := count
  hash_zero := rfl
  hash_digest := fun _ _ => rfl
  count_zero := h

theorem id_count_zero : (id 0 : UInt32) = 0 := rfl

variable (H) in
/-- A session as it is. -/
def plainView : View H H := .ofCount id id_count_zero

namespace View

variable (v : View H K)

def record (rec : LoopRecord D) : LoopRecord F where
  loopId := rec.loopId
  preLoopHash := v.hash rec.preLoopHash
  loopHash := v.hash rec.loopHash
  iterationCount := v.count rec.iterationCount
  invocationCount := rec.invocationCount
  isActive := rec.isActive
  depthLevel := rec.depthLevel

/-- The bytes of a stored report are left out. -/
def session (ctx : SessionCtx D) : SessionCtx F where
  currentHash := v.hash ctx.currentHash
  hashOp := ctx.hashOp
  isInitialized := ctx.isInitialized
  loops := ctx.loops.map v.record
  loopCount := ctx.loopCount
  loopDepth := ctx.loopDepth
  callStack := ctx.callStack
  callDepth := ctx.callDepth
  finalAuth := Vector.replicate _ 0
  authSize := ctx.authSize
  debugLog := ctx.debugLog
  logIdx := ctx.logIdx
  teeLog := ctx.teeLog

def reportRecord (rec : ReportRecord D) : ReportRecord F where
  loopId := rec.loopId
  preHash := v.hash rec.preHash
  loopHash := v.hash rec.loopHash
  iterations := v.count rec.iterations
  invocations := rec.invocations

def report (rep : Report D) : Report F where
  finalHash := v.hash rep.finalHash
  loops := rep.loops.map v.reportRecord

/-- The counts are those of the session. -/
def Counts : Prop := ∀ n, v.count (n + 1) = v.count n + 1

end View

theorem report_plainView (rep : Report D) : (plainView H).report rep = rep := by
  have hrecord : (plainView H).reportRecord = id := rfl
  rw [View.report, hrecord, List.map_id]
  rfl

section Sessions

variable {v : View H K} (ctx : SessionCtx D)

theorem live_view : (v.session ctx).live = ctx.live.map v.record := by
  rw [SessionCtx.live, View.session, Vector.toList_map, ← List.map_take]
  rfl

theorem spare_view : (v.session ctx).spare = ctx.spare.map v.record := by
  rw [SessionCtx.spare, View.session, Vector.toList_map, ← List.map_drop]
  rfl

theorem measured_view : (v.session ctx).measured = v.report ctx.measured := by
  rw [SessionCtx.measured, live_view]
  simp only [SessionCtx.measured, View.report, List.map_map]
  rfl

/-- A session that has just been opened looks like one. -/
theorem open_view (v : View H K) :
    v.session (taOpenSessionEntryPoint H) = taOpenSessionEntryPoint K := by
  simp [View.session, View.record, taOpenSessionEntryPoint, v.hash_zero, v.count_zero]

/-- A write is seen as a write. -/
theorem modifyLoop_view {f : LoopRecord D → LoopRecord D} {g : LoopRecord F → LoopRecord F}
    (i : Nat) (h : ∀ rec, v.record (f rec) = g (v.record rec)) :
    v.session (ctx.modifyLoop i f) = (v.session ctx).modifyLoop i g := by
  have hloops : (modifyAt ctx.loops i f).map v.record = modifyAt (ctx.loops.map v.record) i g := by
    apply Vector.toList_inj.1
    rw [Vector.toList_map, toList_modifyAt, toList_modifyAt, Vector.toList_map]
    exact map_modify (fun rec _ => h rec) i
  simp only [SessionCtx.modifyLoop, View.session, hloops]

theorem findIdx?_view {test : LoopRecord D → Bool} {test' : LoopRecord F → Bool}
    (htest : ∀ rec, test' (v.record rec) = test rec) :
    (v.session ctx).live.findIdx? test' = ctx.live.findIdx? test := by
  rw [live_view]
  exact findIdx?_map_of_test fun rec _ => htest rec

end Sessions

/-! ## One command -/

section Commands

variable (v : View H K) (ctx : SessionCtx D)

theorem updateHash_view (nodeId : UInt64) :
    updateHash K (v.session ctx) nodeId =
      ((updateHash H ctx nodeId).1, v.session (updateHash H ctx nodeId).2) := by
  cases hinit : ctx.isInitialized <;> simp [updateHash, View.session, hinit, v.hash_digest]

theorem openRecord_view (i : Nat) (loopId : UInt64) :
    openRecord K (v.session ctx) i loopId = v.session (openRecord H ctx i loopId) := by
  have hopened := modifyLoop_view (v := v) (f := LoopRecord.opened ctx.currentHash)
    (g := LoopRecord.opened (v.hash ctx.currentHash)) ctx i (fun _ => rfl)
  have hhash := updateHash_view v
    { ctx.modifyLoop i (LoopRecord.opened ctx.currentHash) with
      currentHash := H.zero, loopDepth := ctx.loopDepth + 1 } loopId
  -- A loop starts from the zero digest, which every view keeps.
  have hzero : v.session { ctx.modifyLoop i (LoopRecord.opened ctx.currentHash) with
        currentHash := H.zero, loopDepth := ctx.loopDepth + 1 } =
      { (v.session ctx).modifyLoop i (LoopRecord.opened (v.hash ctx.currentHash)) with
        currentHash := K.zero, loopDepth := ctx.loopDepth + 1 } := by
    rw [← hopened, ← v.hash_zero]
    rfl
  rw [hzero] at hhash
  exact congrArg Prod.snd hhash

/-- An event is seen as the same event. -/
theorem handle_view {e : Event} (he : (∀ loopId, e ≠ .loopIteration loopId) ∨ v.Counts) :
    handle K (v.session ctx) e = ((handle H ctx e).1, v.session (handle H ctx e).2) := by
  have hdepth : (v.session ctx).loopDepth = ctx.loopDepth := rfl
  have hcount : (v.session ctx).loopCount = ctx.loopCount := rfl
  have hcalls : (v.session ctx).callDepth = ctx.callDepth := rfl
  cases e with
  | recordNode nodeId => exact updateHash_view v ctx nodeId
  | loopEnter loopId =>
      -- The search looks at ids and flags only, so it ends at the same record.
      have hsearch : (v.session ctx).live.findIdx? (isInactiveOf loopId) =
          ctx.live.findIdx? (isInactiveOf loopId) := findIdx?_view ctx (fun _ => rfl)
      simp only [handle, cmdLoopEnter, hdepth, hcount, hsearch]
      split
      · rfl
      split
      · rw [openRecord_view]
      split
      · rfl
      · -- A new record: the slot is set before it is opened, and its count starts from zero.
        have hrecycled := modifyLoop_view (v := v) (f := LoopRecord.recycled loopId ctx.loopDepth)
          (g := LoopRecord.recycled loopId ctx.loopDepth) ctx ctx.loopCount.toNat fun rec => by
            simp [View.record, LoopRecord.recycled, v.count_zero]
        have hopen := openRecord_view v
          { ctx.modifyLoop ctx.loopCount.toNat (LoopRecord.recycled loopId ctx.loopDepth) with
            loopCount := ctx.loopCount + 1 } ctx.loopCount.toNat loopId
        refine congrArg (Prod.mk _) (Eq.trans ?_ hopen)
        refine congrArg (fun ctx' => openRecord K ctx' ctx.loopCount.toNat loopId) ?_
        exact congrArg (fun ctx' : SessionCtx F => { ctx' with loopCount := ctx.loopCount + 1 })
          hrecycled.symm
  | loopExit loopId =>
      have hsearch : (v.session ctx).live.findIdx? (isActiveOf loopId) =
          ctx.live.findIdx? (isActiveOf loopId) := findIdx?_view ctx (fun _ => rfl)
      rw [live_view] at hsearch
      simp only [handle, cmdLoopExit, hdepth, live_view, hsearch, List.getElem?_map]
      split
      · rfl
      cases hidx : ctx.live.findIdx? (isActiveOf loopId) with
      | none => rfl
      | some i =>
          cases hrec : ctx.live[i]? with
          | none => simp only [hrec, Option.map_none]
          | some rec =>
              -- The digest from before the loop is handed back as it is seen.
              have hclosed := modifyLoop_view (v := v) (f := LoopRecord.closed ctx.currentHash)
                (g := LoopRecord.closed (v.hash ctx.currentHash)) ctx i (fun _ => rfl)
              simp only [hrec, Option.map_some]
              refine congrArg (Prod.mk _) ?_
              exact congrArg (fun ctx' : SessionCtx F =>
                { ctx' with currentHash := v.hash rec.preLoopHash, loopDepth := ctx.loopDepth - 1 })
                  hclosed.symm
  | loopIteration loopId =>
      have hcounts : v.Counts := he.resolve_left fun hne => hne loopId rfl
      have hsearch : findLastIdx? (isActiveOf loopId) (v.session ctx).live =
          findLastIdx? (isActiveOf loopId) ctx.live := by
        rw [live_view]
        exact findLastIdx?_map_of_test fun _ _ => rfl
      simp only [handle, cmdLoopIteration, hsearch]
      split
      · rfl
      · rename_i i _
        refine congrArg (Prod.mk _) (modifyLoop_view ctx i fun rec => ?_).symm
        simpa [View.record] using hcounts rec.iterationCount
  | callEnter callId caller =>
      simp only [handle, cmdCallEnter, hcalls]
      split <;> rfl
  | callReturn callId =>
      simp only [handle, cmdCallReturn, hcalls]
      split <;> rfl

/-- A view that does not count does not see an iteration. -/
theorem iteration_view {v : View H K} (hcount : ∀ n, v.count (n + 1) = v.count n)
    (ctx : SessionCtx D) (loopId : UInt64) :
    v.session (cmdLoopIteration ctx loopId).2 = v.session ctx := by
  simp only [cmdLoopIteration]
  split
  · rfl
  · rename_i i _
    have hcounted := modifyLoop_view (v := v) (f := LoopRecord.iterated) (g := id) ctx i
      fun rec => by simp [View.record, LoopRecord.iterated, hcount]
    -- The record is written back as it was.
    have hsame : (v.session ctx).modifyLoop i id = v.session ctx := by
      have hloops : modifyAt (v.session ctx).loops i id = (v.session ctx).loops := by
        apply Vector.toList_inj.1
        rw [toList_modifyAt, List.modify_id]
      simp only [SessionCtx.modifyLoop, hloops]
    exact hcounted.trans hsame

theorem init_view (alloc : AllocOutcome) :
    cmdInit K alloc (v.session ctx) =
      ((cmdInit H alloc ctx).1, v.session (cmdInit H alloc ctx).2) := by
  cases alloc with
  | ok handle =>
      rw [cmdInit_ok, cmdInit_ok, ← v.hash_zero]
      rfl
  | fail err clears =>
      rw [cmdInit_fail, cmdInit_fail, ← v.hash_zero]
      rfl

theorem deactivated_view (rec : LoopRecord D) :
    v.record rec.deactivated = (v.record rec).deactivated := by
  rcases rec with ⟨_, _, _, _, _, _ | _, _⟩ <;> rfl

/-- What a CMD_FINALIZE leaves of the table is seen in the session before. -/
theorem loops_forceClose_view {ctx : SessionCtx D} (hwf : WellFormed ctx) :
    ((forceClose ctx).loops.map v.record).toList =
      (v.session ctx).live.map LoopRecord.deactivated ++ (v.session ctx).spare := by
  rw [Vector.toList_map, (loops_forceClose hwf).1, List.map_append, spare_view, live_view,
    List.map_map, List.map_map]
  exact congrArg (· ++ _) (List.map_congr_left fun rec _ => deactivated_view v rec)

end Commands

/-! ## Two sessions -/

/-- What a reply shows besides the bytes of a report: its result, and the size that it reports. -/
def Reply.shape (reply : Reply) : TeeResult × Option UInt32 :=
  (reply.result, reply.out.map Memref.size)

def Cmd.isIteration : Cmd → Bool
  | .event (.loopIteration _) => true
  | _ => false

/-- Two sessions that are one through two views. -/
structure LooksAlike (v : View H K) (v' : View H' K) (c : SessionCtx D) (c' : SessionCtx E) :
    Prop where
  left : WellFormed c
  right : WellFormed c'
  same : v.session c = v'.session c'

section LooksAlike

variable {v : View H K} {v' : View H' K} {c : SessionCtx D} {c' : SessionCtx E}
  (h : LooksAlike v v' c c')
include h

theorem LooksAlike.measured : v.report c.measured = v'.report c'.measured := by
  rw [← measured_view, h.same, measured_view]

theorem LooksAlike.finalize : LooksAlike v v' (cmdFinalize H c).2 (cmdFinalize H' c').2 := by
  have hloops : (forceClose c).loops.map v.record = (forceClose c').loops.map v'.record := by
    apply Vector.toList_inj.1
    rw [loops_forceClose_view v h.left, loops_forceClose_view v' h.right, h.same]
  have hlength : c.live.length = c'.live.length := by
    have hlive := congrArg (fun ctx : SessionCtx F => ctx.live.length) h.same
    simpa [live_view] using hlive
  -- The size depends on the number of live records, and no view changes that.
  have hsize : (cmdFinalize H c).2.authSize = (cmdFinalize H' c').2.authSize := by
    apply UInt32.toNat_inj.1
    rw [toNat_authSize_cmdFinalize h.left, toNat_authSize_cmdFinalize h.right, hlength]
  have hafter : v.session (cmdFinalize H c).2 =
      { v.session c with
        loops := (forceClose c).loops.map v.record
        authSize := (cmdFinalize H c).2.authSize } := rfl
  have hafter' : v'.session (cmdFinalize H' c').2 =
      { v'.session c' with
        loops := (forceClose c').loops.map v'.record
        authSize := (cmdFinalize H' c').2.authSize } := rfl
  refine ⟨h.left.of_frames rfl rfl rfl, h.right.of_frames rfl rfl rfl, ?_⟩
  rw [hafter, hafter', h.same, hloops, hsize]

/-- The step lemma. -/
theorem LooksAlike.exec {cmd : Cmd} (hcmd : cmd.isIteration = false ∨ v.Counts ∧ v'.Counts) :
    (SecureWorld.exec H c cmd).1.shape = (SecureWorld.exec H' c' cmd).1.shape ∧
      LooksAlike v v' (SecureWorld.exec H c cmd).2 (SecureWorld.exec H' c' cmd).2 := by
  have hleft := wellFormed_exec (H := H) h.left cmd
  have hright := wellFormed_exec (H := H') h.right cmd
  cases cmd with
  | init alloc =>
      have hview := init_view v c alloc
      rw [h.same, init_view] at hview
      rcases Prod.mk.inj hview with ⟨hresult, hsame⟩
      exact ⟨congrArg (fun result => (result, none)) hresult.symm, hleft, hright, hsame.symm⟩
  | event e =>
      -- Iterations are the one event that not every view can follow.
      have hseen : ∀ {q : Prop}, (Cmd.event e).isIteration = false ∨ q →
          (∀ loopId, e ≠ .loopIteration loopId) ∨ q := by
        rintro q (hfree | hq)
        · left
          rintro loopId rfl
          cases hfree
        · exact .inr hq
      have hview := handle_view v c (hseen (hcmd.imp_right And.left))
      rw [h.same, handle_view v' c' (hseen (hcmd.imp_right And.right))] at hview
      rcases Prod.mk.inj hview with ⟨hresult, hsame⟩
      exact ⟨congrArg (fun result => (result, none)) hresult.symm, hleft, hright, hsame.symm⟩
  | finalize => exact ⟨rfl, h.finalize⟩
  | getAuth out =>
      have hsize : (v.session c).authSize = (v'.session c').authSize := congrArg _ h.same
      replace hsize : c.authSize = c'.authSize := hsize
      refine ⟨?_, h⟩
      simp only [SecureWorld.exec, Reply.shape, cmdGetAuth, hsize]
      split
      · rfl
      · split <;> rfl
  | getLog out =>
      have hlog : (v.session c).logIdx = (v'.session c').logIdx := congrArg _ h.same
      replace hlog : c.logIdx = c'.logIdx := hlog
      refine ⟨?_, h⟩
      simp only [SecureWorld.exec, Reply.shape, cmdGetLog, hlog]
      split <;> rfl

end LooksAlike

end SecureWorld
end CFlat
