import CFlat.SecureWorld.Dispatch
import CFlat.SecureWorld.Report

/-!
# Snapshot — the stored report between a CMD_FINALIZE and the next CMD_INIT

`auth_size` is zero from a CMD_INIT on and is set by CMD_FINALIZE, together with the report.  No
other command writes either of them, so until the next CMD_INIT or CMD_FINALIZE every GET_AUTH is
answered from the report that was taken, whatever is measured meanwhile.
-/

namespace CFlat
namespace SecureWorld

open Lib

variable {D : Type} {H : Sha256 D}

/-! ## What is stored -/

/-- These bytes are stored as the report of a session. -/
structure Stored (auth : List UInt8) (ctx : SessionCtx D) : Prop where
  wellFormed : WellFormed ctx
  size : auth.length = ctx.authSize.toNat
  nonempty : ctx.authSize ≠ 0
  report : ctx.report = auth

/-- No report is stored. -/
structure Unstored (ctx : SessionCtx D) : Prop where
  wellFormed : WellFormed ctx
  size : ctx.authSize = 0

theorem stored_finalize {ctx : SessionCtx D} (hwf : WellFormed ctx) :
    Stored (ctx.measured.encode H) (cmdFinalize H ctx).2 where
  wellFormed := hwf.of_frames rfl rfl rfl
  size := by
    have hrecs : ctx.measured.loops.length = ctx.live.length := List.length_map _
    rw [toNat_authSize_cmdFinalize hwf, length_encode, hrecs]
  nonempty := authSize_cmdFinalize_ne_zero hwf
  report := report_cmdFinalize hwf

theorem unstored_init (alloc : AllocOutcome) (ctx : SessionCtx D) :
    Unstored (cmdInit H alloc ctx).2 :=
  ⟨wellFormed_init alloc ctx, authSize_cmdInit alloc ctx⟩

/-- Only CMD_INIT and CMD_FINALIZE write the stored report. -/
theorem storeFrame_exec {ctx : SessionCtx D} (hwf : WellFormed ctx) {cmd : Cmd}
    (hinit : ∀ alloc, cmd ≠ .init alloc) (hfinalize : cmd ≠ .finalize) :
    StoreFrame ctx (exec H ctx cmd).2 := by
  cases cmd with
  | init alloc => exact absurd rfl (hinit alloc)
  | event e => exact storeFrame_handle hwf e
  | finalize => exact absurd rfl hfinalize
  | getAuth out => exact .refl ctx
  | getLog out => exact .refl ctx

theorem Stored.exec {auth : List UInt8} {ctx : SessionCtx D} (h : Stored auth ctx) {cmd : Cmd}
    (hinit : ∀ alloc, cmd ≠ .init alloc) (hfinalize : cmd ≠ .finalize) :
    Stored auth (SecureWorld.exec H ctx cmd).2 := by
  have hframe := storeFrame_exec (H := H) h.wellFormed hinit hfinalize
  refine ⟨wellFormed_exec h.wellFormed cmd, ?_, ?_, ?_⟩
  · rw [hframe.authSize]
    exact h.size
  · rw [hframe.authSize]
    exact h.nonempty
  · rw [SessionCtx.report, hframe.finalAuth, hframe.authSize]
    exact h.report

theorem Unstored.exec {ctx : SessionCtx D} (h : Unstored ctx) {cmd : Cmd}
    (hfinalize : cmd ≠ .finalize) : Unstored (SecureWorld.exec H ctx cmd).2 := by
  by_cases hinit : ∀ alloc, cmd ≠ .init alloc
  · have hframe := storeFrame_exec (H := H) h.wellFormed hinit hfinalize
    exact ⟨wellFormed_exec h.wellFormed cmd, hframe.authSize.trans h.size⟩
  · push Not at hinit
    rcases hinit with ⟨alloc, rfl⟩
    exact unstored_init alloc ctx

/-! ## GET_AUTH -/

/-- The answer to GET_AUTH while these bytes are stored: they are handed out if the buffer holds
them, and otherwise their size is asked for. -/
def snapshotReply (auth : List UInt8) (out : Memref) : TeeResult × Memref :=
  if out.size < .ofNat auth.length then (.shortBuffer, { out with size := .ofNat auth.length })
  else (.success, ⟨auth ++ out.buffer.drop auth.length, .ofNat auth.length⟩)

theorem Stored.getAuth {auth : List UInt8} {ctx : SessionCtx D} (h : Stored auth ctx)
    (out : Memref) : cmdGetAuth ctx out = snapshotReply auth out := by
  have hreport := h.report
  rw [SessionCtx.report] at hreport
  simp only [cmdGetAuth, snapshotReply, if_neg h.nonempty, hreport, h.size, UInt32.ofNat_toNat]

theorem Unstored.getAuth {ctx : SessionCtx D} (h : Unstored ctx) (out : Memref) :
    cmdGetAuth ctx out = (.badState, out) := if_pos h.size

/-! ## Raw calls -/

/-- The call writes neither the stored report nor its size. -/
def RawCall.keepsReport (call : RawCall) : Bool :=
  call.cmdId != commandInit && call.cmdId != commandFinalize

theorem Stored.invoke {auth : List UInt8} {ctx : SessionCtx D} (h : Stored auth ctx)
    {call : RawCall} (hcall : call.keepsReport = true) :
    Stored auth (SecureWorld.invoke H ctx call).2 := by
  simp only [RawCall.keepsReport, Bool.and_eq_true, bne_iff_ne] at hcall
  rw [invoke_eq]
  cases hcmd : call.decoded with
  | none => exact h
  | some cmd =>
      apply h.exec
      · rintro alloc rfl
        exact hcall.1 (decode_init_iff.1 hcmd).1
      · rintro rfl
        exact hcall.2 (decode_finalize_iff.1 hcmd)

theorem Unstored.invoke {ctx : SessionCtx D} (h : Unstored ctx) {call : RawCall}
    (hcall : call.cmdId ≠ commandFinalize) : Unstored (SecureWorld.invoke H ctx call).2 := by
  rw [invoke_eq]
  cases hcmd : call.decoded with
  | none => exact h
  | some cmd =>
      apply h.exec
      rintro rfl
      exact hcall (decode_finalize_iff.1 hcmd)

theorem invoke_getAuth (ctx : SessionCtx D) {call : RawCall} {out : Memref}
    (hcall : call.decoded = some (.getAuth out)) :
    (invoke H ctx call).1 =
      ((cmdGetAuth ctx out).1, returned call.op (some (cmdGetAuth ctx out).2)) := by
  rw [invoke_eq, hcall]
  rfl

variable (H) in
/-- What GET_AUTH answers in a session, as a matter of the last CMD_INIT and CMD_FINALIZE: the
report of the state in which the CMD_FINALIZE was taken, and nothing between a CMD_INIT and the
next CMD_FINALIZE. -/
structure StableSnapshot (ctx : SessionCtx D) : Prop where
  finalized : ∀ (fin : RawCall) (later : List RawCall) (call : RawCall) (out : Memref),
    fin.cmdId = commandFinalize → (∀ call' ∈ later, call'.keepsReport = true) →
      call.decoded = some (.getAuth out) →
        (invoke H ((invoke H).run (invoke H ctx fin).2 later) call).1 =
          ((snapshotReply (ctx.measured.encode H) out).1,
            returned call.op (some (snapshotReply (ctx.measured.encode H) out).2))
  unfinalized : ∀ (init : RawCall) (later : List RawCall) (call : RawCall) (out : Memref),
    init.cmdId = commandInit → (∀ call' ∈ later, call'.cmdId ≠ commandFinalize) →
      call.decoded = some (.getAuth out) →
        (invoke H ((invoke H).run (invoke H ctx init).2 later) call).1 =
          (.badState, returned call.op (some out))

theorem invoke_finalize (ctx : SessionCtx D) {fin : RawCall} (hfin : fin.cmdId = commandFinalize) :
    (invoke H ctx fin).2 = (cmdFinalize H ctx).2 := by
  have hcmd : fin.decoded = some .finalize := decode_finalize_iff.2 hfin
  rw [invoke_eq, hcmd]
  rfl

theorem invoke_init (ctx : SessionCtx D) {init : RawCall} (hinit : init.cmdId = commandInit) :
    (invoke H ctx init).2 = (cmdInit H init.alloc ctx).2 := by
  have hcmd : init.decoded = some (.init init.alloc) := decode_init_iff.2 ⟨hinit, rfl⟩
  rw [invoke_eq, hcmd]
  rfl

theorem stableSnapshot_of_wellFormed {ctx : SessionCtx D} (hwf : WellFormed ctx) :
    StableSnapshot H ctx where
  finalized := by
    intro fin later call out hfin hlater hcall
    have hstored : Stored (ctx.measured.encode H) (invoke H ctx fin).2 := by
      rw [invoke_finalize ctx hfin]
      exact stored_finalize hwf
    have hkept := (invoke H).run_invariant (I := Stored (ctx.measured.encode H))
      (fun _ _ hcall' h => h.invoke hcall') hstored later hlater
    rw [invoke_getAuth _ hcall, hkept.getAuth]
  unfinalized := by
    intro init later call out hinit hlater hcall
    have hunstored : Unstored (invoke H ctx init).2 := by
      rw [invoke_init ctx hinit]
      exact unstored_init init.alloc ctx
    have hkept := (invoke H).run_invariant (I := Unstored)
      (fun _ _ hcall' h => h.invoke hcall') hunstored later hlater
    rw [invoke_getAuth _ hcall, hkept.getAuth]

end SecureWorld
end CFlat
