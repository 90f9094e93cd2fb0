import CFlat.SecureWorld.Steps

/-!
# Report — what `cmd_finalize` serialises

`SessionCtx.measured` is the report of a context as data: the final hash and the serialised fields
of the live loop records, in table order.  `report_cmdFinalize` says that the bytes
`final_auth[0..auth_size)` after a CMD_FINALIZE are the encoding of that data, so statements about
reports may be made about the data.
-/

namespace CFlat
namespace SecureWorld

open Lib

/-- The serialised fields of a loop record. -/
structure ReportRecord (D : Type) where
  loopId : UInt64
  preHash : D
  loopHash : D
  iterations : UInt32
  invocations : UInt32
  deriving DecidableEq, Repr

/-- An attestation report as data. -/
structure Report (D : Type) where
  finalHash : D
  loops : List (ReportRecord D)
  deriving DecidableEq, Repr

variable {D : Type} (H : Sha256 D)

def LoopRecord.toReport (rec : LoopRecord D) : ReportRecord D where
  loopId := rec.loopId
  preHash := rec.preLoopHash
  loopHash := rec.loopHash
  iterations := rec.iterationCount
  invocations := rec.invocationCount

/-- The report that a CMD_FINALIZE of this context would take. -/
def SessionCtx.measured (ctx : SessionCtx D) : Report D where
  finalHash := ctx.currentHash
  loops := ctx.live.map LoopRecord.toReport

/-- The 80 bytes of a record. -/
def ReportRecord.encode (rec : ReportRecord D) : List UInt8 :=
  leBytes 8 rec.loopId.toNat ++ (H.bytes rec.preHash).toList ++ (H.bytes rec.loopHash).toList ++
    leBytes 4 rec.iterations.toNat ++ leBytes 4 rec.invocations.toNat

/-- `[final_hash(32)] [loop_count(4)] [loop_records...]`. -/
def Report.encode (rep : Report D) : List UInt8 :=
  (H.bytes rep.finalHash).toList ++ leBytes 4 rep.loops.length ++
    rep.loops.flatMap (ReportRecord.encode H)

theorem length_bytes (h : D) : (H.bytes h).toList.length = 32 := Vector.length_toList

@[simp] theorem length_encodeRecord (rec : ReportRecord D) : (rec.encode H).length = 80 := by
  simp [ReportRecord.encode]

theorem length_encode (rep : Report D) : (rep.encode H).length = 36 + 80 * rep.loops.length := by
  have hrecs : (rep.loops.flatMap (ReportRecord.encode H)).length = 80 * rep.loops.length := by
    induction rep.loops with
    | nil => rfl
    | cons rec recs ih =>
        simp only [List.flatMap_cons, List.length_append, ih, length_encodeRecord, List.length_cons]
        omega
  simp only [Report.encode, List.length_append, Vector.length_toList, length_leBytes, hrecs]

/-! ## Reports are determined by their bytes -/

variable {H}

theorem encodeRecord_injective (hbytes : Function.Injective H.bytes) :
    Function.Injective (ReportRecord.encode H) := by
  intro rec₁ rec₂ h
  simp only [ReportRecord.encode, List.append_assoc] at h
  -- Every field has a fixed width, so the fields can be cut off one by one.
  rcases List.append_inj h (by simp) with ⟨hid, h⟩
  rcases List.append_inj h (by simp) with ⟨hpre, h⟩
  rcases List.append_inj h (by simp) with ⟨hloop, h⟩
  rcases List.append_inj h (by simp) with ⟨hiter, hinv⟩
  have hid' : rec₁.loopId = rec₂.loopId :=
    UInt64.toNat_inj.1 (leBytes_injOn rec₁.loopId.toNat_lt rec₂.loopId.toNat_lt hid)
  have hpre' : rec₁.preHash = rec₂.preHash := hbytes (Vector.toList_inj.1 hpre)
  have hloop' : rec₁.loopHash = rec₂.loopHash := hbytes (Vector.toList_inj.1 hloop)
  have hiter' : rec₁.iterations = rec₂.iterations :=
    UInt32.toNat_inj.1 (leBytes_injOn rec₁.iterations.toNat_lt rec₂.iterations.toNat_lt hiter)
  have hinv' : rec₁.invocations = rec₂.invocations :=
    UInt32.toNat_inj.1 (leBytes_injOn rec₁.invocations.toNat_lt rec₂.invocations.toNat_lt hinv)
  cases rec₁
  cases rec₂
  simp_all

theorem flatMap_encode_injective (hbytes : Function.Injective H.bytes) :
    Function.Injective (List.flatMap (ReportRecord.encode H)) := by
  intro recs₁
  induction recs₁ with
  | nil =>
      intro recs₂ h
      have hlen := congrArg List.length h
      cases recs₂ with
      | nil => rfl
      | cons rec₂ recs₂ =>
          simp at hlen
          omega
  | cons rec₁ recs₁ ih =>
      intro recs₂ h
      cases recs₂ with
      | nil =>
          have hlen := congrArg List.length h
          simp at hlen
      | cons rec₂ recs₂ =>
          rw [List.flatMap_cons, List.flatMap_cons] at h
          rcases List.append_inj h (by simp) with ⟨hrec, hrecs⟩
          rw [encodeRecord_injective hbytes hrec, ih hrecs]

theorem encode_injective (hbytes : Function.Injective H.bytes) :
    Function.Injective (Report.encode H) := by
  intro rep₁ rep₂ h
  simp only [Report.encode, List.append_assoc] at h
  rcases List.append_inj h (by simp) with ⟨hfinal, h⟩
  rcases List.append_inj h (by simp) with ⟨_, hloops⟩
  have hfinal' : rep₁.finalHash = rep₂.finalHash := hbytes (Vector.toList_inj.1 hfinal)
  have hloops' : rep₁.loops = rep₂.loops := flatMap_encode_injective hbytes hloops
  cases rep₁
  cases rep₂
  simp_all

/-! ## The serialisation loop -/

/-- A record is written behind what the buffer holds so far. -/
theorem take_serializeRecord (rec : LoopRecord D) {buf : Vector UInt8 authCapacity} {offset : Nat}
    {done : List UInt8} (hdone : buf.toList.take offset = done)
    (hfit : offset + 80 ≤ authCapacity) :
    (serializeRecord H rec buf offset).toList.take (offset + 80) =
      done ++ rec.toReport.encode H := by
  -- Each copy lands behind the one before it.
  have h₁ := take_memMove hdone (length_leBytes 8 rec.loopId.toNat) (by omega)
  have h₂ := take_memMove h₁ (length_bytes H rec.preLoopHash) (by omega)
  have h₃ := take_memMove h₂ (length_bytes H rec.loopHash) (by omega)
  have h₄ := take_memMove h₃ (length_leBytes 4 rec.iterationCount.toNat) (by omega)
  have h₅ := take_memMove h₄ (length_leBytes 4 rec.invocationCount.toNat) (by omega)
  have hend : offset + 80 = offset + 8 + 32 + 32 + 4 + 4 := by omega
  rw [hend]
  simpa [serializeRecord, ReportRecord.encode, LoopRecord.toReport] using h₅

/-- With room for all records the loop never takes its early exit and writes them in order. -/
theorem serializeLoops_spec (recs : List (LoopRecord D)) :
    ∀ {buf : Vector UInt8 authCapacity} {offset : Nat} {done : List UInt8},
      buf.toList.take offset = done → offset + 80 * recs.length ≤ authCapacity →
        (serializeLoops H recs buf offset).2 = offset + 80 * recs.length ∧
          (serializeLoops H recs buf offset).1.toList.take (offset + 80 * recs.length) =
            done ++ (recs.map LoopRecord.toReport).flatMap (ReportRecord.encode H) := by
  induction recs with
  | nil =>
      intro buf offset done hdone _
      simpa [serializeLoops] using hdone
  | cons rec recs ih =>
      intro buf offset done hdone hfit
      rw [List.length_cons] at hfit
      -- The early exit is not taken.
      have hroom : ¬ offset + 80 > authCapacity := by omega
      have hrec := take_serializeRecord (H := H) rec hdone (by omega)
      rcases ih hrec (by omega) with ⟨hoff, hbytes⟩
      have hend : offset + 80 * (rec :: recs).length = offset + 80 + 80 * recs.length := by
        rw [List.length_cons]
        omega
      rw [serializeLoops, if_neg hroom, hend]
      exact ⟨hoff, by simpa using hbytes⟩

/-! ## The report of a CMD_FINALIZE -/

theorem toReport_deactivated (rec : LoopRecord D) :
    rec.deactivated.toReport = rec.toReport := by
  unfold LoopRecord.deactivated
  split <;> rfl

theorem length_live_le {ctx : SessionCtx D} (hwf : WellFormed ctx) :
    36 + 80 * ctx.live.length ≤ authCapacity := by
  have hlen := length_live hwf
  have hle := hwf.loopCount_le
  simp only [authCapacity, maxLoopRecords] at hle ⊢
  omega

/-- The buffer with the header of the report. -/
def authHeader (H : Sha256 D) (ctx : SessionCtx D) : Vector UInt8 authCapacity :=
  memMove (memMove ctx.finalAuth 0 (H.bytes ctx.currentHash).toList) 32
    (leBytes 4 (ctx.loopCount % 2 ^ 32).toNat)

theorem take_authHeader (ctx : SessionCtx D) :
    (authHeader H ctx).toList.take 36 =
      (H.bytes ctx.currentHash).toList ++ leBytes 4 (ctx.loopCount % 2 ^ 32).toNat := by
  have h₁ := take_memMove (List.take_zero (l := ctx.finalAuth.toList))
    (length_bytes H ctx.currentHash) (by simp [authCapacity, maxLoopRecords])
  have h₂ := take_memMove h₁ (length_leBytes 4 (ctx.loopCount % 2 ^ 32).toNat)
    (by simp [authCapacity, maxLoopRecords])
  simpa [authHeader] using h₂

theorem cmdFinalize_eq (ctx : SessionCtx D) :
    cmdFinalize H ctx =
      (.success,
        { forceClose ctx with
          finalAuth := (serializeLoops H (forceClose ctx).live (authHeader H ctx) 36).1
          authSize :=
            UInt32.ofNat (serializeLoops H (forceClose ctx).live (authHeader H ctx) 36).2 }) := by
  simp only [cmdFinalize, authHeader]
  rfl

/-- The size and the bytes that a CMD_FINALIZE leaves behind. -/
theorem cmdFinalize_spec {ctx : SessionCtx D} (hwf : WellFormed ctx) :
    (cmdFinalize H ctx).2.authSize = UInt32.ofNat (36 + 80 * ctx.live.length) ∧
      (cmdFinalize H ctx).2.finalAuth.toList.take (36 + 80 * ctx.live.length) =
        ctx.measured.encode H := by
  have hlive := live_forceClose hwf
  have hlen : (forceClose ctx).live.length = ctx.live.length := by rw [hlive, List.length_map]
  have hcap := length_live_le hwf
  have h₀ := length_live hwf
  -- The counter is at most 64, so its four bytes hold it exactly.
  have hcount : (ctx.loopCount % 2 ^ 32).toNat = ctx.live.length := by
    have hle := hwf.loopCount_le
    simp only [maxLoopRecords] at hle
    omega
  obtain ⟨hoff, hbytes⟩ := serializeLoops_spec (H := H) (forceClose ctx).live
    (take_authHeader ctx) (by rw [hlen]; exact hcap)
  rw [hlen] at hoff hbytes
  rw [cmdFinalize_eq]
  refine ⟨congrArg UInt32.ofNat hoff, hbytes.trans ?_⟩
  rw [hcount, hlive]
  simp [Report.encode, SessionCtx.measured, toReport_deactivated, Function.comp_def]

/-- The size that a CMD_FINALIZE stores is the size of the report: it is at most the capacity of the
buffer, so it does not wrap. -/
theorem toNat_authSize_cmdFinalize {ctx : SessionCtx D} (hwf : WellFormed ctx) :
    (cmdFinalize H ctx).2.authSize.toNat = 36 + 80 * ctx.live.length := by
  have hcap := length_live_le hwf
  simp only [authCapacity, maxLoopRecords] at hcap
  rw [(cmdFinalize_spec (H := H) hwf).1, UInt32.toNat_ofNat']
  omega

theorem authSize_cmdFinalize_ne_zero {ctx : SessionCtx D} (hwf : WellFormed ctx) :
    (cmdFinalize H ctx).2.authSize ≠ 0 := by
  intro hzero
  have hsize := toNat_authSize_cmdFinalize (H := H) hwf
  rw [hzero] at hsize
  exact absurd (hsize.symm.trans rfl) (by omega : 36 + 80 * ctx.live.length ≠ 0)

/-- The bytes taken by a CMD_FINALIZE are the encoding of the measured report. -/
theorem report_cmdFinalize {ctx : SessionCtx D} (hwf : WellFormed ctx) :
    (cmdFinalize H ctx).2.report = ctx.measured.encode H := by
  calc
    (cmdFinalize H ctx).2.report
        = (cmdFinalize H ctx).2.finalAuth.toList.take (36 + 80 * ctx.live.length) := by
          rw [SessionCtx.report, toNat_authSize_cmdFinalize hwf]
    _ = ctx.measured.encode H := (cmdFinalize_spec (H := H) hwf).2

/-! ## The stored report -/

/-- GET_AUTH succeeds when a report is stored and the buffer holds it. -/
theorem getAuth_success_iff (ctx : SessionCtx D) (out : Memref) :
    (cmdGetAuth ctx out).1 = .success ↔ ctx.authSize ≠ 0 ∧ ¬ out.size < ctx.authSize := by
  unfold cmdGetAuth
  by_cases hzero : ctx.authSize = 0
  · simp [hzero]
  · by_cases hshort : out.size < ctx.authSize <;> simp [hzero, hshort]

end SecureWorld
end CFlat
