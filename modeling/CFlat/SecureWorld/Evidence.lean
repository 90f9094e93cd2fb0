import CFlat.SecureWorld.Structured

/-!
# Evidence — what a report determines of the trace behind it

Under a collision-free hash every digest stands for the list of ids it absorbed, so two traces
have the same report exactly when they have the same `evidence`: the structured report with these
lists in place of the digests.  The record of a loop is reused by every invocation of it and keeps
the hashes of the last one; what earlier invocations executed is not part of the evidence.

A digest of 32 bytes cannot be collision free, so reports are compared as data here, over digests
of an arbitrary type.
-/

namespace CFlat

open Lib

/-- Leave out the iterations of a trace. -/
def Trace.eraseIterations : Trace → Trace
  | .nil => .nil
  | .leaf (.iteration _) rest => Trace.eraseIterations rest
  | .leaf a rest => .leaf a (Trace.eraseIterations rest)
  | .loop loopId body rest =>
      .loop loopId (Trace.eraseIterations body) (Trace.eraseIterations rest)

namespace SecureWorld

variable {D E : Type} {H : Sha256 D}

/-! ## Reports over other digests -/

def ReportRecord.map (f : D → E) (rec : ReportRecord D) : ReportRecord E where
  loopId := rec.loopId
  preHash := f rec.preHash
  loopHash := f rec.loopHash
  iterations := rec.iterations
  invocations := rec.invocations

def Report.map (f : D → E) (rep : Report D) : Report E where
  finalHash := f rep.finalHash
  loops := rep.loops.map (ReportRecord.map f)

def Invocation.map (f : D → E) (inv : Invocation D) : Invocation E where
  loopId := inv.loopId
  preHash := f inv.preHash
  loopHash := f inv.loopHash
  iterations := inv.iterations

theorem map_record_injective {f : D → E} (hf : Function.Injective f) :
    Function.Injective (ReportRecord.map f) := by
  rintro ⟨id₁, pre₁, hash₁, iter₁, inv₁⟩ ⟨id₂, pre₂, hash₂, iter₂, inv₂⟩ h
  simp only [ReportRecord.map, ReportRecord.mk.injEq] at h
  rcases h with ⟨rfl, hpre, hhash, rfl, rfl⟩
  rw [hf hpre, hf hhash]

theorem map_report_injective {f : D → E} (hf : Function.Injective f) :
    Function.Injective (Report.map f) := by
  rintro ⟨final₁, loops₁⟩ ⟨final₂, loops₂⟩ h
  simp only [Report.map, Report.mk.injEq] at h
  rcases h with ⟨hfinal, hloops⟩
  rw [hf hfinal, List.map_injective_iff.2 (map_record_injective hf) hloops]

/-! ## The structured report in terms of the ids behind its digests -/

/-- The evidence of a trace: its structured report, with the ids that a digest absorbed in place
of the digest. -/
def evidence (t : Trace) : Report (List UInt64) := structuredReport Sha256.free t

theorem measureFrom_free (ids : List UInt64) (t : Trace) :
    measureFrom Sha256.free ids t = ids ++ t.topNodes := by
  unfold measureFrom
  induction t.topNodes generalizing ids with
  | nil => simp
  | cons nodeId nodes ih =>
      rw [List.foldl_cons, ih]
      simp [Sha256.free]

theorem measureLeaf_chain (ids : List UInt64) (a : Leaf) :
    measureLeaf H (chain H.digest H.zero ids) a =
      chain H.digest H.zero (measureLeaf Sha256.free ids a) := by
  cases a <;> simp [measureLeaf, Leaf.node?, Sha256.free]

theorem measureFrom_chain (ids : List UInt64) (t : Trace) :
    measureFrom H (chain H.digest H.zero ids) t =
      chain H.digest H.zero (measureFrom Sha256.free ids t) := by
  calc
    measureFrom H (chain H.digest H.zero ids) t = chain H.digest H.zero (ids ++ t.topNodes) :=
          (chain_append ..).symm
    _ = chain H.digest H.zero (measureFrom Sha256.free ids t) := by rw [measureFrom_free]

theorem invocations_chain (t : Trace) (ids : List UInt64) :
    invocations H (chain H.digest H.zero ids) t =
      (invocations Sha256.free ids t).map (Invocation.map (chain H.digest H.zero)) := by
  induction t generalizing ids with
  | nil => rfl
  | leaf a rest ih => simp only [invocations, measureLeaf_chain, ih]
  | loop loopId body rest ihb ihr =>
      -- The start hash of a loop is the chain of its own id.
      have hstart : H.digest H.zero loopId =
          chain H.digest H.zero (Sha256.free.digest Sha256.free.zero loopId) := rfl
      simp only [invocations, hstart, ihb, ihr, measureFrom_chain, List.map_cons, List.map_append]
      rfl

theorem recordOf_map (f : D → E) {H' : Sha256 E} (hzero : f H.zero = H'.zero)
    (invs : List (Invocation D)) (loopId : UInt64) :
    recordOf H' (invs.map (Invocation.map f)) loopId = (recordOf H invs loopId).map f := by
  have hown : invocationsOf (invs.map (Invocation.map f)) loopId =
      (invocationsOf invs loopId).map (Invocation.map f) := by
    rw [invocationsOf, List.filter_map]
    rfl
  have hlast : ((invocationsOf invs loopId).map (Invocation.map f)).getLastD
      ⟨loopId, H'.zero, H'.zero, 0⟩ =
        ((invocationsOf invs loopId).getLastD ⟨loopId, H.zero, H.zero, 0⟩).map f := by
    rw [← hzero, List.getLastD_eq_getLast?, List.getLastD_eq_getLast?, List.getLast?_map]
    cases (invocationsOf invs loopId).getLast? <;> rfl
  simp only [recordOf, hown, hlast]
  simp [ReportRecord.map, Invocation.map, Function.comp_def]

/-- A structured report is the evidence with its lists of ids folded into digests. -/
theorem structuredReport_eq_map (H : Sha256 D) (t : Trace) :
    structuredReport H t = (evidence t).map (chain H.digest H.zero) := by
  have hinvs : invocations H H.zero t =
      (invocations Sha256.free [] t).map (Invocation.map (chain H.digest H.zero)) :=
    invocations_chain t []
  have hfinal : measureFrom H H.zero t =
      chain H.digest H.zero (measureFrom Sha256.free [] t) := measureFrom_chain [] t
  simp only [structuredReport, evidence, Report.map, List.map_map, hinvs, hfinal,
    Report.mk.injEq]
  refine ⟨rfl, ?_⟩
  apply List.map_congr_left
  intro loopId _
  exact recordOf_map (H := Sha256.free) (chain H.digest H.zero) rfl _ loopId

/-- Two cycles over traces within the limits take the same report exactly when the traces have the
same evidence: the same top-level nodes, the same loops in the order of first entry, and for each
loop the same numbers of invocations and iterations, the same nodes directly in the body of its
last invocation and the same ids measured around it before that invocation. -/
theorem same_report_iff_same_evidence (hcf : CollisionFree H.digest H.zero) {t₁ t₂ : Trace}
    (ht₁ : WithinLimits t₁) (ht₂ : WithinLimits t₂) (c₁ c₂ : SessionCtx D)
    (handle₁ handle₂ : Handle) :
    cycleReport H c₁ handle₁ t₁.events = cycleReport H c₂ handle₂ t₂.events ↔
      evidence t₁ = evidence t₂ := by
  calc
    cycleReport H c₁ handle₁ t₁.events = cycleReport H c₂ handle₂ t₂.events
        ↔ structuredReport H t₁ = structuredReport H t₂ := by
          rw [cycleReport_eq ht₁, cycleReport_eq ht₂]
    _ ↔ (evidence t₁).map (chain H.digest H.zero) = (evidence t₂).map (chain H.digest H.zero) := by
          rw [structuredReport_eq_map, structuredReport_eq_map]
    _ ↔ evidence t₁ = evidence t₂ := (map_report_injective hcf.chain_injective).eq_iff

/-- `L7 { first }; L7 { 2 }`. -/
def twiceEntered (first : UInt64) : Trace :=
  .loop 7 (.leaf (.node first) .nil) (.loop 7 (.leaf (.node 2) .nil) .nil)

theorem same_report_iff_same_evidence_twiceEntered :
    cycleReport Sha256.free (taOpenSessionEntryPoint Sha256.free) 1 (twiceEntered 1).events =
        cycleReport Sha256.free (taOpenSessionEntryPoint Sha256.free) 2 (twiceEntered 3).events ↔
      evidence (twiceEntered 1) = evidence (twiceEntered 3) :=
  same_report_iff_same_evidence collisionFree_free ⟨by decide, by decide, by decide⟩
    ⟨by decide, by decide, by decide⟩ _ _ 1 2

/-- What the first of two invocations executed is not determined. -/
theorem report_forgets_early_invocation :
    ¬ ∀ (D : Type) (H : Sha256 D), CollisionFree H.digest H.zero →
      ∀ (ctx : SessionCtx D) (handle : Handle) (t₁ t₂ : Trace), t₁.CallFree → t₂.CallFree →
        WithinLimits t₁ → WithinLimits t₂ →
        cycleReport H ctx handle t₁.events = cycleReport H ctx handle t₂.events →
        t₁.eraseIterations = t₂.eraseIterations := by
  intro h
  have heq := h (List UInt64) Sha256.free collisionFree_free
    (taOpenSessionEntryPoint Sha256.free) 1 (twiceEntered 1) (twiceEntered 3) (by decide)
    (by decide) ⟨by decide, by decide, by decide⟩ ⟨by decide, by decide, by decide⟩
    (by decide +kernel)
  exact absurd heq (by decide)

end SecureWorld
end CFlat
