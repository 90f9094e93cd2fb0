import Mathlib.Algebra.GroupWithZero.Nat
import CFlat.SecureWorld.Isolation
import CFlat.SecureWorld.Records

/-!
# Structured — the measurement of a trace by recursion on its structure

The abstract meaning of the loop protocol: a loop is measured from its own start hash and leaves
the enclosing measurement as it was.  `invocations` lists what each loop invocation measures, in
the order of entry, and `structuredReport` collects them into a report.  The flat event machine
refines this: `realizes_events` is the simulation, by induction on the trace.
-/

namespace CFlat

open Lib

def Leaf.node? : Leaf → Option UInt64
  | .node nodeId => some nodeId
  | _ => none

namespace Trace

/-- The nodes outside every loop, in order. -/
def topNodes (t : Trace) : List UInt64 := t.topLeaves.filterMap Leaf.node?

/-- The number of iterations of a loop in a trace, at any depth. -/
def iterations (t : Trace) (loopId : UInt64) : Nat := t.leaves.count (.iteration loopId)

@[simp] theorem iterations_leaf (a : Leaf) (rest : Trace) (loopId : UInt64) :
    iterations (.leaf a rest) loopId =
      (if a = .iteration loopId then 1 else 0) + iterations rest loopId := by
  unfold iterations
  rw [Nest.leaves, List.count_cons, Nat.add_comm]
  simp only [beq_iff_eq]

@[simp] theorem iterations_loop (k : UInt64) (body rest : Trace) (loopId : UInt64) :
    iterations (.loop k body rest) loopId = iterations body loopId + iterations rest loopId := by
  simp [iterations, Nest.leaves, List.count_append]

end Trace

namespace SecureWorld

variable {D : Type} (H : Sha256 D)

/-! ## The structured measurement -/

/-- The hash after the top level of a trace. -/
def measureFrom (h : D) (t : Trace) : D := t.topNodes.foldl H.digest h

/-- The hash after an event that neither opens nor closes a loop. -/
def measureLeaf (h : D) (a : Leaf) : D := a.node?.elim h (H.digest h)

/-- What one invocation of a loop measures. -/
structure Invocation (D : Type) where
  loopId : UInt64
  /-- The enclosing measurement just before the invocation. -/
  preHash : D
  /-- The measurement of the body. -/
  loopHash : D
  /-- How many iterations of its own the body reports. -/
  iterations : Nat
  deriving DecidableEq, Repr

/-- The loop invocations of a trace, in the order of entry. -/
def invocations (h : D) : Trace → List (Invocation D)
  | .nil => []
  | .leaf a rest => invocations (measureLeaf H h a) rest
  | .loop loopId body rest =>
      let start := H.digest H.zero loopId
      ⟨loopId, h, measureFrom H start body, Trace.iterations body loopId⟩ ::
        (invocations start body ++ invocations h rest)

/-- The invocations of one loop. -/
def invocationsOf (invs : List (Invocation D)) (loopId : UInt64) : List (Invocation D) :=
  invs.filter fun inv => inv.loopId = loopId

/-- The report record of a loop: hashes of its last invocation, counts over all of them. -/
def recordOf (invs : List (Invocation D)) (loopId : UInt64) : ReportRecord D :=
  let own := invocationsOf invs loopId
  let last := own.getLastD ⟨loopId, H.zero, H.zero, 0⟩
  { loopId := loopId
    preHash := last.preHash
    loopHash := last.loopHash
    iterations := UInt32.ofNat (own.map (·.iterations)).sum
    invocations := UInt32.ofNat own.length }

/-- The report of a trace: the measurement of its top level and one record for each loop, in the
order of first entry. -/
def structuredReport (t : Trace) : Report D where
  finalHash := measureFrom H H.zero t
  loops := t.keys.eraseDups.map (recordOf H (invocations H H.zero t))

variable {H}

@[simp] theorem measureFrom_leaf (h : D) (a : Leaf) (rest : Trace) :
    measureFrom H h (.leaf a rest) = measureFrom H (measureLeaf H h a) rest := by
  cases a <;> rfl

@[simp] theorem measureFrom_loop (h : D) (loopId : UInt64) (body rest : Trace) :
    measureFrom H h (.loop loopId body rest) = measureFrom H h rest := rfl

theorem loopIds_invocations (t : Trace) (h : D) :
    (invocations H h t).map (·.loopId) = t.keys := by
  induction t generalizing h with
  | nil => rfl
  | leaf a rest ih => exact ih _
  | loop loopId body rest ihb ihr => simp [invocations, Nest.keys, ihb, ihr]

/-! ## A record under the invocations of its loop -/

/-- What an invocation makes of the record that its loop had before. -/
def Invocation.recorded (inv : Invocation D) (old : Option (ReportRecord D)) : ReportRecord D where
  loopId := inv.loopId
  preHash := inv.preHash
  loopHash := inv.loopHash
  iterations := (old.map (·.iterations)).getD 0 + UInt32.ofNat inv.iterations
  invocations := (old.map (·.invocations)).getD 0 + 1

/-- The record after a list of invocations of one loop. -/
def summary (old : Option (ReportRecord D)) (own : List (Invocation D)) :
    Option (ReportRecord D) :=
  own.foldl (fun old inv => some (inv.recorded old)) old

@[simp] theorem summary_nil (old : Option (ReportRecord D)) : summary old [] = old := rfl

@[simp] theorem summary_cons (old : Option (ReportRecord D)) (inv : Invocation D)
    (own : List (Invocation D)) :
    summary old (inv :: own) = summary (some (inv.recorded old)) own := rfl

theorem summary_append (old : Option (ReportRecord D)) (own own' : List (Invocation D)) :
    summary old (own ++ own') = summary (summary old own) own' := List.foldl_append

/-- From nothing, the summary of a list of invocations of one loop is its report record.  The
induction peels the invocations from the end, as the record shows the last one. -/
theorem summary_none {loopId : UInt64} {own : List (Invocation D)} (hne : own ≠ [])
    (hown : ∀ inv ∈ own, inv.loopId = loopId) :
    summary none own = some
      { loopId := loopId
        preHash := (own.getLastD ⟨loopId, H.zero, H.zero, 0⟩).preHash
        loopHash := (own.getLastD ⟨loopId, H.zero, H.zero, 0⟩).loopHash
        iterations := UInt32.ofNat (own.map (·.iterations)).sum
        invocations := UInt32.ofNat own.length } := by
  induction own using List.reverseRecOn with
  | nil => exact absurd rfl hne
  | append_singleton own inv ih =>
      have hid : inv.loopId = loopId := hown inv (by simp)
      rw [summary_append]
      -- The first invocation finds no record, every later one that of the last.
      by_cases hnil : own = []
      · subst hnil
        simp [summary, Invocation.recorded, hid]
      · rw [ih hnil (fun inv' hinv' => hown inv' (by simp [hinv']))]
        simp [summary, Invocation.recorded, hid, UInt32.ofNat_add]

/-! ## Simulation -/

/-- Going from `ctx` to `ctx'` realises the measurement `hash`, the invocations `invs` and, for
loops that stay open, the iterations `iters`. -/
structure Realizes (ctx ctx' : SessionCtx D) (hash : D) (invs : List (Invocation D))
    (iters : UInt64 → Nat) : Prop where
  measuring : Measuring ctx'
  loopDepth : ctx'.loopDepth = ctx.loopDepth
  currentHash : ctx'.currentHash = hash
  ids : ctx'.ids = addKeys ctx.ids (invs.map (·.loopId))
  whileOpen : ∀ {loopId rec}, ctx.lookup loopId = some rec → rec.isActive = true →
    ctx'.lookup loopId =
      some { rec with iterationCount := rec.iterationCount + UInt32.ofNat (iters loopId) }
  whileClosed : ∀ {loopId}, ctx.IsClosed loopId → ctx'.IsClosed loopId ∧
    (ctx'.lookup loopId).map LoopRecord.toReport =
      summary ((ctx.lookup loopId).map LoopRecord.toReport) (invocationsOf invs loopId)

theorem Realizes.refl {ctx : SessionCtx D} (hm : Measuring ctx) :
    Realizes ctx ctx ctx.currentHash [] (fun _ => 0) where
  measuring := hm
  loopDepth := rfl
  currentHash := rfl
  ids := rfl
  whileOpen := by
    intro loopId rec hrec _
    simpa using hrec
  whileClosed := fun h => ⟨h, rfl⟩

theorem Realizes.trans {c₁ c₂ c₃ : SessionCtx D} {hash₁ hash₂ : D}
    {invs₁ invs₂ : List (Invocation D)} {iters₁ iters₂ : UInt64 → Nat}
    (h₁ : Realizes c₁ c₂ hash₁ invs₁ iters₁) (h₂ : Realizes c₂ c₃ hash₂ invs₂ iters₂) :
    Realizes c₁ c₃ hash₂ (invs₁ ++ invs₂) (fun loopId => iters₁ loopId + iters₂ loopId) where
  measuring := h₂.measuring
  loopDepth := h₂.loopDepth.trans h₁.loopDepth
  currentHash := h₂.currentHash
  ids := by rw [h₂.ids, h₁.ids, List.map_append, addKeys_append]
  whileOpen := by
    intro loopId rec hrec hactive
    rw [h₂.whileOpen (h₁.whileOpen hrec hactive) hactive]
    simp [UInt32.ofNat_add, UInt32.add_assoc]
  whileClosed := by
    intro loopId hclosed
    rcases h₁.whileClosed hclosed with ⟨hclosed₂, hlookup₂⟩
    rcases h₂.whileClosed hclosed₂ with ⟨hclosed₃, hlookup₃⟩
    refine ⟨hclosed₃, ?_⟩
    calc
      (c₃.lookup loopId).map LoopRecord.toReport
          = summary (summary ((c₁.lookup loopId).map LoopRecord.toReport)
              (invocationsOf invs₁ loopId)) (invocationsOf invs₂ loopId) := by
            rw [hlookup₃, hlookup₂]
      _ = summary ((c₁.lookup loopId).map LoopRecord.toReport)
            (invocationsOf (invs₁ ++ invs₂) loopId) := by
            rw [← summary_append, invocationsOf, invocationsOf, invocationsOf, List.filter_append]

/-- Commands outside the loop table realise no invocation. -/
theorem realizes_of_tableFrame {ctx ctx' : SessionCtx D} (hm : Measuring ctx')
    (h : TableFrame ctx ctx') : Realizes ctx ctx' ctx'.currentHash [] (fun _ => 0) where
  measuring := hm
  loopDepth := h.loopDepth
  currentHash := rfl
  ids := ids_of_live h.live
  whileOpen := by
    intro loopId rec hrec _
    simpa [lookup_of_live h.live] using hrec
  whileClosed := by
    intro loopId hclosed
    refine ⟨?_, by rw [lookup_of_live h.live]; rfl⟩
    intro rec hrec
    exact hclosed rec (lookup_of_live h.live loopId ▸ hrec)

theorem realizes_iteration {ctx : SessionCtx D} {loopId : UInt64} (hnodup : ctx.ids.Nodup)
    (hm : Measuring (cmdLoopIteration ctx loopId).2) :
    Realizes ctx (cmdLoopIteration ctx loopId).2 ctx.currentHash []
      (fun loopId' => if Leaf.iteration loopId = .iteration loopId' then 1 else 0) := by
  rcases iteration_spec hnodup loopId with ⟨_, hdepth, hids, hlookup⟩
  refine ⟨hm, hdepth, (frame_iteration ctx loopId).currentHash, hids, ?_, ?_⟩
  · intro loopId' rec hrec hactive
    rw [hlookup, hrec]
    by_cases hid : loopId' = loopId
    · simp [LoopRecord.iteratedIf, LoopRecord.iterated, hid, hactive]
    · have hid' : ¬ loopId = loopId' := fun h => hid h.symm
      simp [LoopRecord.iteratedIf, hid, hid']
  · intro loopId' hclosed
    -- A closed record does not count.
    have hstay : (cmdLoopIteration ctx loopId).2.lookup loopId' = ctx.lookup loopId' := by
      rw [hlookup]
      cases hrec : ctx.lookup loopId' with
      | none => rfl
      | some rec => simp [LoopRecord.iteratedIf, hclosed rec hrec]
    refine ⟨?_, by rw [hstay]; rfl⟩
    intro rec hrec
    exact hclosed rec (hstay ▸ hrec)

theorem realizes_leaf {ctx : SessionCtx D} (hm : Measuring ctx) (hnodup : ctx.ids.Nodup)
    (a : Leaf) :
    (a.toEvent.isCall = false → (handle H ctx a.toEvent).1 = .success) ∧
      Realizes ctx (handle H ctx a.toEvent).2 (measureLeaf H ctx.currentHash a) []
        (fun loopId => if a = .iteration loopId then 1 else 0) := by
  have hm' := measuring_handle (H := H) hm a.toEvent
  cases a with
  | node nodeId =>
      rcases cmdRecordNode_of_initialized (H := H) hm.initialized nodeId with ⟨hres, hhash⟩
      have hreal := realizes_of_tableFrame hm' (tableFrame_recordNode (H := H) ctx nodeId)
      refine ⟨fun _ => hres, ?_⟩
      simpa [Leaf.toEvent, handle, hhash, measureLeaf, Leaf.node?] using hreal
  | iteration loopId =>
      exact ⟨fun _ => (iteration_spec hnodup loopId).1, realizes_iteration hnodup hm'⟩
  | callEnter callId caller =>
      have hreal := realizes_of_tableFrame hm' (tableFrame_callEnter ctx callId caller)
      refine ⟨fun h => by simp [Leaf.toEvent, Event.isCall] at h, ?_⟩
      simpa [Leaf.toEvent, handle, measureLeaf, Leaf.node?] using hreal
  | callReturn callId =>
      have hreal := realizes_of_tableFrame hm' (tableFrame_callReturn ctx callId)
      refine ⟨fun h => by simp [Leaf.toEvent, Event.isCall] at h, ?_⟩
      simpa [Leaf.toEvent, handle, measureLeaf, Leaf.node?] using hreal

/-- A loop around a body: the enclosing measurement is restored, and the loop's record shows the
body. -/
theorem realizes_loop {ctx c₁ c₂ c₃ : SessionCtx D} {loopId : UInt64} {rec rec₂ : LoopRecord D}
    {hash : D} {invs : List (Invocation D)} {iters : UInt64 → Nat} (hclosed : ctx.IsClosed loopId)
    (henter : Entered H ctx c₁ loopId rec) (hbody : Realizes c₁ c₂ hash invs iters)
    (hfresh : loopId ∉ invs.map (·.loopId)) (hexit : Exited c₂ c₃ loopId rec₂)
    (hrec₂ : c₂.lookup loopId = some rec₂) (hm : Measuring c₃) :
    Realizes ctx c₃ ctx.currentHash (⟨loopId, ctx.currentHash, hash, iters loopId⟩ :: invs)
      iters := by
  have hgrown := hbody.whileOpen henter.record henter.isActive
  rw [hrec₂] at hgrown
  -- While the loop is open its record only gains iterations.
  rcases Option.some.inj hgrown with rfl
  refine ⟨hm, ?_, ?_, ?_, ?_, ?_⟩
  · calc
      c₃.loopDepth = c₂.loopDepth - 1 := hexit.loopDepth
      _ = ctx.loopDepth + 1 - 1 := by rw [hbody.loopDepth, henter.loopDepth]
      _ = ctx.loopDepth := Int.add_sub_cancel _ _
  · rw [hexit.currentHash]
    exact henter.preLoopHash
  · rw [hexit.ids, hbody.ids, henter.ids]
    rfl
  · intro loopId' rec' hrec' hactive
    -- An active loop is another one than the loop just entered.
    have hne : loopId' ≠ loopId := by
      rintro rfl
      simp [hclosed rec' hrec'] at hactive
    rw [hexit.others _ hne]
    exact hbody.whileOpen ((henter.others _ hne).trans hrec') hactive
  · intro loopId' hclosed'
    by_cases hid : loopId' = loopId
    · subst hid
      -- The loop does not occur in its own body, so this invocation is all there is.
      have hnone : invocationsOf invs loopId' = [] := by
        simpa [invocationsOf] using hfresh
      have hkey : rec.loopId = loopId' := key_of_lookup henter.record
      refine ⟨?_, ?_⟩
      · intro rec' hrec'
        rw [hexit.record] at hrec'
        rw [← Option.some.inj hrec']
        rfl
      · have hown : invocationsOf (⟨loopId', ctx.currentHash, hash, iters loopId'⟩ :: invs)
            loopId' = [⟨loopId', ctx.currentHash, hash, iters loopId'⟩] := by
          rw [← hnone]
          simp [invocationsOf]
        rw [hexit.record, hown]
        simp [LoopRecord.closed, LoopRecord.toReport, Invocation.recorded, hkey,
          henter.preLoopHash, henter.iterationCount, henter.invocationCount, hbody.currentHash,
          Function.comp_def]
    · have hown : invocationsOf (⟨loopId, ctx.currentHash, hash, iters loopId⟩ :: invs) loopId' =
          invocationsOf invs loopId' := by
        have hid' : ¬ loopId = loopId' := fun h => hid h.symm
        simp [invocationsOf, hid']
      -- Entry and exit touch no record of another loop.
      have hclosed₁ : c₁.IsClosed loopId' := by
        intro rec' hrec'
        exact hclosed' rec' ((henter.others _ hid).symm.trans hrec')
      rcases hbody.whileClosed hclosed₁ with ⟨hclosed₂, hlookup₂⟩
      refine ⟨?_, ?_⟩
      · intro rec' hrec'
        exact hclosed₂ rec' ((hexit.others _ hid).symm.trans hrec')
      · rw [hexit.others _ hid, hlookup₂, henter.others _ hid, hown]

/-- The traces that the loop table can hold: no loop inside its own body, at most 16 loops open at
a time, at most 64 loop ids. -/
structure WithinLimits (t : Trace) : Prop where
  nonReentrant : t.NonReentrant
  depth_le : t.depth ≤ 16
  ids_le : t.keys.eraseDups.length ≤ 64

/-- A trace fits a context: none of its loops is entered while active, and there is room. -/
structure Fits (ctx : SessionCtx D) (t : Trace) : Prop where
  measuring : Measuring ctx
  nodup : ctx.ids.Nodup
  closed : ∀ loopId ∈ t.keys, ctx.IsClosed loopId
  nonReentrant : t.NonReentrant
  depth : ctx.loopDepth + t.depth ≤ 16
  room : (addKeys ctx.ids t.keys).length ≤ 64

/-- What follows a realised part still fits. -/
theorem Fits.after {ctx ctx' : SessionCtx D} {hash : D} {invs : List (Invocation D)}
    {iters : UInt64 → Nat} {rest : Trace} (hreal : Realizes ctx ctx' hash invs iters)
    (hnodup : ctx.ids.Nodup) (hclosed : ∀ loopId ∈ rest.keys, ctx.IsClosed loopId)
    (hnr : rest.NonReentrant) (hdepth : ctx.loopDepth + rest.depth ≤ 16)
    (hroom : (addKeys ctx.ids (invs.map (·.loopId) ++ rest.keys)).length ≤ 64) :
    Fits ctx' rest where
  measuring := hreal.measuring
  nodup := by
    rw [hreal.ids]
    exact nodup_addKeys hnodup _
  closed := fun loopId hid => (hreal.whileClosed (hclosed loopId hid)).1
  nonReentrant := hnr
  depth := by rw [hreal.loopDepth]; exact hdepth
  room := by rw [hreal.ids, ← addKeys_append]; exact hroom

theorem fits_body {ctx c₁ : SessionCtx D} {loopId : UInt64} {rec : LoopRecord D}
    {body rest : Trace} (h : Fits ctx (.loop loopId body rest))
    (henter : Entered H ctx c₁ loopId rec) (hm : Measuring c₁) : Fits c₁ body where
  measuring := hm
  nodup := by
    rw [henter.ids]
    exact nodup_addKey h.nodup loopId
  closed := by
    intro loopId' hid rec' hrec'
    have hne : loopId' ≠ loopId := by
      rintro rfl
      exact h.nonReentrant.1 hid
    have hmem : loopId' ∈ Nest.keys (.loop loopId body rest) := by simp [Nest.keys, hid]
    exact h.closed loopId' hmem rec' ((henter.others _ hne).symm.trans hrec')
  nonReentrant := h.nonReentrant.2.1
  depth := by
    have hdepth := h.depth
    simp only [Nest.depth] at hdepth
    rw [henter.loopDepth]
    omega
  room := by
    have hroom := h.room
    simp only [Nest.keys, addKeys_cons, addKeys_append] at hroom
    rw [henter.ids]
    exact Nat.le_trans (length_le_addKeys _ _) hroom

/-- A reply is a success unless its event is a call event. -/
def Accepted (e : Event) (res : TeeResult) : Prop := e.isCall = false → res = .success

/-- The simulation: the flat run of a trace realises its structured measurement, and every loop
and node event is accepted.  The induction follows the trace; at a loop the record of the loop is
carried through the body by `whileOpen`. -/
theorem realizes_events (t : Trace) : ∀ {ctx : SessionCtx D}, Fits ctx t →
    List.Forall₂ Accepted t.events (Machine.replies (handle H) ctx t.events) ∧
      Realizes ctx (Machine.run (handle H) ctx t.events) (measureFrom H ctx.currentHash t)
        (invocations H ctx.currentHash t) (fun loopId => t.iterations loopId) := by
  induction t with
  | nil =>
      intro ctx hfits
      exact ⟨List.Forall₂.nil, Realizes.refl hfits.measuring⟩
  | leaf a rest ih =>
      intro ctx hfits
      rcases realizes_leaf (H := H) hfits.measuring hfits.nodup a with ⟨hres, hleaf⟩
      have hafter : Fits (handle H ctx a.toEvent).2 rest :=
        Fits.after hleaf hfits.nodup hfits.closed hfits.nonReentrant hfits.depth hfits.room
      rcases ih hafter with ⟨hreplies, hrest⟩
      refine ⟨List.Forall₂.cons hres hreplies, ?_⟩
      have htrans := hleaf.trans hrest
      rw [hleaf.currentHash] at htrans
      simpa [invocations] using htrans
  | loop loopId body rest ihb ihr =>
      intro ctx hfits
      have hclosed : ctx.IsClosed loopId := hfits.closed loopId (by simp [Nest.keys])
      have hdepth := hfits.depth
      have hroom := hfits.room
      simp only [Nest.depth] at hdepth
      simp only [Nest.keys, addKeys_cons] at hroom
      -- Entering.
      obtain ⟨c₁, rec, henter_eq, henter⟩ := enter_spec (H := H) hfits.measuring hclosed (by omega)
        (Nat.le_trans (length_le_addKeys _ _) hroom)
      have hm₁ := measuring_handle (H := H) hfits.measuring (.loopEnter loopId)
      simp only [handle, henter_eq] at hm₁
      -- The body.
      rcases ihb (fits_body hfits henter hm₁) with ⟨hreplies_body, hbody⟩
      have hrec₂ := hbody.whileOpen henter.record henter.isActive
      -- Leaving.
      have hnodup₂ : (Machine.run (handle H) c₁ (Trace.events body)).ids.Nodup := by
        rw [hbody.ids, henter.ids]
        exact nodup_addKeys (nodup_addKey hfits.nodup loopId) _
      rcases exit_spec hbody.measuring hnodup₂ hrec₂ henter.isActive with ⟨c₃, hexit_eq, hexit⟩
      have hm₃ := measuring_handle (H := H) hbody.measuring (.loopExit loopId)
      simp only [handle, hexit_eq] at hm₃
      have hfresh : loopId ∉ (invocations H c₁.currentHash body).map (·.loopId) := by
        rw [loopIds_invocations]
        exact hfits.nonReentrant.1
      have hloop := realizes_loop hclosed henter hbody hfresh hexit hrec₂ hm₃
      -- The rest.
      have hafter : Fits c₃ rest := by
        refine Fits.after hloop hfits.nodup (fun loopId' hid => ?_) hfits.nonReentrant.2.2
          (by omega) ?_
        · exact hfits.closed loopId' (by simp [Nest.keys, hid])
        · simpa [loopIds_invocations, Nest.keys] using hfits.room
      rcases ihr hafter with ⟨hreplies_rest, hrest⟩
      have htrans := hloop.trans hrest
      rw [hloop.currentHash] at htrans
      constructor
      · simp only [Trace.events_loop, Machine.replies_cons, Machine.replies_append, handle,
          henter_eq, hexit_eq]
        refine List.Forall₂.cons (fun _ => rfl) (List.rel_append hreplies_body ?_)
        exact List.Forall₂.cons (fun _ => rfl) hreplies_rest
      · simp only [Trace.events_loop, Machine.run_cons, Machine.run_append, handle, henter_eq,
          hexit_eq]
        simpa [invocations, henter.currentHash] using htrans

/-- An empty table fits every trace within the limits. -/
theorem fits_init {t : Trace} (ht : WithinLimits t) (handle : Handle) (ctx : SessionCtx D) :
    Fits (cmdInit H (.ok handle) ctx).2 t := by
  rcases live_init (H := H) (.ok handle) ctx with ⟨hlive, hzero⟩
  have hnil : (cmdInit H (.ok handle) ctx).2.ids = [] := by rw [SessionCtx.ids, hlive]; rfl
  have hdepth := ht.depth_le
  refine ⟨measuring_init_ok handle ctx, ?_, ?_, ht.nonReentrant, ?_, ?_⟩
  · rw [hnil]
    exact List.nodup_nil
  · intro loopId _ rec hrec
    rw [SessionCtx.lookup, hlive] at hrec
    cases hrec
  · rw [hzero]
    omega
  · rw [hnil, addKeys_nil_left]
    exact ht.ids_le

/-- After a CMD_INIT the live records show the structured report. -/
theorem measured_of_realizes {ctx : SessionCtx D} {t : Trace} {iters : UInt64 → Nat}
    (handle : Handle) (c₀ : SessionCtx D)
    (h : Realizes (cmdInit H (.ok handle) c₀).2 ctx (measureFrom H H.zero t)
      (invocations H H.zero t) iters) : ctx.measured = structuredReport H t := by
  rcases live_init (H := H) (.ok handle) c₀ with ⟨hlive, _⟩
  have hnone : ∀ loopId, (cmdInit H (.ok handle) c₀).2.lookup loopId = none := by
    intro loopId
    rw [SessionCtx.lookup, hlive]
    rfl
  have hempty : (cmdInit H (.ok handle) c₀).2.ids = [] := by
    rw [SessionCtx.ids, hlive]
    rfl
  have hids : ctx.ids = t.keys.eraseDups := by
    calc
      ctx.ids = addKeys [] ((invocations H H.zero t).map (·.loopId)) := by rw [h.ids, hempty]
      _ = addKeys [] t.keys := by rw [loopIds_invocations]
      _ = t.keys.eraseDups := addKeys_nil_left t.keys
  have hnodup : ctx.ids.Nodup := by
    rw [hids, ← addKeys_nil_left]
    exact nodup_addKeys List.nodup_nil _
  have hloops : ctx.live.map LoopRecord.toReport =
      ctx.ids.map (recordOf H (invocations H H.zero t)) := by
    apply map_eq_map_keys hnodup
    intro loopId rec hrec
    have hclosed : (cmdInit H (.ok handle) c₀).2.IsClosed loopId := by
      intro rec' hrec'
      rw [hnone] at hrec'
      cases hrec'
    -- From an empty table the record is the summary of all invocations.
    have hsummary := (h.whileClosed hclosed).2
    have hrec' : ctx.lookup loopId = some rec := hrec
    rw [hnone, hrec', Option.map_some, Option.map_none] at hsummary
    have hne : invocationsOf (invocations H H.zero t) loopId ≠ [] := by
      intro hnil
      rw [hnil] at hsummary
      cases hsummary
    have hown : ∀ inv ∈ invocationsOf (invocations H H.zero t) loopId, inv.loopId = loopId := by
      intro inv hinv
      simpa using (List.mem_filter.1 hinv).2
    rw [summary_none (H := H) hne hown] at hsummary
    exact Option.some.inj hsummary
  rw [SessionCtx.measured, hloops, h.currentHash, hids]
  rfl

/-- The report that a cycle over a trace takes, as data. -/
theorem cycleReport_eq {t : Trace} (ht : WithinLimits t) (ctx : SessionCtx D) (handle : Handle) :
    cycleReport H ctx handle t.events = structuredReport H t := by
  rcases realizes_events t (fits_init (H := H) ht handle ctx) with ⟨_, hreal⟩
  have hzero : (cmdInit H (.ok handle) ctx).2.currentHash = H.zero := by rw [cmdInit_ok]
  rw [hzero] at hreal
  exact measured_of_realizes handle ctx hreal

/-- After a successful CMD_INIT, the flat events of a trace within the limits are all accepted,
and a CMD_FINALIZE takes the structured report of the trace. -/
theorem cycle_refines_structure (H : Sha256 D) (ctx : SessionCtx D) (handle : Handle) (t : Trace)
    (ht : WithinLimits t) :
    List.Forall₂ (fun e reply => e.isCall = false → reply.result = .success) t.events
        ((exec H).replies (cmdInit H (.ok handle) ctx).2 (t.events.map .event)) ∧
      ((exec H).run ctx (cycle handle t.events)).report = (structuredReport H t).encode H := by
  constructor
  · rw [replies_events, List.forall₂_map_right_iff]
    exact (realizes_events t (fits_init ht handle ctx)).1
  · rw [report_cycle, cycleReport_eq ht]

/-- A nested trace with a repeated loop: `1; L7 { 2; L8 { 3 } }; L7 { 4 }`. -/
def nestedTrace : Trace :=
  .leaf (.node 1) (.loop 7 (.leaf (.node 2) (.loop 8 (.leaf (.node 3) .nil) .nil))
    (.loop 7 (.leaf (.iteration 7) (.leaf (.node 4) .nil)) .nil))

theorem cycle_refines_structure_nested :
    List.Forall₂ (fun e reply => e.isCall = false → reply.result = .success) nestedTrace.events
        ((exec (Sha256.ofBytes onesSha)).replies (cmdInit (Sha256.ofBytes onesSha) (.ok 1)
          (taOpenSessionEntryPoint (Sha256.ofBytes onesSha))).2 (nestedTrace.events.map .event)) ∧
      ((exec (Sha256.ofBytes onesSha)).run (taOpenSessionEntryPoint (Sha256.ofBytes onesSha))
        (cycle 1 nestedTrace.events)).report =
          (structuredReport (Sha256.ofBytes onesSha) nestedTrace).encode
            (Sha256.ofBytes onesSha) :=
  cycle_refines_structure (Sha256.ofBytes onesSha)
    (taOpenSessionEntryPoint (Sha256.ofBytes onesSha)) 1 nestedTrace
    ⟨by decide, by decide, by decide⟩

end SecureWorld
end CFlat
