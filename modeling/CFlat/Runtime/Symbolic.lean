import CFlat.Runtime.Attestation
import CFlat.Runtime.Recorder
import CFlat.Runtime.Separation
import CFlat.SecureWorld.Symbolic

/-!
# Symbolic — what the attestations of a run stand for

The runtime beside a symbolic session: what it fetches is then a symbolic report for each
attestation.  `attestations_symbolic` says that the attestations of every run are the serialised
ones, whatever hooks it calls and whatever the TEE loses or refuses; by `same_attested_symbols` two
runs fetch the same attestations only if they have the same symbolic ones, or SHA-256 fails, and
print the same only if these agree but for the hashes of loops.  A run of which no report shows a
loop reports the ids of the recorder, also if it has called the hooks of loops
(`symbolicAttestations_eq_recorded`).
-/

namespace CFlat
namespace Runtime

open Lib SecureWorld

variable {D : Type} {H : Sha256 D} {client : Client D} {link : Link D}
  {sym : Link (List UInt64)}

/-! ## The symbolic runtime -/

/-- The symbolic report that a call of an initialised runtime fetches. -/
def Link.printed (sym : Link (List UInt64)) (call : Call) : Option (Report (List UInt64)) :=
  if call.prints then some sym.ctx.measured else none

theorem Link.printed_eq_some {call : Call} {rep : Report (List UInt64)}
    (h : sym.printed call = some rep) :
    call.action = .finalizeAndPrint ∧ rep = sym.ctx.measured := by
  rw [Link.printed] at h
  split at h
  · rename_i hprints
    simp only [Call.prints, Bool.and_eq_true, beq_iff_eq] at hprints
    exact ⟨hprints.1.1, (Option.some.inj h).symm⟩
  · cases h

/-- The runtime, once its first hook has opened a session, is its link. -/
def symbolicRuntime : Machine (Option (Link (List UInt64))) Call (Option (Report (List UInt64))) :=
  fun state call =>
    match state with
    | some sym => (sym.printed call, some (linkExec Sha256.free sym call).2)
    | none =>
        match call.action with
        | .hook _ =>
            if call.env.opens then
              (none, some (linkExec Sha256.free ⟨false, (cmdInit Sha256.free call.env.initAlloc
                (taOpenSessionEntryPoint Sha256.free)).2⟩ call).2)
            else (none, none)
        | _ => (none, none)

/-- The symbolic attestations of a run. -/
def symbolicAttestations (calls : List Call) : List (Report (List UInt64)) :=
  (symbolicRuntime.replies none calls).reduceOption

/-! ## One call -/

/-- The bytes of an attestation behind a symbolic one. -/
def attestedBytes (H : Sha256 D) (rep : Report (List UInt64)) : List UInt8 :=
  (rep.map (chain H.digest H.zero)).encode H

variable (H) in
/-- A link and the symbolic one that stands for it. -/
structure LinkStandsFor (link : Link D) (sym : Link (List UInt64)) : Prop where
  pending : link.pending = sym.pending
  ctx : StandsFor H link.ctx sym.ctx

theorem LinkStandsFor.prepare (h : LinkStandsFor H link sym) (e : Event) (env : Env) :
    LinkStandsFor H (link.prepare H e env) (sym.prepare Sha256.free e env) := by
  have hinit : StandsFor H (cmdInit H env.reinitAlloc link.ctx).2
      (cmdInit Sha256.free env.reinitAlloc sym.ctx).2 :=
    (StandsFor.exec h.ctx (.init env.reinitAlloc)).2
  simp only [Link.prepare]
  split
  · refine ⟨rfl, ?_⟩
    simp only [Link.reinit, h.pending]
    split
    · exact hinit
    · exact h.ctx
  · exact h

/-- The step lemma of an initialised runtime. -/
theorem LinkStandsFor.step (h : LinkStandsFor H link sym) (call : Call) :
    (linkExec H link call).1 = (sym.printed call).map (attestedBytes H) ∧
      LinkStandsFor H (linkExec H link call).2 (linkExec Sha256.free sym call).2 := by
  rcases call with ⟨action, env⟩
  cases action with
  | cleanup => exact ⟨rfl, h⟩
  | hook e =>
      have hprepared := h.prepare e env
      have hevent : StandsFor H (handle H (link.prepare H e env).ctx e).2
          (handle Sha256.free (sym.prepare Sha256.free e env).ctx e).2 :=
        (StandsFor.exec hprepared.ctx (.event e)).2
      refine ⟨rfl, ?_⟩
      simp only [linkExec]
      split
      · exact ⟨hprepared.pending, hevent⟩
      · exact hprepared
  | finalizeAndPrint =>
      -- The report is the one that the session has measured when the command arrives.
      have hfinalize : StandsFor H (cmdFinalize H link.ctx).2 (cmdFinalize Sha256.free sym.ctx).2 :=
        (StandsFor.exec h.ctx .finalize).2
      have hreport : (cmdFinalize H link.ctx).2.report = attestedBytes H sym.ctx.measured :=
        StandsFor.report h.ctx
      simp only [linkExec, Link.finalize, Link.printed, Call.prints, BEq.rfl, Bool.true_and,
        Bool.and_eq_true, beq_iff_eq]
      by_cases hprints : env.command = .delivered ∧ env.getAuth = .delivered
      · have harrives : env.command.arrives = true := by rw [hprints.1]; rfl
        rw [if_pos harrives, if_pos harrives, if_pos hprints, if_pos hprints, if_pos hprints]
        exact ⟨congrArg some hreport, rfl, hfinalize⟩
      · rw [if_neg hprints, if_neg hprints, if_neg hprints]
        split
        · exact ⟨rfl, h.pending, hfinalize⟩
        · exact ⟨rfl, h⟩

/-! ## Runs -/

variable (H) in
/-- A client and what the symbolic runtime is beside it. -/
inductive Behind (client : Client D) : Option (Link (List UInt64)) → Prop
  | idle (initialized : client.initialized = false) (needsReinit : client.needsReinit = false) :
      Behind client none
  | linked {link : Link D} {sym : Link (List UInt64)} (linked : Linked client link)
      (stands : LinkStandsFor H link sym) : Behind client (some sym)

/-- The session that the first hook opens. -/
theorem sess_ensureInit {env : Env} (hinit : client.initialized = false)
    (hopens : env.opens = true) :
    (ensureInit H env client).2.sess =
      some (cmdInit H env.initAlloc (taOpenSessionEntryPoint H)).2 := by
  rcases env with ⟨context, session, init, initAlloc, _, _, _, _⟩
  simp only [Env.opens, Bool.and_eq_true, beq_iff_eq] at hopens
  rcases hopens with ⟨⟨⟨rfl, rfl⟩, rfl⟩, hsucceeds⟩
  cases initAlloc with
  | fail err clears => cases hsucceeds
  | ok handle => simp [ensureInit, hinit, teecInvokeCommand, dispatch_init, cmdInit_ok]

theorem Behind.step_idle {call : Call} (hcall : call.isMeasurement = true)
    (hinit : client.initialized = false) (hneeds : client.needsReinit = false) :
    (runtime H client call).1.auth? =
        (symbolicRuntime none call).1.map (attestedBytes H) ∧
      Behind H (runtime H client call).2 (symbolicRuntime none call).2 := by
  rcases call with ⟨action, env⟩
  cases action with
  | cleanup => cases hcall
  | finalizeAndPrint =>
      rw [runtime_uninitialized hinit (by simp)]
      exact ⟨by simp [runtime, cflatFinalizeAndPrint, hinit, Output.auth?, symbolicRuntime],
        .idle hinit hneeds⟩
  | hook e =>
      have hcase := ensureInit_case (H := H) client env hinit
      generalize hout : ensureInit H env client = out at hcase
      cases hcase with
      | @failed out client' cause quiet initialized needsReinit =>
          have hclosed : env.opens = false := by
            rw [← Bool.not_eq_true, opens_iff]
            exact cause
          simp only [runtime, hook_eq, invokeHook, hout, symbolicRuntime, hclosed,
            Bool.false_eq_true, if_false]
          exact ⟨quiet, .idle initialized (needsReinit.trans hneeds)⟩
      | @opened client' handle opens linked =>
          -- The hook acts on the link of a fresh session.
          have hopens := (opens_iff env).2 opens
          have hsess := sess_ensureInit (H := H) hinit hopens
          rw [hout, linked.sess] at hsess
          have hfresh : LinkStandsFor H
              ⟨client.needsReinit, (cmdInit H (.ok handle) (taOpenSessionEntryPoint H)).2⟩
              ⟨false, (cmdInit Sha256.free env.initAlloc
                (taOpenSessionEntryPoint Sha256.free)).2⟩ := by
            refine ⟨hneeds, ?_⟩
            rw [Option.some.inj hsess]
            exact (StandsFor.exec standsFor_open (.init env.initAlloc)).2
          have hstep : runtime H client ⟨.hook e, env⟩ = runtime H client' ⟨.hook e, env⟩ :=
            hook_of_ensureInit e hout linked.initialized
          rcases linked_step (H := H) hcall linked with ⟨hreply, hlinked⟩
          simp only [hstep, hreply, symbolicRuntime, hopens, if_true]
          exact ⟨rfl, .linked hlinked (hfresh.step ⟨.hook e, env⟩).2⟩

/-- The step lemma. -/
theorem Behind.step {state : Option (Link (List UInt64))} {call : Call}
    (hcall : call.isMeasurement = true) (h : Behind H client state) :
    (runtime H client call).1.auth? = (symbolicRuntime state call).1.map (attestedBytes H) ∧
      Behind H (runtime H client call).2 (symbolicRuntime state call).2 := by
  cases h with
  | idle initialized needsReinit => exact Behind.step_idle hcall initialized needsReinit
  | linked linked stands =>
      rcases linked_step (H := H) hcall linked with ⟨hreply, hlinked⟩
      rcases stands.step call with ⟨hprinted, hnext⟩
      exact ⟨hreply.trans hprinted, .linked hlinked hnext⟩

/-- The run lemma. -/
theorem Behind.run {state : Option (Link (List UInt64))} {calls : List Call}
    (hcalls : ∀ call ∈ calls, call.isMeasurement = true) (h : Behind H client state) :
    attestations H client calls =
      ((symbolicRuntime.replies state calls).reduceOption).map (attestedBytes H) := by
  induction calls generalizing client state with
  | nil => rfl
  | cons call calls ih =>
      rcases h.step (hcalls call (by simp)) with ⟨hreply, hstep⟩
      have hrest := ih (fun call' hcall' => hcalls call' (by simp [hcall'])) hstep
      rw [attestations] at hrest ⊢
      rw [Machine.replies_cons, Machine.replies_cons, List.filterMap_cons, hreply, hrest]
      cases (symbolicRuntime state call).1 <;> rfl

/-- The attestations of a run are the symbolic ones with their ids hashed, whatever hooks the run
calls and whatever the TEE loses or refuses. -/
theorem attestations_symbolic (H : Sha256 D) (calls : List Call)
    (hcalls : ∀ call ∈ calls, call.isMeasurement = true) :
    attestations H .start calls = (symbolicAttestations calls).map (attestedBytes H) :=
  Behind.run hcalls (.idle rfl rfl)

/-- A report that is lost, and the loop that it has closed. -/
def lostReport : List Call :=
  [.reliable (.hook (.loopEnter 7)), .reliable (.hook (.recordNode 1)),
    ⟨.finalizeAndPrint, { Env.reliable with getAuth := .lost }⟩,
    .reliable (.hook (.recordNode 2)), .reliable .finalizeAndPrint]

theorem attestations_symbolic_lostReport :
    symbolicAttestations lostReport = [⟨[7, 1, 2], [⟨7, [], [], 0, 1⟩]⟩] ∧
      attestations Sha256.free .start lostReport =
        (symbolicAttestations lostReport).map (attestedBytes Sha256.free) :=
  ⟨by decide +kernel, attestations_symbolic Sha256.free lostReport (by decide)⟩

/-- What is hashed for these attestations. -/
def hashedForAll (sha : List UInt8 → Digest) (reps : List (Report (List UInt64))) :
    List (List UInt8) :=
  reps.flatMap (Report.hashInputs sha)

/-- Reports with the same bytes stand for the same symbolic ones. -/
theorem reports_eq_or_shaFails (sha : List UInt8 → Digest)
    {reps₁ reps₂ : List (Report (List UInt64))}
    (h : reps₁.map (attestedBytes (Sha256.ofBytes sha)) =
      reps₂.map (attestedBytes (Sha256.ofBytes sha))) :
    reps₁ = reps₂ ∨ ShaFails sha (hashedForAll sha reps₁) (hashedForAll sha reps₂) := by
  by_cases hfails : ShaFails sha (hashedForAll sha reps₁) (hashedForAll sha reps₂)
  · exact .inr hfails
  left
  refine eq_of_map_eq (fun rep₁ hmem₁ rep₂ hmem₂ hrep => ?_) h
  have hreport := encode_injective (H := Sha256.ofBytes sha) Function.injective_id hrep
  refine (symbols_eq_or_shaFails sha hreport).resolve_right fun hrep => hfails (hrep.mono ?_ ?_)
  · exact fun x hx => List.mem_flatMap.2 ⟨rep₁, hmem₁, hx⟩
  · exact fun x hx => List.mem_flatMap.2 ⟨rep₂, hmem₂, hx⟩

/-! ## What is printed of the attestations -/

variable (H) in
/-- What a run prints of the attestations that it fetches. -/
def printed (client : Client D) (calls : List Call) : List (Option Printed) :=
  (attestations H client calls).map fun auth => printAttestation? auth auth.length

variable (H) in
/-- What is printed of the attestation behind a symbolic one. -/
def printedOf (rep : Report (List UInt64)) : Printed :=
  .ofReport H (rep.map (chain H.digest H.zero))

/-- A report that is fetched is printed. -/
theorem Behind.parsed {state : Option (Link (List UInt64))} {call : Call}
    (hcall : call.isMeasurement = true) (h : Behind H client state)
    {rep : Report (List UInt64)} (hrep : (symbolicRuntime state call).1 = some rep) :
    printAttestation? (attestedBytes H rep) (attestedBytes H rep).length =
      some (printedOf H rep) := by
  have hreply := (h.step hcall).1
  rw [hrep, Option.map_some] at hreply
  rcases call with ⟨action, env⟩
  cases h with
  | idle _ _ =>
      -- Without a session no call has a report.
      cases action with
      | finalizeAndPrint => cases hrep
      | cleanup => cases hrep
      | hook e =>
          simp only [symbolicRuntime] at hrep
          split at hrep <;> cases hrep
  | @linked link sym linked stands =>
      rcases Link.printed_eq_some hrep with ⟨haction, rfl⟩
      obtain rfl : action = .finalizeAndPrint := haction
      rw [printed_of_linked env linked hreply, stands.ctx.measured_eq]
      rfl

/-- What is printed of the attestations of a run, by its symbolic ones. -/
theorem Behind.printed {state : Option (Link (List UInt64))} {calls : List Call}
    (hcalls : ∀ call ∈ calls, call.isMeasurement = true) (h : Behind H client state) :
    printed H client calls =
      ((symbolicRuntime.replies state calls).reduceOption).map fun rep =>
        some (printedOf H rep) := by
  induction calls generalizing client state with
  | nil => rfl
  | cons call calls ih =>
      have hcall := hcalls call List.mem_cons_self
      rcases h.step hcall with ⟨hreply, hstep⟩
      have hrest := ih (fun call' hcall' => hcalls call' (List.mem_cons_of_mem _ hcall')) hstep
      rw [Runtime.printed, attestations] at hrest ⊢
      rw [Machine.replies_cons, Machine.replies_cons, List.filterMap_cons, hreply]
      cases hrep : (symbolicRuntime state call).1 with
      | none => exact hrest
      | some rep =>
          rw [List.reduceOption_cons_of_some, List.map_cons, ← hrest, ← h.parsed hcall hrep]
          rfl

/-- The part of a symbolic report that is printed: neither of the hashes of a loop. -/
def printedPart (rep : Report (List UInt64)) : List UInt64 × List LoopLine :=
  (rep.finalHash, rep.loops.map LoopLine.ofReport)

/-- What is hashed for the parts that are printed. -/
def hashedForPrinted (sha : List UInt8 → Digest) (reps : List (Report (List UInt64))) :
    List (List UInt8) :=
  reps.flatMap fun rep => hashedIn sha rep.finalHash

/-- A line shows no hash. -/
theorem lines_map (f : List UInt64 → D) (rep : Report (List UInt64)) :
    (rep.map f).loops.map LoopLine.ofReport = rep.loops.map LoopLine.ofReport := by
  rw [Report.map, List.map_map]
  rfl

/-- What is printed determines the ids behind the final hashes, and the lines of the loops. -/
theorem printedParts_eq_or_shaFails (sha : List UInt8 → Digest)
    {reps₁ reps₂ : List (Report (List UInt64))}
    (h : (reps₁.map fun rep => some (printedOf (Sha256.ofBytes sha) rep)) =
      reps₂.map fun rep => some (printedOf (Sha256.ofBytes sha) rep)) :
    reps₁.map printedPart = reps₂.map printedPart ∨
      ShaFails sha (hashedForPrinted sha reps₁) (hashedForPrinted sha reps₂) := by
  by_cases hfails : ShaFails sha (hashedForPrinted sha reps₁) (hashedForPrinted sha reps₂)
  · exact .inr hfails
  left
  induction reps₁ generalizing reps₂ with
  | nil =>
      obtain rfl : reps₂ = [] := List.map_eq_nil_iff.1 h.symm
      rfl
  | cons rep₁ reps₁ ih =>
      cases reps₂ with
      | nil => cases h
      | cons rep₂ reps₂ =>
          rcases List.cons.inj h with ⟨hrep, hreps⟩
          rcases Printed.mk.inj (Option.some.inj hrep) with ⟨hfinal, _, hlines⟩
          have hids : rep₁.finalHash = rep₂.finalHash := by
            refine (eq_or_shaFails sha (Vector.toList_inj.1 hfinal)).resolve_right fun hids => ?_
            exact hfails (hids.mono (fun x hx => List.mem_append_left _ hx)
              fun x hx => List.mem_append_left _ hx)
          rw [lines_map, lines_map] at hlines
          have hrest := ih hreps fun hreps => hfails (hreps.mono
            (fun x hx => List.mem_append_right _ hx) fun x hx => List.mem_append_right _ hx)
          rw [List.map_cons, List.map_cons, hrest, printedPart, printedPart, hids, hlines]

/-- Two runs, whatever hooks they call and whatever happens to their commands.  If they fetch the
same report bytes they have the same symbolic attestations, unless SHA-256 fails on what was hashed
for them; if they only print the same, the two may differ in the hashes of loops. -/
theorem same_attested_symbols (sha : List UInt8 → Digest) {calls₁ calls₂ : List Call}
    (h₁ : ∀ call ∈ calls₁, call.isMeasurement = true)
    (h₂ : ∀ call ∈ calls₂, call.isMeasurement = true) :
    (attestations (Sha256.ofBytes sha) .start calls₁ =
        attestations (Sha256.ofBytes sha) .start calls₂ →
      symbolicAttestations calls₁ = symbolicAttestations calls₂ ∨
        ShaFails sha (hashedForAll sha (symbolicAttestations calls₁))
          (hashedForAll sha (symbolicAttestations calls₂))) ∧
      (printed (Sha256.ofBytes sha) .start calls₁ = printed (Sha256.ofBytes sha) .start calls₂ →
        (symbolicAttestations calls₁).map printedPart =
            (symbolicAttestations calls₂).map printedPart ∨
          ShaFails sha (hashedForPrinted sha (symbolicAttestations calls₁))
            (hashedForPrinted sha (symbolicAttestations calls₂))) := by
  have hstart : Behind (Sha256.ofBytes sha) .start none := .idle rfl rfl
  constructor
  · intro h
    apply reports_eq_or_shaFails sha
    exact ((hstart.run h₁).symm.trans h).trans (hstart.run h₂)
  · intro h
    rw [hstart.printed h₁, hstart.printed h₂] at h
    exact printedParts_eq_or_shaFails sha h

/-- A loop with one node in its body. -/
def loopAround (nodeId : UInt64) : List Call :=
  [.reliable (.hook (.loopEnter 7)), .reliable (.hook (.recordNode nodeId)),
    .reliable (.hook (.loopExit 7)), .reliable .finalizeAndPrint]

/-- The lost report again, without the attempt; and two loops that print the same, although their
bodies differ. -/
theorem same_attested_symbols_lostReport :
    let plain : List Call := [.reliable (.hook (.loopEnter 7)), .reliable (.hook (.recordNode 1)),
      .reliable (.hook (.recordNode 2)), .reliable .finalizeAndPrint]
    (symbolicAttestations lostReport = symbolicAttestations plain ∨
        ShaFails (fun _ => Vector.replicate 32 1)
          (hashedForAll (fun _ => Vector.replicate 32 1) (symbolicAttestations lostReport))
          (hashedForAll (fun _ => Vector.replicate 32 1) (symbolicAttestations plain))) ∧
      symbolicAttestations (loopAround 1) ≠ symbolicAttestations (loopAround 2) ∧
      ((symbolicAttestations (loopAround 1)).map printedPart =
          (symbolicAttestations (loopAround 2)).map printedPart ∨
        ShaFails (fun _ => Vector.replicate 32 1)
          (hashedForPrinted (fun _ => Vector.replicate 32 1) (symbolicAttestations (loopAround 1)))
          (hashedForPrinted (fun _ => Vector.replicate 32 1)
            (symbolicAttestations (loopAround 2)))) := by
  intro plain
  have hstart : Behind (Sha256.ofBytes fun _ => Vector.replicate 32 1) .start none :=
    .idle rfl rfl
  have hsymbols : symbolicAttestations lostReport = symbolicAttestations plain := by
    decide +kernel
  have hbody₁ : symbolicAttestations (loopAround 1) = [⟨[], [⟨7, [], [7, 1], 0, 1⟩]⟩] := by
    decide +kernel
  have hbody₂ : symbolicAttestations (loopAround 2) = [⟨[], [⟨7, [], [7, 2], 0, 1⟩]⟩] := by
    decide +kernel
  refine ⟨(same_attested_symbols _ (by decide) (by decide)).1 ?_, ?_,
    (same_attested_symbols _ (by decide) (by decide)).2 ?_⟩
  · rw [hstart.run (by decide : ∀ call ∈ lostReport, call.isMeasurement = true),
      hstart.run (by decide : ∀ call ∈ plain, call.isMeasurement = true)]
    exact congrArg (List.map _) hsymbols
  · rw [hbody₁, hbody₂]
    decide
  · rw [hstart.printed (by decide : ∀ call ∈ loopAround 1, call.isMeasurement = true),
      hstart.printed (by decide : ∀ call ∈ loopAround 2, call.isMeasurement = true)]
    change (symbolicAttestations (loopAround 1)).map _ = (symbolicAttestations (loopAround 2)).map _
    rw [hbody₁, hbody₂]
    rfl

/-! ## Runs that report no loop -/

/-- The symbolic report of a list of ids. -/
def idReport (ids : List UInt64) : Report (List UInt64) := ⟨ids, []⟩

theorem chain_free (ids : List UInt64) : chain Sha256.free.digest Sha256.free.zero ids = ids := by
  induction ids using List.reverseRecOn with
  | nil => rfl
  | append_singleton ids nodeId ih => rw [chain_concat, ih]; rfl

theorem loopCount_le_handle {ctx : SessionCtx D} (hwf : WellFormed ctx) (e : Event) :
    ctx.loopCount ≤ (handle H ctx e).2.loopCount := by
  have hcase := table_case (H := H) hwf e
  generalize (handle H ctx e).2 = ctx' at hcase ⊢
  cases hcase with
  | untouched h => exact Int.le_of_eq h.loopCount.symm
  | reopens h => exact Int.le_of_eq h.loopCount.symm
  | allocates h => rw [h.loopCount]; omega
  | closes h => exact Int.le_of_eq h.loopCount.symm
  | counts h => exact Int.le_of_eq h.loopCount.symm

/-- The first loop of a cycle is never refused. -/
theorem loopCount_firstLoop {ctx : SessionCtx D} {ids : List UInt64} (h : Holds H ctx ids)
    (loopId : UInt64) : 0 < (handle H ctx (.loopEnter loopId)).2.loopCount := by
  have hlive : ctx.live = [] := by simp [SessionCtx.live, h.loopCount]
  have hcase := cmdLoopEnter_case (H := H) h.ready.wellFormed loopId
  simp only [handle]
  generalize cmdLoopEnter H ctx loopId = out at hcase ⊢
  cases hcase with
  | refused hrefused =>
      rcases hrefused with hdepth | ⟨_, hcount⟩
      · simp [h.loopDepth, maxLoopDepth] at hdepth
      · simp [h.loopCount, maxLoopRecords] at hcount
  | reopens hreopens =>
      rcases hreopens.mem_inactive with ⟨rec, hrec, _⟩
      simp [hlive] at hrec
  | allocates hallocates =>
      rw [hallocates.loopCount, h.loopCount]
      decide

/-- A session with a loop record, and no reset due: if there is another report it shows a loop. -/
structure Marked (sym : Link (List UInt64)) : Prop where
  pending : sym.pending = false
  wellFormed : WellFormed sym.ctx
  loopCount : 0 < sym.ctx.loopCount

theorem not_delivered_of_not_prints {env : Env}
    (h : (⟨.finalizeAndPrint, env⟩ : Call).prints = false) :
    ¬ (env.command = .delivered ∧ env.getAuth = .delivered) := by
  simpa [Call.prints] using h

theorem Marked.loops_ne_nil (h : Marked sym) : sym.ctx.measured.loops ≠ [] := by
  have hlength := length_live h.wellFormed
  have hpos := h.loopCount
  intro hnil
  have hlive : sym.ctx.live = [] := List.map_eq_nil_iff.1 hnil
  rw [hlive] at hlength
  simp at hlength
  omega

theorem Marked.step (h : Marked sym) {call : Call} (hquiet : call.prints = false) :
    Marked (linkExec Sha256.free sym call).2 := by
  rcases call with ⟨action, env⟩
  cases action with
  | cleanup => exact h
  | hook e =>
      have hprepared : sym.prepare Sha256.free e env = sym := by
        rcases sym with ⟨pending, ctx⟩
        obtain rfl : pending = false := h.pending
        simp [Link.prepare, Link.reinit]
      simp only [linkExec, hprepared]
      split
      -- No event takes a record away.
      · exact ⟨h.pending, wellFormed_handle h.wellFormed e,
          Int.lt_of_lt_of_le h.loopCount (loopCount_le_handle h.wellFormed e)⟩
      · exact h
  | finalizeAndPrint =>
      simp only [linkExec, Link.finalize, if_neg (not_delivered_of_not_prints hquiet)]
      split
      · exact ⟨h.pending, h.wellFormed.of_frames rfl rfl rfl, h.loopCount⟩
      · exact h

/-- If a marked session hands out no report that shows a loop, it hands out none at all. -/
theorem Marked.silent (h : Marked sym) {calls : List Call}
    (hplain : ∀ rep ∈ (symbolicRuntime.replies (some sym) calls).reduceOption, rep.loops = []) :
    ∀ call ∈ calls, call.prints = false := by
  induction calls generalizing sym with
  | nil => simp
  | cons call calls ih =>
      rw [Machine.replies_cons] at hplain
      cases hcall : call.prints with
      -- A marked session would show its loop.
      | true =>
          have hreport : (symbolicRuntime (some sym) call).1 = some sym.ctx.measured := by
            simp [symbolicRuntime, Link.printed, hcall]
          rw [hreport, List.reduceOption_cons_of_some] at hplain
          exact absurd (hplain _ List.mem_cons_self) h.loops_ne_nil
      | false =>
          have hreport : (symbolicRuntime (some sym) call).1 = none := by
            simp [symbolicRuntime, Link.printed, hcall]
          rw [hreport, List.reduceOption_cons_of_none] at hplain
          intro call' hcall'
          rcases List.mem_cons.1 hcall' with rfl | hmem
          · exact hcall
          · exact ih (h.step hcall) hplain call' hmem

/-- One call of a session without loops: it takes the recorder's step, or it marks the session. -/
theorem LinkHolds.follow {r : Recorder} (h : LinkHolds Sha256.free sym r) (call : Call) :
    sym.printed call = (Recorder.step r call).1.map idReport ∧
      (LinkHolds Sha256.free (linkExec Sha256.free sym call).2 (Recorder.step r call).2 ∨
        Marked (linkExec Sha256.free sym call).2) := by
  have hstarted : { r with started := true } = r := by rw [← h.started]
  rcases call with ⟨action, env⟩
  cases action with
  | cleanup => exact ⟨rfl, .inl h⟩
  | finalizeAndPrint =>
      -- Without loops a symbolic session measures the list of its ids.
      have hmeasured : sym.ctx.measured = idReport r.ids := by
        rw [h.holds.measured, chainReport, chain_free, idReport]
      have hnext := (h.finalize ⟨.finalizeAndPrint, env⟩ rfl).2
      simp only [Recorder.step, h.started, if_true]
      refine ⟨?_, .inl hnext⟩
      simp only [Link.printed, Call.prints, Recorder.finalize, BEq.rfl, Bool.true_and,
        Bool.and_eq_true, beq_iff_eq, hmeasured]
      split <;> rfl
  | hook e =>
      have hstep : Recorder.step r ⟨.hook e, env⟩ = (none, r.take e env) := by
        simp only [Recorder.step, h.started, Bool.true_or, if_true, hstarted]
      rw [hstep]
      refine ⟨rfl, ?_⟩
      cases hlinear : (Cmd.event e).isLinear with
      | true => exact .inl (h.take ⟨.hook e, env⟩ rfl hlinear).2
      | false =>
          obtain ⟨loopId, rfl⟩ : ∃ loopId, e = .loopEnter loopId := by
            cases e <;> first | exact ⟨_, rfl⟩ | cases hlinear
          -- The hook of a loop, which marks the session if its command arrives.
          have hprepared := h.prepare (.loopEnter loopId) env
          simp only [linkExec, Recorder.take]
          cases harrives : env.command.arrives with
          | false => exact .inl hprepared
          | true =>
              right
              exact ⟨rfl, wellFormed_handle hprepared.holds.ready.wellFormed _,
                loopCount_firstLoop hprepared.holds loopId⟩

/-- The symbolic runtime and the recorder, as long as no loop has been entered. -/
inductive Follows : Option (Link (List UInt64)) → Recorder → Prop
  | idle : Follows none .start
  | linked {sym : Link (List UInt64)} {r : Recorder} (h : LinkHolds Sha256.free sym r) :
      Follows (some sym) r

/-- The step lemma. -/
theorem Follows.step {state : Option (Link (List UInt64))} {r : Recorder} (h : Follows state r)
    (call : Call) :
    (symbolicRuntime state call).1 = (Recorder.step r call).1.map idReport ∧
      (Follows (symbolicRuntime state call).2 (Recorder.step r call).2 ∨
        ∃ sym, (symbolicRuntime state call).2 = some sym ∧ Marked sym) := by
  cases h with
  | linked h =>
      rcases h.follow call with ⟨hreply, hnext | hmarked⟩
      · exact ⟨hreply, .inl (.linked hnext)⟩
      · exact ⟨hreply, .inr ⟨_, rfl, hmarked⟩⟩
  | idle =>
      rcases call with ⟨action, env⟩
      cases action with
      | cleanup => exact ⟨rfl, .inl .idle⟩
      | finalizeAndPrint => exact ⟨rfl, .inl .idle⟩
      | hook e =>
          cases hopens : env.opens with
          | false =>
              simp only [symbolicRuntime, Recorder.step, Recorder.start, hopens, Bool.or_false,
                Bool.false_eq_true, if_false]
              exact ⟨rfl, .inl .idle⟩
          | true =>
              rcases ((opens_iff env).1 hopens).initAlloc with ⟨handle, halloc⟩
              -- The session is a fresh one, and so is the recorder.
              have hfresh : LinkHolds Sha256.free ⟨false, (cmdInit Sha256.free env.initAlloc
                  (taOpenSessionEntryPoint Sha256.free)).2⟩ ⟨true, false, []⟩ := by
                rw [halloc]
                exact ⟨rfl, rfl, holds_opened handle⟩
              have hstep : Recorder.step .start ⟨.hook e, env⟩ =
                  Recorder.step ⟨true, false, []⟩ ⟨.hook e, env⟩ := by
                simp [Recorder.step, Recorder.start, hopens]
              rcases hfresh.follow ⟨.hook e, env⟩ with ⟨hreply, hnext⟩
              simp only [symbolicRuntime, hopens, if_true, hstep]
              refine ⟨hreply, ?_⟩
              rcases hnext with hnext | hmarked
              · exact .inl (.linked hnext)
              · exact .inr ⟨_, rfl, hmarked⟩

theorem quiet_of_not_prints (state : Option (Link (List UInt64))) (r : Recorder) {call : Call}
    (hquiet : call.prints = false) :
    (symbolicRuntime state call).1 = none ∧ (Recorder.step r call).1 = none := by
  constructor
  · cases state with
    | some sym => simp [symbolicRuntime, Link.printed, hquiet]
    | none =>
        simp only [symbolicRuntime]
        split
        · split <;> rfl
        · rfl
  · rcases call with ⟨action, env⟩
    cases action with
    | cleanup => rfl
    | hook e =>
        simp only [Recorder.step]
        split <;> rfl
    | finalizeAndPrint =>
        simp only [Recorder.step, Recorder.finalize,
          if_neg (not_delivered_of_not_prints hquiet), ite_self]

theorem replies_of_not_prints (state : Option (Link (List UInt64))) (r : Recorder)
    {calls : List Call} (hquiet : ∀ call ∈ calls, call.prints = false) :
    (symbolicRuntime.replies state calls).reduceOption = [] ∧
      (Recorder.step.replies r calls).reduceOption = [] := by
  induction calls generalizing state r with
  | nil => exact ⟨rfl, rfl⟩
  | cons call calls ih =>
      rcases quiet_of_not_prints state r (hquiet call List.mem_cons_self) with ⟨hsymbol, hids⟩
      rw [Machine.replies_cons, Machine.replies_cons, hsymbol, hids]
      exact ih _ _ fun call' hcall' => hquiet call' (List.mem_cons_of_mem _ hcall')

/-- The run lemma: the reports are the recorder's as long as none of them shows a loop. -/
theorem Follows.run {state : Option (Link (List UInt64))} {r : Recorder} (h : Follows state r)
    {calls : List Call}
    (hplain : ∀ rep ∈ (symbolicRuntime.replies state calls).reduceOption, rep.loops = []) :
    (symbolicRuntime.replies state calls).reduceOption =
      ((Recorder.step.replies r calls).reduceOption).map idReport := by
  induction calls generalizing state r with
  | nil => rfl
  | cons call calls ih =>
      rcases h.step call with ⟨hreply, hnext⟩
      rw [Machine.replies_cons] at hplain
      have hrest : ∀ rep ∈ (symbolicRuntime.replies (symbolicRuntime state call).2
          calls).reduceOption, rep.loops = [] := by
        intro rep hrep
        refine hplain rep ?_
        cases (symbolicRuntime state call).1 with
        | none => exact hrep
        | some first => exact List.mem_cons_of_mem _ hrep
      have htail : (symbolicRuntime.replies (symbolicRuntime state call).2 calls).reduceOption =
          ((Recorder.step.replies (Recorder.step r call).2 calls).reduceOption).map idReport := by
        rcases hnext with hfollows | ⟨sym, hsym, hmarked⟩
        · exact ih hfollows hrest
        -- A loop has been entered: from here on neither of the two reports anything.
        · rw [hsym] at hrest ⊢
          rcases replies_of_not_prints (some sym) (Recorder.step r call).2
            (hmarked.silent hrest) with ⟨hsymbols, hids⟩
          rw [hsymbols, hids]
          rfl
      rw [Machine.replies_cons, Machine.replies_cons, hreply]
      cases (Recorder.step r call).1 with
      | none => exact htail
      | some ids => exact congrArg (idReport ids :: ·) htail

end Runtime
end CFlat
