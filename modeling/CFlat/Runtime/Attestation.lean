import CFlat.SecureWorld.Bounds
import CFlat.Runtime.Link

/-!
# Attestation — the report as the runtime prints it

`cflat_finalize_and_print` parses the bytes of CMD_GET_AUTH with offsets of its own.  Its parser is
modelled over checked reads: a read beyond `auth_size` gives nothing.  `printAttestation_getAuth`
says that it recovers what the trusted application measured, and `report_round_trip` that this holds
of every session and that the bytes determine the measurement.
-/

namespace CFlat
namespace Runtime

open Lib SecureWorld

/-! ## The parser -/

/-- One line of the loop list: `Loop 0x..: .. iterations (.. invocations)`. -/
structure LoopLine where
  loopId : UInt64
  iterations : UInt32
  invocations : UInt32
  deriving DecidableEq, Repr

/-- What is printed of an attestation.  The line `Loop Count` is missing when the bytes are not more
than the header. -/
structure Printed where
  finalHash : List UInt8
  loopCount : Option UInt32
  loops : List LoopLine
  deriving DecidableEq, Repr

/-- The `k` bytes at an offset, if they lie below `auth_size`. -/
def readBytes? (auth : List UInt8) (authSize offset k : Nat) : Option (List UInt8) :=
  if offset + k ≤ authSize then some ((auth.drop offset).take k) else none

/-- The word in the `k` bytes at an offset. -/
def readLe? (auth : List UInt8) (authSize offset k : Nat) : Option Nat :=
  (readBytes? auth authSize offset k).map leValue

/-- The loop over the records, `remaining` of them by the loop count of the header. -/
def parseLoops? (auth : List UInt8) (authSize : Nat) : (remaining offset : Nat) →
    Option (List LoopLine)
  | 0, _ => some []
  | remaining + 1, offset =>
      if offset + 80 ≤ authSize then do
        let loopId ← readLe? auth authSize offset 8
        let iterations ← readLe? auth authSize (offset + 72) 4
        let invocations ← readLe? auth authSize (offset + 76) 4
        let lines ← parseLoops? auth authSize remaining (offset + 80)
        some (⟨.ofNat loopId, .ofNat iterations, .ofNat invocations⟩ :: lines)
      else some []

/-- What is printed of the buffer `auth`, of which GET_AUTH reported `auth_size` bytes. -/
def printAttestation? (auth : List UInt8) (authSize : Nat) : Option Printed := do
  -- `i < 32 && i < (int)auth_size`
  let finalHash ← readBytes? auth authSize 0 (min 32 (Int.bmod authSize (2 ^ 32)).toNat)
  if authSize > 36 then
    let loopCount ← readLe? auth authSize 32 4
    let loops ← parseLoops? auth authSize loopCount 36
    some ⟨finalHash, some (.ofNat loopCount), loops⟩
  else some ⟨finalHash, none, []⟩

/-! ## Reading fields -/

theorem readBytes?_prefix {auth before field : List UInt8} {authSize offset k : Nat}
    (hauth : before ++ field <+: auth) (hoffset : before.length = offset)
    (hk : field.length = k) (hfit : offset + k ≤ authSize) :
    readBytes? auth authSize offset k = some field := by
  rcases hauth with ⟨after, rfl⟩
  subst hoffset hk
  rw [readBytes?, if_pos hfit, List.append_assoc, List.drop_left, List.take_left]

theorem readLe?_prefix {auth before : List UInt8} {authSize offset k n : Nat}
    (hauth : before ++ leBytes k n <+: auth) (hoffset : before.length = offset)
    (hn : n < 256 ^ k) (hfit : offset + k ≤ authSize) :
    readLe? auth authSize offset k = some n := by
  rw [readLe?, readBytes?_prefix hauth hoffset (length_leBytes k n) hfit, Option.map_some,
    leValue_leBytes hn]

variable {D : Type} {H : Sha256 D}

/-- The line of a record. -/
def LoopLine.ofReport (rec : ReportRecord D) : LoopLine :=
  ⟨rec.loopId, rec.iterations, rec.invocations⟩

/-- The loop reads one line for each encoded record and stops behind the last one. -/
theorem parseLoops?_encode (recs : List (ReportRecord D)) :
    ∀ {auth before : List UInt8} {authSize offset : Nat},
      before ++ recs.flatMap (ReportRecord.encode H) <+: auth → before.length = offset →
        authSize = offset + 80 * recs.length →
          parseLoops? auth authSize recs.length offset = some (recs.map LoopLine.ofReport) := by
  induction recs with
  | nil =>
      intro auth before authSize offset _ _ _
      rfl
  | cons rec recs ih =>
      intro auth before authSize offset hauth hoffset hsize
      rw [List.length_cons] at hsize
      rw [List.flatMap_cons, ← List.append_assoc] at hauth
      have hfit : offset + 80 ≤ authSize := by omega
      have hfield : ∀ {part : List UInt8}, part <+: rec.encode H → before ++ part <+: auth := by
        intro part hpart
        exact ((List.prefix_append_right_inj before).2 hpart).trans
          ((List.prefix_append _ _).trans hauth)
      -- The three printed fields, each behind what the record holds before it.
      have hid : readLe? auth authSize offset 8 = some rec.loopId.toNat := by
        apply readLe?_prefix (hfield ?_) hoffset rec.loopId.toNat_lt (by omega)
        simp [ReportRecord.encode]
      have hiter : readLe? auth authSize (offset + 72) 4 = some rec.iterations.toNat := by
        have hpart : leBytes 8 rec.loopId.toNat ++ (H.bytes rec.preHash).toList ++
            (H.bytes rec.loopHash).toList ++ leBytes 4 rec.iterations.toNat <+: rec.encode H :=
          List.prefix_append _ _
        have hread := hfield hpart
        rw [← List.append_assoc] at hread
        apply readLe?_prefix hread ?_ rec.iterations.toNat_lt (by omega)
        simp [hoffset]
      have hinv : readLe? auth authSize (offset + 76) 4 = some rec.invocations.toNat := by
        have hread := hfield (List.prefix_refl (rec.encode H))
        rw [ReportRecord.encode, ← List.append_assoc] at hread
        apply readLe?_prefix hread ?_ rec.invocations.toNat_lt (by omega)
        simp [hoffset]
      have htail := ih hauth (by rw [List.length_append, hoffset, length_encodeRecord])
        (by omega : authSize = offset + 80 + 80 * recs.length)
      rw [List.length_cons, parseLoops?, if_pos hfit]
      simp only [hid, hiter, hinv, htail, Option.bind_eq_bind, Option.bind_some, UInt64.ofNat_toNat,
        UInt32.ofNat_toNat]
      rfl

/-! ## Whole reports -/

variable (H) in
/-- What is printed of a report. -/
def Printed.ofReport (rep : Report D) : Printed where
  finalHash := (H.bytes rep.finalHash).toList
  loopCount := if rep.loops.isEmpty then none else some (.ofNat rep.loops.length)
  loops := rep.loops.map LoopLine.ofReport

/-- The parser reads a report that stands at the front of the buffer. -/
theorem printAttestation?_encode (rep : Report D) {auth : List UInt8}
    (hauth : rep.encode H <+: auth) (hcap : rep.loops.length ≤ maxLoopRecords) :
    printAttestation? auth (36 + 80 * rep.loops.length) = some (.ofReport H rep) := by
  simp only [maxLoopRecords] at hcap
  have hheader : (H.bytes rep.finalHash).toList ++ leBytes 4 rep.loops.length <+: auth :=
    (List.prefix_append _ _).trans hauth
  -- The size is far below the largest `int`.
  have hmin : min 32 (Int.bmod (36 + 80 * rep.loops.length : Nat) (2 ^ 32)).toNat = 32 := by
    rw [Int.bmod_eq_of_le (by omega) (by omega)]
    omega
  have hhash : readBytes? auth (36 + 80 * rep.loops.length) 0 32 =
      some (H.bytes rep.finalHash).toList :=
    readBytes?_prefix ((List.prefix_append _ _).trans hheader)
      (rfl : ([] : List UInt8).length = 0) (length_bytes H _) (by omega)
  have hcount : readLe? auth (36 + 80 * rep.loops.length) 32 4 = some rep.loops.length :=
    readLe?_prefix hheader (length_bytes H _) (by omega) (by omega)
  have hloops := parseLoops?_encode rep.loops hauth
    (by simp : ((H.bytes rep.finalHash).toList ++ leBytes 4 rep.loops.length).length = 36) rfl
  simp only [printAttestation?, hmin, hhash, Option.bind_eq_bind, Option.bind_some]
  cases hrecs : rep.loops with
  | nil => simp [Printed.ofReport, hrecs]
  | cons rec recs =>
      have hmore : 36 + 80 * (rec :: recs).length > 36 := by
        rw [List.length_cons]
        omega
      rw [← hrecs] at hmore ⊢
      rw [if_pos hmore, hcount]
      simp only [hloops, Option.bind_some]
      simp [Printed.ofReport, hrecs]

/-! ## From the trusted application to the client -/

/-- The two raw calls of `cflat_finalize_and_print`. -/
def finalizeCall (alloc : AllocOutcome) : RawCall := ⟨alloc, commandFinalize, emptyOperation⟩

def getAuthCall (alloc : AllocOutcome) : RawCall :=
  ⟨alloc, commandGetAuth, memrefOperation authBuffer⟩

variable (H) in
/-- The answer to the second call: its result and the client's buffer. -/
def fetched (alloc : AllocOutcome) (ctx : SessionCtx D) : TeeResult × Memref :=
  let answer := (invoke H (invoke H ctx (finalizeCall alloc)).2 (getAuthCall alloc)).1
  (answer.1, firstMemref answer.2)

/-- The bytes that a memory reference holds. -/
def attested (out : Memref) : List UInt8 := out.buffer.take out.size.toNat

theorem fetched_eq (alloc : AllocOutcome) (ctx : SessionCtx D) :
    fetched H alloc ctx = cmdGetAuth (cmdFinalize H ctx).2 authBuffer := by
  simp only [fetched, invoke, finalizeCall, getAuthCall, dispatch_finalize, dispatch_getAuth]
  rfl

/-- GET_AUTH hands out the encoding of what was measured at the CMD_FINALIZE. -/
theorem attested_fetched (alloc : AllocOutcome) {ctx : SessionCtx D} (hwf : WellFormed ctx) :
    (fetched H alloc ctx).1 = .success ∧
      attested (fetched H alloc ctx).2 = ctx.measured.encode H := by
  rw [fetched_eq]
  rcases getAuth_finalized (H := H) hwf with ⟨hsuccess, hreport⟩
  exact ⟨hsuccess, hreport.trans (report_cmdFinalize hwf)⟩

theorem size_fetched (alloc : AllocOutcome) {ctx : SessionCtx D} (hwf : WellFormed ctx) :
    (fetched H alloc ctx).2.size.toNat = 36 + 80 * ctx.live.length := by
  rw [fetched_eq, ← toNat_authSize_cmdFinalize (H := H) hwf]
  rcases (getAuth_success_iff _ _).1 (getAuth_finalized (H := H) hwf).1 with ⟨hne, hfits⟩
  simp only [cmdGetAuth, hne, hfits, if_false]

variable (H) in
/-- What the client prints of a finalised session is what the trusted application measured: the
current hash, and a line for each of the `loop_count` records, in their order. -/
structure RoundTrip (alloc : AllocOutcome) (ctx : SessionCtx D) (printed : Printed) : Prop where
  served : (fetched H alloc ctx).1 = .success
  parsed : printAttestation? (fetched H alloc ctx).2.buffer (fetched H alloc ctx).2.size.toNat =
    some printed
  finalHash : printed.finalHash = (H.bytes ctx.currentHash).toList
  loops : printed.loops = ctx.live.map fun rec =>
    ⟨rec.loopId, rec.iterationCount, rec.invocationCount⟩
  complete : (printed.loops.length : Int) = ctx.loopCount
  loopCount : ∀ count, printed.loopCount = some count → (count.toNat : Int) = ctx.loopCount

theorem roundTrip_of_wellFormed (alloc : AllocOutcome) {ctx : SessionCtx D} (hwf : WellFormed ctx) :
    RoundTrip H alloc ctx (.ofReport H ctx.measured) := by
  rcases attested_fetched (H := H) alloc hwf with ⟨hserved, hbytes⟩
  have hlen := length_live hwf
  have hle := hwf.loopCount_le
  have hrecs : ctx.measured.loops.length = ctx.live.length := List.length_map _
  have hsize := size_fetched (H := H) alloc hwf
  refine ⟨hserved, ?_, rfl, ?_, ?_, ?_⟩
  · rw [hsize, ← hrecs]
    apply printAttestation?_encode ctx.measured
    · rw [← hbytes]
      exact List.take_prefix _ _
    · omega
  · simp only [Printed.ofReport, SessionCtx.measured, List.map_map]
    rfl
  · simpa [Printed.ofReport, hrecs] using hlen
  · intro count hcount
    simp only [Printed.ofReport] at hcount
    split at hcount
    · cases hcount
    · rcases hcount with ⟨rfl⟩
      simp only [maxLoopRecords] at hle
      rw [UInt32.toNat_ofNat', hrecs]
      omega

/-- Two well-formed sessions give the same bytes exactly when they measured the same. -/
theorem attested_eq_iff (hbytes : Function.Injective H.bytes) (alloc₁ alloc₂ : AllocOutcome)
    {ctx₁ ctx₂ : SessionCtx D} (h₁ : WellFormed ctx₁) (h₂ : WellFormed ctx₂) :
    attested (fetched H alloc₁ ctx₁).2 = attested (fetched H alloc₂ ctx₂).2 ↔
      ctx₁.currentHash = ctx₂.currentHash ∧ ctx₁.loopCount = ctx₂.loopCount ∧
        ctx₁.live.map LoopRecord.toReport = ctx₂.live.map LoopRecord.toReport := by
  rw [(attested_fetched alloc₁ h₁).2, (attested_fetched alloc₂ h₂).2,
    (encode_injective hbytes).eq_iff, SessionCtx.measured, SessionCtx.measured, Report.mk.injEq]
  constructor
  · rintro ⟨hhash, hloops⟩
    have hlength := congrArg List.length hloops
    rw [List.length_map, List.length_map] at hlength
    refine ⟨hhash, ?_, hloops⟩
    rw [← length_live h₁, ← length_live h₂, hlength]
  · rintro ⟨hhash, _, hloops⟩
    exact ⟨hhash, hloops⟩

/-- What an initialised runtime prints as an attestation parses to what its session measured. -/
theorem printed_of_linked {client : Client D} {link : Link D} (env : Env) (h : Linked client link)
    {auth : List UInt8} (hauth : (cflatFinalizeAndPrint H env client).1.auth? = some auth) :
    printAttestation? auth auth.length = some (.ofReport H link.ctx.measured) := by
  have hwf := h.ready.wellFormed
  have hprinted : (link.finalize H env).1 = some auth := (finalize_linked env h).1.symm.trans hauth
  have hreport : auth = link.ctx.measured.encode H := by
    rw [← report_cmdFinalize hwf]
    simp only [Link.finalize] at hprinted
    split at hprinted
    · split at hprinted
      · exact (Option.some.inj hprinted).symm
      · cases hprinted
    · cases hprinted
  have hle := hwf.loopCount_le
  have hlen := length_live hwf
  have hrecs : link.ctx.measured.loops.length = link.ctx.live.length := List.length_map _
  rw [hreport, length_encode]
  exact printAttestation?_encode _ (List.prefix_refl _) (by omega)

/-- The report of every session reaches the client unchanged and complete, and its bytes determine
the current hash and all serialised fields. -/
theorem report_round_trip (sha : List UInt8 → Digest) :
    (∀ (calls : List RawCall) (alloc : AllocOutcome), ∃ printed,
        RoundTrip (.ofBytes sha) alloc
          ((invoke (.ofBytes sha)).run (taOpenSessionEntryPoint (.ofBytes sha)) calls) printed) ∧
      ∀ (calls₁ calls₂ : List RawCall) (alloc₁ alloc₂ : AllocOutcome),
        let ctx₁ := (invoke (.ofBytes sha)).run (taOpenSessionEntryPoint (.ofBytes sha)) calls₁
        let ctx₂ := (invoke (.ofBytes sha)).run (taOpenSessionEntryPoint (.ofBytes sha)) calls₂
        attested (fetched (.ofBytes sha) alloc₁ ctx₁).2 =
            attested (fetched (.ofBytes sha) alloc₂ ctx₂).2 ↔
          ctx₁.currentHash = ctx₂.currentHash ∧ ctx₁.loopCount = ctx₂.loopCount ∧
            ctx₁.live.map LoopRecord.toReport = ctx₂.live.map LoopRecord.toReport :=
  ⟨fun calls alloc => ⟨_, roundTrip_of_wellFormed alloc (bounded_run calls).toWellFormed⟩,
    fun calls₁ calls₂ alloc₁ alloc₂ => attested_eq_iff Function.injective_id alloc₁ alloc₂
      (bounded_run calls₁).toWellFormed (bounded_run calls₂).toWellFormed⟩

end Runtime
end CFlat
