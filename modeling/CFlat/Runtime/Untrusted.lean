import CFlat.Runtime.Attestation

/-!
# Untrusted — the parser of the runtime on arbitrary bytes

`cflat_finalize_and_print` checks neither the bytes of CMD_GET_AUTH nor the loop count in them; its
loop ends with the count or with the last record that lies below `auth_size`, whichever comes first.
So it is total on every buffer, and what it prints is the longest report that the bytes begin with.
-/

namespace CFlat
namespace Runtime

open Lib SecureWorld

/-! ## Every byte string is an encoding -/

theorem exists_append_of_length {α : Type*} {l : List α} {n m : Nat} (h : l.length = n + m) :
    ∃ front back, l = front ++ back ∧ front.length = n ∧ back.length = m :=
  ⟨l.take n, l.drop n, (List.take_append_drop n l).symm, by simp [h], by simp [h]⟩

theorem exists_uint64 {bs : List UInt8} (h : bs.length = 8) :
    ∃ w : UInt64, leBytes 8 w.toNat = bs := by
  have hlt := leValue_lt bs
  have hbytes := leBytes_leValue bs
  rw [h] at hlt hbytes
  exact ⟨.ofNat (leValue bs), by rwa [UInt64.toNat_ofNat_of_lt' hlt]⟩

theorem exists_uint32 {bs : List UInt8} (h : bs.length = 4) :
    ∃ w : UInt32, leBytes 4 w.toNat = bs := by
  have hlt := leValue_lt bs
  have hbytes := leBytes_leValue bs
  rw [h] at hlt hbytes
  exact ⟨.ofNat (leValue bs), by rwa [UInt32.toNat_ofNat_of_lt' hlt]⟩

theorem exists_digest {bs : List UInt8} (h : bs.length = 32) : ∃ d : Digest, d.toList = bs :=
  ⟨⟨bs.toArray, h⟩, rfl⟩

variable (sha : List UInt8 → Digest)

/-- Any 80 bytes are a record. -/
theorem exists_record {bs : List UInt8} (h : bs.length = 80) :
    ∃ rec : ReportRecord Digest, rec.encode (.ofBytes sha) = bs := by
  rcases exists_append_of_length (n := 8) (m := 72) h with ⟨id, bs, rfl, hid, hbs⟩
  rcases exists_append_of_length (n := 32) (m := 40) hbs with ⟨pre, bs, rfl, hpre, hbs⟩
  rcases exists_append_of_length (n := 32) (m := 8) hbs with ⟨loop, bs, rfl, hloop, hbs⟩
  rcases exists_append_of_length (n := 4) (m := 4) hbs with ⟨iter, inv, rfl, hiter, hinv⟩
  rcases exists_uint64 hid with ⟨loopId, rfl⟩
  rcases exists_digest hpre with ⟨preHash, rfl⟩
  rcases exists_digest hloop with ⟨loopHash, rfl⟩
  rcases exists_uint32 hiter with ⟨iterations, rfl⟩
  rcases exists_uint32 hinv with ⟨invocations, rfl⟩
  refine ⟨⟨loopId, preHash, loopHash, iterations, invocations⟩, ?_⟩
  simp [ReportRecord.encode, Sha256.ofBytes]

theorem exists_records {k : Nat} {bs : List UInt8} (h : bs.length = 80 * k) :
    ∃ recs : List (ReportRecord Digest), recs.length = k ∧
      recs.flatMap (ReportRecord.encode (.ofBytes sha)) = bs := by
  induction k generalizing bs with
  | zero => exact ⟨[], rfl, (List.eq_nil_of_length_eq_zero h).symm⟩
  | succ k ih =>
      rcases exists_append_of_length (n := 80) (m := 80 * k) (by omega : bs.length = 80 + 80 * k)
        with ⟨first, rest, rfl, hfirst, hrest⟩
      rcases exists_record sha hfirst with ⟨rec, rfl⟩
      rcases ih hrest with ⟨recs, rfl, rfl⟩
      exact ⟨rec :: recs, rfl, List.flatMap_cons⟩

/-! ## The parser -/

theorem readBytes?_of_fits {auth : List UInt8} {authSize offset k : Nat}
    (h : offset + k ≤ authSize) :
    readBytes? auth authSize offset k = some ((auth.drop offset).take k) := if_pos h

theorem readLe?_of_fits {auth : List UInt8} {authSize offset k : Nat} (h : offset + k ≤ authSize) :
    readLe? auth authSize offset k = some (leValue ((auth.drop offset).take k)) := by
  rw [readLe?, readBytes?_of_fits h, Option.map_some]

/-- The records that the count and the size both allow. -/
def complete (remaining authSize offset : Nat) : Nat := min remaining ((authSize - offset) / 80)

/-- The loop behaves as if the bytes ended with the last complete record. -/
theorem parseLoops?_complete (auth : List UInt8) (authSize remaining : Nat) :
    ∀ offset, parseLoops? auth authSize remaining offset =
      parseLoops? auth (offset + 80 * complete remaining authSize offset)
        (complete remaining authSize offset) offset := by
  induction remaining with
  | zero =>
      intro offset
      simp [complete, parseLoops?]
  | succ remaining ih =>
      intro offset
      by_cases hfit : offset + 80 ≤ authSize
      · -- One record is read, and the others behind it.
        have hcount : complete (remaining + 1) authSize offset =
            complete remaining authSize (offset + 80) + 1 := by
          simp only [complete]
          omega
        have hsize : offset + 80 * complete (remaining + 1) authSize offset =
            offset + 80 + 80 * complete remaining authSize (offset + 80) := by omega
        rw [hsize, hcount, parseLoops?, parseLoops?, if_pos hfit, if_pos (by omega), ih]
        rw [readLe?_of_fits (by omega), readLe?_of_fits (by omega), readLe?_of_fits (by omega),
          readLe?_of_fits (by omega), readLe?_of_fits (by omega), readLe?_of_fits (by omega)]
      · have hnone : complete (remaining + 1) authSize offset = 0 := by
          simp only [complete]
          omega
        rw [hnone]
        simp [parseLoops?, hfit]

/-- The count in the header of a report. -/
def headerCount (auth : List UInt8) : UInt32 := .ofNat (leValue ((auth.drop 32).take 4))

theorem headerCount_of_header {auth hash : List UInt8} {n : Nat} (hhash : hash.length = 32)
    (hn : n < 2 ^ 32) (h : hash ++ leBytes 4 n <+: auth) : (headerCount auth).toNat = n := by
  rcases h with ⟨rest, rfl⟩
  rw [headerCount, List.append_assoc, ← hhash, List.drop_left, List.take_left' (length_leBytes 4 n),
    leValue_leBytes hn, UInt32.toNat_ofNat_of_lt' hn]

/-- Bytes that are long enough begin with a hash, a count and any number of records. -/
theorem exists_front {auth : List UInt8} {k : Nat} (h : 36 + 80 * k ≤ auth.length) :
    ∃ rep : Report Digest, rep.loops.length = k ∧
      rep.finalHash.toList ++ leBytes 4 (headerCount auth).toNat ++
        rep.loops.flatMap (ReportRecord.encode (.ofBytes sha)) <+: auth := by
  have hlong : auth.length = 32 + (4 + (auth.length - 36)) := by omega
  rcases exists_append_of_length hlong with ⟨hash, tail, rfl, hhash, htail⟩
  rcases exists_append_of_length htail with ⟨header, body, rfl, hheader, hbody⟩
  rcases exists_digest hhash with ⟨finalHash, rfl⟩
  rcases exists_uint32 hheader with ⟨count, rfl⟩
  have hcount : (headerCount (finalHash.toList ++ (leBytes 4 count.toNat ++ body))).toNat =
      count.toNat :=
    headerCount_of_header hhash count.toNat_lt ⟨body, List.append_assoc _ _ _⟩
  have hroom : body.length = 80 * k + (body.length - 80 * k) := by omega
  rcases exists_append_of_length hroom with ⟨recBytes, rest, rfl, hrecBytes, _⟩
  rcases exists_records sha hrecBytes with ⟨recs, hrecs, rfl⟩
  refine ⟨⟨finalHash, recs⟩, hrecs, rest, ?_⟩
  rw [hcount, List.append_assoc, List.append_assoc]

/-- The bytes hold a hash, a count and the complete records, and these are what is printed. -/
theorem exists_printed {auth : List UInt8} {authSize : Nat} (hfits : authSize ≤ auth.length)
    (hint : authSize < 2 ^ 31) (hmore : 36 < authSize) :
    ∃ rep : Report Digest,
      rep.finalHash.toList ++ leBytes 4 (headerCount auth).toNat ++
          rep.loops.flatMap (ReportRecord.encode (.ofBytes sha)) <+: auth ∧
        rep.loops.length = complete (headerCount auth).toNat authSize 36 ∧
        printAttestation? auth authSize =
          some ⟨rep.finalHash.toList, some (headerCount auth),
            rep.loops.map LoopLine.ofReport⟩ := by
  have hle : 80 * ((authSize - 36) / 80) ≤ authSize - 36 := Nat.mul_div_le _ _
  have hcomplete : complete (headerCount auth).toNat authSize 36 ≤ (authSize - 36) / 80 :=
    Nat.min_le_right _ _
  have hroom : 36 + 80 * complete (headerCount auth).toNat authSize 36 ≤ auth.length := by omega
  rcases exists_front sha hroom with ⟨rep, hrecs, hprefix⟩
  refine ⟨rep, hprefix, hrecs, ?_⟩
  have hhash : rep.finalHash.toList.length = 32 := Vector.length_toList
  have hheader : rep.finalHash.toList ++ leBytes 4 (headerCount auth).toNat <+: auth :=
    (List.prefix_append _ _).trans hprefix
  -- The size is an `int`, and more than the hash.
  have hmin : min 32 (Int.bmod authSize (2 ^ 32)).toNat = 32 := by
    rw [Int.bmod_eq_of_le (by omega) (by omega)]
    omega
  have hfinal : readBytes? auth authSize 0 32 = some rep.finalHash.toList :=
    readBytes?_prefix ((List.prefix_append _ _).trans hheader)
      (rfl : ([] : List UInt8).length = 0) hhash (by omega)
  have hcount : readLe? auth authSize 32 4 = some (headerCount auth).toNat :=
    readLe?_prefix hheader hhash (headerCount auth).toNat_lt (by omega)
  have hloops : parseLoops? auth authSize (headerCount auth).toNat 36 =
      some (rep.loops.map LoopLine.ofReport) := by
    rw [parseLoops?_complete, ← hrecs]
    exact parseLoops?_encode rep.loops hprefix (by simp) rfl
  simp only [printAttestation?, hmin, hfinal, hcount, hloops, if_pos hmore, Option.bind_eq_bind,
    Option.bind_some, UInt32.ofNat_toNat]

/-! ## Reports among the bytes -/

/-- The bytes of a report have the length that its header says, and so have no others. -/
theorem isReport_iff {auth : List UInt8} {authSize : Nat} (hfits : authSize ≤ auth.length) :
    (∃ rep : Report Digest, rep.loops.length < 2 ^ 32 ∧
        rep.encode (.ofBytes sha) = auth.take authSize) ↔
      authSize = 36 + 80 * (headerCount auth).toNat := by
  constructor
  · rintro ⟨rep, hsmall, hreport⟩
    have hheader : rep.finalHash.toList ++ leBytes 4 rep.loops.length <+: auth :=
      (List.prefix_append _ _).trans (hreport ▸ List.take_prefix authSize auth)
    have hlength := congrArg List.length hreport
    rw [length_encode, List.length_take, Nat.min_eq_left hfits] at hlength
    rw [headerCount_of_header Vector.length_toList hsmall hheader, hlength]
  · intro hexact
    rcases exists_front sha (hexact ▸ hfits) with ⟨rep, hrecs, hprefix⟩
    refine ⟨rep, hrecs ▸ (headerCount auth).toNat_lt, ?_⟩
    have hencode : rep.encode (.ofBytes sha) <+: auth := by
      rw [← hrecs] at hprefix
      exact hprefix
    have htake := List.prefix_iff_eq_take.1 hencode
    rwa [length_encode, hrecs, ← hexact] at htake

/-- The parser on bytes that nobody vouches for: up to 36 of them are printed as the hash; behind
that it prints a report that the bytes begin with, whose records are all that the count allows and
the size holds.  The bytes are a report exactly when the count fits the size. -/
theorem printAttestation?_of_bytes {auth : List UInt8} {authSize : Nat}
    (hfits : authSize ≤ auth.length) (hint : authSize < 2 ^ 31) :
    (authSize ≤ 36 →
        printAttestation? auth authSize = some ⟨auth.take (min 32 authSize), none, []⟩) ∧
      (36 < authSize → ∃ rep : Report Digest,
        rep.finalHash.toList ++ leBytes 4 (headerCount auth).toNat ++
            rep.loops.flatMap (ReportRecord.encode (.ofBytes sha)) <+: auth ∧
          rep.loops.length = min (headerCount auth).toNat ((authSize - 36) / 80) ∧
          printAttestation? auth authSize =
            some ⟨rep.finalHash.toList, some (headerCount auth),
              rep.loops.map LoopLine.ofReport⟩) ∧
      ((∃ rep : Report Digest, rep.loops.length < 2 ^ 32 ∧
          rep.encode (.ofBytes sha) = auth.take authSize) ↔
        authSize = 36 + 80 * (headerCount auth).toNat) := by
  refine ⟨fun hless => ?_, exists_printed sha hfits hint, isReport_iff sha hfits⟩
  have hmin : (Int.bmod authSize (2 ^ 32)).toNat = authSize := by
    rw [Int.bmod_eq_of_le (by omega) (by omega)]
    omega
  simp only [printAttestation?, hmin, if_neg (Nat.not_lt.2 hless),
    readBytes?_of_fits (by omega : 0 + min 32 authSize ≤ authSize), List.drop_zero,
    Option.bind_eq_bind, Option.bind_some]

/-- A count of more than 16 million records over the bytes of one; and a header whose count says
that records are missing. -/
theorem printAttestation?_of_bytes_truncated :
    (∃ rep : Report Digest,
      rep.finalHash.toList ++ leBytes 4 (headerCount (List.replicate 8192 1)).toNat ++
          rep.loops.flatMap (ReportRecord.encode (.ofBytes fun _ => Vector.replicate 32 0)) <+:
        List.replicate 8192 1 ∧
        rep.loops.length =
          min (headerCount (List.replicate 8192 1)).toNat ((126 - 36) / 80) ∧
        printAttestation? (List.replicate 8192 1) 126 =
          some ⟨rep.finalHash.toList, some (headerCount (List.replicate 8192 1)),
            rep.loops.map LoopLine.ofReport⟩) ∧
      ¬ ∃ rep : Report Digest, rep.loops.length < 2 ^ 32 ∧
        rep.encode (.ofBytes fun _ => Vector.replicate 32 0) =
          (List.replicate 8192 1).take 36 := by
  have hlength : (List.replicate 8192 (1 : UInt8)).length = 8192 := List.length_replicate
  constructor
  · exact (printAttestation?_of_bytes (fun _ => Vector.replicate 32 0)
      (by rw [hlength]; decide) (by decide)).2.1 (by decide)
  · rw [(printAttestation?_of_bytes (fun _ => Vector.replicate 32 0)
      (by rw [hlength]; decide) (by decide)).2.2]
    have hcount : (headerCount (List.replicate 8192 1)).toNat = 16843009 := by
      rw [headerCount, List.drop_replicate, List.take_replicate]
      decide
    rw [hcount]
    decide

end Runtime
end CFlat
