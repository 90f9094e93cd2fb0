import CFlat.SecureWorld.Evidence
import CFlat.SecureWorld.Views

/-!
# Symbolic — what a report stands for, whatever the commands

Over the free digests a session has the ids that a digest has absorbed in place of the digest: it
runs symbolically.  `symbolic_session` says that it does so faithfully for every hash function and
every sequence of commands, loops left open, entered again or refused included.  With SHA-256 two
reports are then the same only if the symbolic ones are, or some of the inputs that were hashed for
them collide (`same_symbols`).
-/

namespace CFlat
namespace SecureWorld

open Lib

variable {D : Type} {H : Sha256 D} {sha : List UInt8 → Digest}

/-! ## The symbolic session -/

variable (H) in
/-- The digests that a symbolic session stands for. -/
def hashView : View Sha256.free H where
  hash := chain H.digest H.zero
  count := id
  hash_zero := rfl
  hash_digest := chain_concat H.digest H.zero
  count_zero := id_count_zero

theorem report_hashView (rep : Report (List UInt64)) :
    (hashView H).report rep = rep.map (chain H.digest H.zero) := rfl

/-- The symbolic session through its digests. -/
abbrev StandsFor (H : Sha256 D) (ctx : SessionCtx D) (sym : SessionCtx (List UInt64)) : Prop :=
  LooksAlike (plainView H) (hashView H) ctx sym

theorem standsFor_open : StandsFor H (taOpenSessionEntryPoint H)
    (taOpenSessionEntryPoint Sha256.free) :=
  ⟨wellFormed_open, wellFormed_open, (open_view _).trans (open_view _).symm⟩

section StandsFor

variable {ctx : SessionCtx D} {sym : SessionCtx (List UInt64)} (h : StandsFor H ctx sym)
include h

/-- The step lemma. -/
theorem StandsFor.exec (cmd : Cmd) :
    (SecureWorld.exec H ctx cmd).1.shape = (SecureWorld.exec Sha256.free sym cmd).1.shape ∧
      StandsFor H (SecureWorld.exec H ctx cmd).2 (SecureWorld.exec Sha256.free sym cmd).2 :=
  LooksAlike.exec h (.inr ⟨fun _ => rfl, fun _ => rfl⟩)

theorem StandsFor.measured_eq : ctx.measured = sym.measured.map (chain H.digest H.zero) := by
  rw [← report_plainView ctx.measured, h.measured, report_hashView]

theorem StandsFor.report :
    (cmdFinalize H ctx).2.report = (sym.measured.map (chain H.digest H.zero)).encode H := by
  rw [report_cmdFinalize h.left, h.measured_eq]

end StandsFor

/-- The run lemma. -/
theorem StandsFor.run {ctx : SessionCtx D} {sym : SessionCtx (List UInt64)}
    (h : StandsFor H ctx sym) (cmds : List Cmd) :
    ((SecureWorld.exec H).replies ctx cmds).map Reply.shape =
        ((SecureWorld.exec Sha256.free).replies sym cmds).map Reply.shape ∧
      StandsFor H ((SecureWorld.exec H).run ctx cmds)
        ((SecureWorld.exec Sha256.free).run sym cmds) := by
  induction cmds generalizing ctx sym with
  | nil => exact ⟨rfl, h⟩
  | cons cmd cmds ih =>
      rcases StandsFor.exec h cmd with ⟨hshape, hstep⟩
      rcases ih hstep with ⟨hshapes, hrun⟩
      refine ⟨?_, hrun⟩
      rw [Machine.replies_cons, Machine.replies_cons, List.map_cons, List.map_cons, hshape, hshapes]

/-- The report that a CMD_FINALIZE makes after these commands. -/
def reportAfter (H : Sha256 D) (cmds : List Cmd) : List UInt8 :=
  (cmdFinalize H (afterHistory H cmds)).2.report

/-- The ids behind the digests of the report. -/
def symbolicReport (cmds : List Cmd) : Report (List UInt64) :=
  (afterHistory Sha256.free cmds).measured

theorem reportAfter_eq (H : Sha256 D) (cmds : List Cmd) :
    reportAfter H cmds = ((symbolicReport cmds).map (chain H.digest H.zero)).encode H :=
  StandsFor.report (standsFor_open.run cmds).2

/-- The hash function decides nothing: it makes the digests of the report out of the ids that the
symbolic session has in their place, and every command is answered alike. -/
theorem symbolic_session (H : Sha256 D) (cmds : List Cmd) :
    ((exec H).replies (taOpenSessionEntryPoint H) cmds).map Reply.shape =
        ((exec Sha256.free).replies (taOpenSessionEntryPoint Sha256.free) cmds).map Reply.shape ∧
      reportAfter H cmds = ((symbolicReport cmds).map (chain H.digest H.zero)).encode H :=
  ⟨(standsFor_open.run cmds).1, reportAfter_eq H cmds⟩

/-! ## Reports that are the same -/

/-- The bytes that SHA-256 hashes when a digest absorbs an id. -/
def hashInput (input : Digest × UInt64) : List UInt8 :=
  input.1.toList ++ leBytes 8 input.2.toNat

/-- What is hashed for the digest of a list of ids. -/
def hashedIn (sha : List UInt8 → Digest) (ids : List UInt64) : List (List UInt8) :=
  (absorbed (Sha256.ofBytes sha).digest (Sha256.ofBytes sha).zero ids).map hashInput

/-- The hash function takes two of these inputs to one digest, or one of them to zeros. -/
def ShaFails (sha : List UInt8 → Digest) (xs ys : List (List UInt8)) : Prop :=
  (∃ x ∈ xs, ∃ y ∈ ys, x ≠ y ∧ sha x = sha y) ∨ ∃ x ∈ xs ++ ys, sha x = Vector.replicate 32 0

theorem ShaFails.mono {xs ys xs' ys' : List (List UInt8)} (h : ShaFails sha xs ys)
    (hxs : xs ⊆ xs') (hys : ys ⊆ ys') : ShaFails sha xs' ys' := by
  rcases h with ⟨x, hx, y, hy, hne, heq⟩ | ⟨x, hx, heq⟩
  · exact .inl ⟨x, hxs hx, y, hys hy, hne, heq⟩
  · refine .inr ⟨x, ?_, heq⟩
    rcases List.mem_append.1 hx with hx | hx
    · exact List.mem_append_left _ (hxs hx)
    · exact List.mem_append_right _ (hys hx)

theorem hashInput_injective : Function.Injective hashInput := by
  rintro ⟨h₁, id₁⟩ ⟨h₂, id₂⟩ h
  rcases List.append_inj h (by simp) with ⟨hdigest, hid⟩
  exact Prod.ext (Vector.toList_inj.1 hdigest)
    (UInt64.toNat_inj.1 (leBytes_injOn id₁.toNat_lt id₂.toNat_lt hid))

/-- Two lists of ids with one digest are one list, unless the hash function fails on them. -/
theorem eq_or_shaFails (sha : List UInt8 → Digest) {ids₁ ids₂ : List UInt64}
    (h : chain (Sha256.ofBytes sha).digest (Sha256.ofBytes sha).zero ids₁ =
      chain (Sha256.ofBytes sha).digest (Sha256.ofBytes sha).zero ids₂) :
    ids₁ = ids₂ ∨ ShaFails sha (hashedIn sha ids₁) (hashedIn sha ids₂) := by
  -- Chains that meet are equal, or two of their inputs collide, or one of them meets zero.
  rcases eq_or_collides _ _ h with heq | ⟨x, hx, y, hy, hne, heq⟩ | ⟨x, hx, heq⟩
  · exact .inl heq
  · exact .inr (.inl ⟨hashInput x, List.mem_map_of_mem hx, hashInput y, List.mem_map_of_mem hy,
      hashInput_injective.ne hne, heq⟩)
  · refine .inr (.inr ⟨hashInput x, ?_, heq⟩)
    rw [hashedIn, hashedIn, ← List.map_append]
    exact List.mem_map_of_mem hx

/-- The lists of ids in a symbolic report. -/
def Report.symbols (rep : Report (List UInt64)) : List (List UInt64) :=
  rep.finalHash :: rep.loops.flatMap fun rec => [rec.preHash, rec.loopHash]

/-- What is hashed for a report. -/
def Report.hashInputs (sha : List UInt8 → Digest) (rep : Report (List UInt64)) :
    List (List UInt8) :=
  rep.symbols.flatMap (hashedIn sha)

/-- One report behind two symbolic ones. -/
theorem symbols_eq_or_shaFails (sha : List UInt8 → Digest) {rep₁ rep₂ : Report (List UInt64)}
    (h : rep₁.map (chain (Sha256.ofBytes sha).digest (Sha256.ofBytes sha).zero) =
      rep₂.map (chain (Sha256.ofBytes sha).digest (Sha256.ofBytes sha).zero)) :
    rep₁ = rep₂ ∨ ShaFails sha (rep₁.hashInputs sha) (rep₂.hashInputs sha) := by
  by_cases hfails : ShaFails sha (rep₁.hashInputs sha) (rep₂.hashInputs sha)
  · exact .inr hfails
  left
  -- Of the lists that were hashed each is known from its digest.
  have hinj : ∀ ids₁ ∈ rep₁.symbols, ∀ ids₂ ∈ rep₂.symbols,
      chain (Sha256.ofBytes sha).digest (Sha256.ofBytes sha).zero ids₁ =
        chain (Sha256.ofBytes sha).digest (Sha256.ofBytes sha).zero ids₂ → ids₁ = ids₂ := by
    intro ids₁ h₁ ids₂ h₂ heq
    refine (eq_or_shaFails sha heq).resolve_right fun hids => hfails (hids.mono ?_ ?_)
    · exact fun x hx => List.mem_flatMap.2 ⟨ids₁, h₁, hx⟩
    · exact fun x hx => List.mem_flatMap.2 ⟨ids₂, h₂, hx⟩
  rcases rep₁ with ⟨final₁, loops₁⟩
  rcases rep₂ with ⟨final₂, loops₂⟩
  rcases Report.mk.inj h with ⟨hfinal, hloops⟩
  have hrecords : loops₁ = loops₂ := by
    refine eq_of_map_eq (fun rec₁ h₁ rec₂ h₂ hrec => ?_) hloops
    have hmem₁ : ∀ ids ∈ [rec₁.preHash, rec₁.loopHash],
        ids ∈ Report.symbols ⟨final₁, loops₁⟩ := fun ids hids =>
      List.mem_cons_of_mem _ (List.mem_flatMap.2 ⟨rec₁, h₁, hids⟩)
    have hmem₂ : ∀ ids ∈ [rec₂.preHash, rec₂.loopHash],
        ids ∈ Report.symbols ⟨final₂, loops₂⟩ := fun ids hids =>
      List.mem_cons_of_mem _ (List.mem_flatMap.2 ⟨rec₂, h₂, hids⟩)
    simp only [ReportRecord.map, ReportRecord.mk.injEq] at hrec
    rcases hrec with ⟨hid, hpre, hloop, hiterations, hinvocations⟩
    have hpre' := hinj _ (hmem₁ _ (by simp)) _ (hmem₂ rec₂.preHash (by simp)) hpre
    have hloop' := hinj _ (hmem₁ _ (by simp)) _ (hmem₂ rec₂.loopHash (by simp)) hloop
    cases rec₁
    cases rec₂
    simp_all
  rw [hinj final₁ List.mem_cons_self final₂ List.mem_cons_self hfinal, hrecords]

/-- Two sessions, whatever their commands, whose reports are the same bytes have the same symbolic
report, unless SHA-256 fails on what was hashed for them. -/
theorem same_symbols (sha : List UInt8 → Digest) {cmds₁ cmds₂ : List Cmd}
    (h : reportAfter (Sha256.ofBytes sha) cmds₁ = reportAfter (Sha256.ofBytes sha) cmds₂) :
    symbolicReport cmds₁ = symbolicReport cmds₂ ∨
      ShaFails sha ((symbolicReport cmds₁).hashInputs sha)
        ((symbolicReport cmds₂).hashInputs sha) := by
  rw [reportAfter_eq, reportAfter_eq] at h
  exact symbols_eq_or_shaFails sha (encode_injective Function.injective_id h)

/-- A loop that stays open, without and with calls and a refused exit in it. -/
theorem same_symbols_openLoop :
    let alone : List Cmd := [.init (.ok 1), .event (.loopEnter 7), .event (.recordNode 5)]
    let mixed : List Cmd := [.init (.ok 1), .event (.callEnter 1 2), .event (.loopEnter 7),
      .event (.loopExit 9), .event (.recordNode 5), .event (.callReturn 3)]
    symbolicReport alone = ⟨[7, 5], [⟨7, [], [], 0, 1⟩]⟩ ∧
      (symbolicReport alone = symbolicReport mixed ∨
        ShaFails (fun _ => Vector.replicate 32 1)
          ((symbolicReport alone).hashInputs fun _ => Vector.replicate 32 1)
          ((symbolicReport mixed).hashInputs fun _ => Vector.replicate 32 1)) := by
  intro alone mixed
  have hsymbols : symbolicReport alone = symbolicReport mixed := by decide +kernel
  refine ⟨by decide +kernel, same_symbols _ ?_⟩
  rw [reportAfter_eq, reportAfter_eq, hsymbols]

end SecureWorld
end CFlat
