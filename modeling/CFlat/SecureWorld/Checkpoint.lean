import CFlat.SecureWorld.Twins

/-!
# Checkpoint — a CMD_FINALIZE that finds no loop open

`cmd_finalize` resets nothing.  Sessions that are alike differ in their handles and in the report
they store only, so nothing measured later tells them apart; and a CMD_FINALIZE that has no loop to
close leads from a session to one that is alike.
-/

namespace CFlat
namespace SecureWorld

open Lib

variable {D : Type} {H : Sha256 D} {c₁ c₂ : SessionCtx D}

/-- Two sessions that hold the same measurement; their handles and their stored reports may
differ. -/
def Alike (c₁ c₂ : SessionCtx D) : Prop := ∃ T, Twin Eq T c₁ c₂

/-- With nothing left over that differs, the two records of a place are one record. -/
theorem Agrees.eq {p : Place D} (h : Agrees Eq p) : p.2.2 = p.2.1 := by
  have hhash : p.2.2.loopHash = p.2.1.loopHash := by
    cases hclosed : p.1.wasClosed with
    | true => exact h.loopHash hclosed
    | false => exact (h.leftover hclosed).symm
  rw [h.others, hhash]

theorem alike_init (handle₁ handle₂ : Handle) (ctx : SessionCtx D) :
    Alike (cmdInit H (.ok handle₁) ctx).2 (cmdInit H (.ok handle₂) ctx).2 :=
  ⟨.empty, twin_init (List.forall₂_same.2 fun _ _ => rfl) handle₁ handle₂⟩

namespace Alike

variable (h : Alike c₁ c₂)
include h

theorem ready : Ready c₂ := by
  rcases h with ⟨T, htwin⟩
  exact htwin.right

theorem live : c₂.live = c₁.live := by
  rcases h with ⟨T, htwin⟩
  rcases htwin.places with ⟨ps, hps⟩
  rw [hps.left, hps.right]
  exact List.map_congr_left fun p hp => (hps.agree p hp).eq

/-- Both are about to report the same. -/
theorem measured : c₂.measured = c₁.measured := by
  have hlive := h.live
  rcases h with ⟨T, htwin⟩
  simp [SessionCtx.measured, hlive, htwin.currentHash]

/-- An event is answered alike and leaves the sessions alike. -/
theorem handle (e : Event) :
    (SecureWorld.handle H c₂ e).1 = (SecureWorld.handle H c₁ e).1 ∧
      Alike (SecureWorld.handle H c₁ e).2 (SecureWorld.handle H c₂ e).2 := by
  rcases h with ⟨T, htwin⟩
  rcases twin_handle (H := H) htwin e with ⟨hreply, hnext⟩
  exact ⟨hreply.symm, _, hnext⟩

/-- A CMD_FINALIZE in one of the sessions, if it has no loop to close. -/
theorem finalize (hshut : c₁.activeCount = 0) : Alike c₁ (cmdFinalize H c₂).2 := by
  have hlive := h.live
  rcases h with ⟨T, htwin⟩
  rcases htwin.places with ⟨ps, hps⟩
  have hwf := htwin.right.wellFormed
  have hinactive : ∀ rec ∈ c₂.live, rec.deactivated = rec := by
    intro rec hrec
    rw [hlive] at hrec
    have hactive : ¬ rec.isActive = true := List.countP_eq_zero.1 hshut rec hrec
    simp [LoopRecord.deactivated, hactive]
  have hsame : (cmdFinalize H c₂).2.live = c₂.live := by
    calc
      (cmdFinalize H c₂).2.live = c₂.live.map LoopRecord.deactivated := live_forceClose hwf
      _ = c₂.live.map id := List.map_congr_left hinactive
      _ = c₂.live := List.map_id _
  have hspare : (cmdFinalize H c₂).2.spare = c₂.spare := spare_forceClose hwf
  refine ⟨T, htwin.left, ready_finalize htwin.right, htwin.depth_left, htwin.depth_right,
    htwin.currentHash, htwin.callDepth, ⟨ps, hps.slots, hps.left, hsame.trans hps.right,
      hps.agree⟩, ?_⟩
  rw [hspare]
  exact htwin.spare

end Alike

end SecureWorld
end CFlat
