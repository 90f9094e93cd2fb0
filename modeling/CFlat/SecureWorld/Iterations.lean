import CFlat.SecureWorld.Isolation
import CFlat.SecureWorld.Views

/-!
# Iterations — what CMD_LOOP_ITERATION can and cannot change

`cmd_loop_iteration` enters no hash: it adds one to a count that no other command reads.
`iterations_unhashed` says what follows for whole runs: with and without these commands every other
command is answered alike, and the reports differ in nothing but their iteration counts.
-/

namespace CFlat
namespace SecureWorld

open Lib

variable {D : Type} {H : Sha256 D} {c₁ c₂ : SessionCtx D}

/-! ## Reports without their counts -/

def Report.uncounted (rep : Report D) : Report D :=
  { rep with loops := rep.loops.map fun rec => { rec with iterations := 0 } }

variable (H) in
/-- The view that does not count. -/
def uncounting : View H H := .ofCount (fun _ => 0) rfl

theorem report_uncounting (rep : Report D) : (uncounting H).report rep = rep.uncounted := rfl

/-- Two sessions that differ in their iteration counts and in their stored reports only. -/
abbrev UpToCounts (H : Sha256 D) (c₁ c₂ : SessionCtx D) : Prop :=
  LooksAlike (uncounting H) (uncounting H) c₁ c₂

/-- An iteration in one of the sessions. -/
theorem UpToCounts.iteration (h : UpToCounts H c₁ c₂) (loopId : UInt64) :
    UpToCounts H (exec H c₁ (.event (.loopIteration loopId))).2 c₂ :=
  ⟨wellFormed_exec h.left (.event (.loopIteration loopId)), h.right,
    (iteration_view (fun _ => rfl) c₁ loopId).trans h.same⟩

/-! ## Runs without their iterations -/

/-- The commands that are no iterations. -/
def iterationFree (cmds : List Cmd) : List Cmd := cmds.filter fun cmd => !cmd.isIteration

variable (H) in
/-- What the replies to the commands that are no iterations show. -/
def otherShapes (ctx : SessionCtx D) (cmds : List Cmd) : List (TeeResult × Option UInt32) :=
  ((cmds.zip ((exec H).replies ctx cmds)).filter fun entry => !entry.1.isIteration).map
    fun entry => entry.2.shape

/-- The run lemma. -/
theorem UpToCounts.run (h : UpToCounts H c₁ c₂) (cmds : List Cmd) :
    otherShapes H c₁ cmds =
        ((exec H).replies c₂ (iterationFree cmds)).map Reply.shape ∧
      UpToCounts H ((exec H).run c₁ cmds) ((exec H).run c₂ (iterationFree cmds)) := by
  induction cmds generalizing c₁ c₂ with
  | nil => exact ⟨rfl, h⟩
  | cons cmd cmds ih =>
      cases hcmd : cmd.isIteration with
      | true =>
          -- The command is dropped on the other side, where nothing happens.
          have hstep : UpToCounts H (exec H c₁ cmd).2 c₂ := by
            cases cmd with
            | event e =>
                cases e with
                | loopIteration loopId => exact UpToCounts.iteration h loopId
                | _ => cases hcmd
            | _ => cases hcmd
          simpa [otherShapes, iterationFree, hcmd] using ih hstep
      | false =>
          rcases h.exec (.inl hcmd) with ⟨hshape, hstep⟩
          rcases ih hstep with ⟨hshapes, hrun⟩
          refine ⟨?_, by simpa [iterationFree, hcmd] using hrun⟩
          simp only [otherShapes] at hshapes
          simp [otherShapes, iterationFree, hcmd, hshape, hshapes]

variable (H) in
/-- What a session is without the iterations among these commands: the other commands are answered
alike, up to the bytes of the reports, the reports are the same but for the iteration counts, and
no iteration is ever refused. -/
structure IterationsUnhashed (cmds : List Cmd) : Prop where
  replies : otherShapes H (taOpenSessionEntryPoint H) cmds =
    ((exec H).replies (taOpenSessionEntryPoint H) (iterationFree cmds)).map Reply.shape
  measured : (afterHistory H cmds).measured.uncounted =
    (afterHistory H (iterationFree cmds)).measured.uncounted
  accepted : ∀ loopId,
    (exec H (afterHistory H cmds) (.event (.loopIteration loopId))).1.result = .success

/-- Iterations enter no hash and no decision of a session, whatever its commands. -/
theorem iterations_unhashed (H : Sha256 D) (cmds : List Cmd) : IterationsUnhashed H cmds := by
  have hstart : UpToCounts H (taOpenSessionEntryPoint H) (taOpenSessionEntryPoint H) :=
    ⟨wellFormed_open, wellFormed_open, rfl⟩
  rcases UpToCounts.run hstart cmds with ⟨hreplies, hrun⟩
  have hmeasured := hrun.measured
  rw [report_uncounting, report_uncounting] at hmeasured
  refine ⟨hreplies, hmeasured, fun loopId => ?_⟩
  simp only [exec, handle, cmdLoopIteration]
  split <;> rfl

end SecureWorld
end CFlat
