import CFlat.SecureWorld.CallStack

/-!
# Frames — what balanced calls leave of the call stack

`cmd_call_enter` refuses a push at 32 calls, `cmd_call_return` pops whatever is there.  A call whose
entry was refused still sends its return, which then pops a frame of its callers.
`framesKept_iff` says for which balanced sequences no frame is lost.
-/

namespace CFlat
namespace SecureWorld

open Lib

variable {D : Type} {H : Sha256 D}

/-! ## Balanced sequences -/

/-- The events that are no call events. -/
abbrev OtherEvent := {e : Event // e.isCall = false}

/-- A balanced sequence of call entries and returns, interleaved with other events. -/
abbrev CallNest := Nest CallSite OtherEvent

/-- The flat sequence of events of a balanced sequence. -/
def callEvents (t : CallNest) : List Event :=
  t.flatten CallSite.enter CallSite.exit Subtype.val

/-- `call_depth` and `call_stack[0..call_depth)`. -/
def SessionCtx.frames (ctx : SessionCtx D) : Int × List CallRecord :=
  (ctx.callDepth, ctx.callStack.toList.take ctx.callDepth.toNat)

theorem callEvents_leaf (e : OtherEvent) (rest : CallNest) (ctx : SessionCtx D) :
    Machine.run (handle H) ctx (callEvents (.leaf e rest)) =
      Machine.run (handle H) (handle H ctx e.1).2 (callEvents rest) := rfl

theorem callEvents_loop (site : CallSite) (body rest : CallNest) (ctx : SessionCtx D) :
    Machine.run (handle H) ctx (callEvents (.loop site body rest)) =
      Machine.run (handle H)
        (handle H (Machine.run (handle H) (handle H ctx site.enter).2 (callEvents body))
          site.exit).2 (callEvents rest) := by
  simp [callEvents, Nest.flatten, Machine.run_append]

/-! ## One event -/

theorem callStack_other (ctx : SessionCtx D) {e : Event} (he : e.isCall = false) :
    (handle H ctx e).2.callStack = ctx.callStack := by
  have hsame := handle_withCalls (H := H) ctx ctx.callStack ctx.callDepth he
  exact congrArg (fun out => out.2.callStack) hsame

theorem enter_refused (ctx : SessionCtx D) (hfull : ctx.callDepth ≥ maxCallDepth)
    (site : CallSite) : (handle H ctx site.enter).2 = ctx := by
  simp only [CallSite.enter, handle, cmdCallEnter, if_pos hfull]

/-- An entry writes the frame at the depth and none below it. -/
theorem take_callStack_enter (ctx : SessionCtx D) (site : CallSite) {k : Nat}
    (hk : k ≤ ctx.callDepth.toNat) :
    (handle H ctx site.enter).2.callStack.toList.take k = ctx.callStack.toList.take k := by
  simp only [CallSite.enter, handle, cmdCallEnter]
  split
  · rfl
  · rw [toList_modifyAt, List.take_modify]
    exact List.modify_eq_self (Nat.le_trans (List.length_take_le k _) hk)

theorem callStack_exit (ctx : SessionCtx D) (site : CallSite) :
    (handle H ctx site.exit).2.callStack = ctx.callStack := by
  simp only [CallSite.exit, handle, cmdCallReturn]
  split <;> rfl

theorem callDepth_exit_of_zero (ctx : SessionCtx D) (hzero : ctx.callDepth = 0)
    (site : CallSite) : (handle H ctx site.exit).2.callDepth = 0 := by
  simp [CallSite.exit, handle, cmdCallReturn, hzero]

/-! ## The depth after a balanced sequence -/

theorem wellFormed_callEvents {ctx : SessionCtx D} (hwf : WellFormed ctx) (es : List Event) :
    WellFormed (Machine.run (handle H) ctx es) :=
  Machine.run_invariant (handle H) (I := WellFormed) (P := fun _ => True)
    (fun _ e _ h => wellFormed_handle h e) hwf es (fun _ _ => trivial)

/-- A balanced sequence never ends above the depth it started at. -/
theorem callDepth_callEvents_le (t : CallNest) :
    ∀ {ctx : SessionCtx D}, WellFormed ctx →
      (Machine.run (handle H) ctx (callEvents t)).callDepth ≤ ctx.callDepth := by
  induction t with
  | nil => exact fun _ => Int.le_refl _
  | leaf e rest ih =>
      intro ctx hwf
      have hrest := ih (wellFormed_handle (H := H) hwf e.1)
      rw [callEvents_leaf]
      rwa [callDepth_handle ctx e.2] at hrest
  | loop site body rest ihBody ihRest =>
      intro ctx hwf
      have hwf₁ := wellFormed_handle (H := H) hwf site.enter
      have hwf₂ := wellFormed_callEvents (H := H) hwf₁ (callEvents body)
      have hbody := ihBody hwf₁
      have hrest := ihRest (wellFormed_handle (H := H) hwf₂ site.exit)
      rw [callEvents_loop]
      refine Int.le_trans hrest ?_
      -- The return takes one frame off, unless there is none left.
      rcases Int.lt_or_le 0 (Machine.run (handle H) (handle H ctx site.enter).2
        (callEvents body)).callDepth with hpos | hzero
      · rw [callDepth_exit _ hpos site]
        rcases Int.lt_or_le ctx.callDepth maxCallDepth with hroom | hfull
        · rw [callDepth_enter ctx hroom site] at hbody
          omega
        · rw [enter_refused ctx hfull site] at hbody hpos ⊢
          omega
      · have hnonneg := hwf₂.callDepth_nonneg
        rw [callDepth_exit_of_zero _ (by omega) site]
        exact hwf.callDepth_nonneg

/-- A balanced sequence that keeps a positive depth had room for its nesting. -/
theorem room_of_callDepth_eq (t : CallNest) :
    ∀ {ctx : SessionCtx D}, WellFormed ctx → 0 < ctx.callDepth →
      (Machine.run (handle H) ctx (callEvents t)).callDepth = ctx.callDepth →
        ctx.callDepth + t.depth ≤ maxCallDepth := by
  induction t with
  | nil =>
      intro ctx hwf _ _
      simpa [Nest.depth] using hwf.callDepth_le
  | leaf e rest ih =>
      intro ctx hwf hpos hsame
      have hkeep := callDepth_handle (H := H) ctx e.2
      rw [callEvents_leaf] at hsame
      have hrest := ih (wellFormed_handle (H := H) hwf e.1) (by rwa [hkeep]) (by rw [hsame, hkeep])
      rwa [hkeep] at hrest
  | loop site body rest ihBody ihRest =>
      intro ctx hwf hpos hsame
      have hwf₁ := wellFormed_handle (H := H) hwf site.enter
      have hwf₂ := wellFormed_callEvents (H := H) hwf₁ (callEvents body)
      have hwf₃ := wellFormed_handle (H := H) hwf₂ site.exit
      have hbody := callDepth_callEvents_le (H := H) body hwf₁
      have hrest := callDepth_callEvents_le (H := H) rest hwf₃
      rw [callEvents_loop] at hsame
      -- The depth behind the return is the one in front of the call.
      have hbodyPos : 0 < (Machine.run (handle H) (handle H ctx site.enter).2
          (callEvents body)).callDepth := by
        by_contra hnot
        have hnonneg := hwf₂.callDepth_nonneg
        have hzero := callDepth_exit_of_zero (H := H) (Machine.run (handle H)
          (handle H ctx site.enter).2 (callEvents body)) (by omega) site
        omega
      have hexit := callDepth_exit (H := H) _ hbodyPos site
      rcases Int.lt_or_le ctx.callDepth maxCallDepth with hroom | hfull
      · have henter := callDepth_enter (H := H) ctx hroom site
        have hbodyRoom := ihBody hwf₁ (by omega) (by omega)
        have hrestRoom := ihRest hwf₃ (by omega) (by omega)
        simp only [Nest.depth]
        omega
      · -- A refused entry is not made up for.
        rw [enter_refused ctx hfull site] at hbody hexit hrest hsame
        omega

/-! ## The frames after a balanced sequence -/

/-- With room for its nesting, a balanced sequence leaves the frames below its start alone. -/
theorem take_callStack_callEvents (t : CallNest) :
    ∀ {ctx : SessionCtx D} {k : Nat}, 0 ≤ ctx.callDepth → k ≤ ctx.callDepth.toNat →
      ctx.callDepth + t.depth ≤ maxCallDepth →
        (Machine.run (handle H) ctx (callEvents t)).callStack.toList.take k =
          ctx.callStack.toList.take k := by
  induction t with
  | nil => exact fun _ _ _ => rfl
  | leaf e rest ih =>
      intro ctx k hnonneg hk hroom
      have hkeep := callDepth_handle (H := H) ctx e.2
      rw [callEvents_leaf, ih (by rwa [hkeep]) (by rwa [hkeep]) (by rwa [hkeep]),
        callStack_other ctx e.2]
  | loop site body rest ihBody ihRest =>
      intro ctx k hnonneg hk hroom
      simp only [Nest.depth] at hroom
      have henter := callDepth_enter (H := H) ctx (by omega) site
      have hbody := callDepth_nest (H := H) Subtype.val body (handle H ctx site.enter).2 (by omega)
        (by omega) (fun a _ => a.2)
      have hexit := callDepth_exit (H := H) (Machine.run (handle H) (handle H ctx site.enter).2
        (callEvents body)) (by rw [callEvents]; omega) site
      rw [callEvents, hbody, henter] at hexit
      rw [callEvents_loop, ihRest (by rw [callEvents]; omega) (by rw [callEvents]; omega)
        (by rw [callEvents]; omega), callStack_exit, ihBody (by omega) (by omega) (by omega),
        take_callStack_enter ctx site hk]

theorem wellFormed_afterHistory (history : List Cmd) : WellFormed (afterHistory H history) :=
  wellFormed_run wellFormed_open history

/-- Balanced calls leave the depth and the frames as they were exactly when the call stack has room
for their nesting, or there were no frames. -/
theorem framesKept_iff (H : Sha256 D) (history : List Cmd) (t : CallNest) :
    (Machine.run (handle H) (afterHistory H history) (callEvents t)).frames =
        (afterHistory H history).frames ↔
      (afterHistory H history).callDepth = 0 ∨
        (afterHistory H history).callDepth + t.depth ≤ maxCallDepth := by
  have hwf := wellFormed_afterHistory (H := H) history
  have hnonneg := hwf.callDepth_nonneg
  constructor
  · intro hframes
    have hdepth := congrArg Prod.fst hframes
    rcases Int.lt_or_le 0 (afterHistory H history).callDepth with hpos | hzero
    · exact Or.inr (room_of_callDepth_eq t hwf hpos hdepth)
    · exact Or.inl (by omega)
  · rintro (hzero | hroom)
    · -- Without frames there is nothing to lose.
      have hle := callDepth_callEvents_le (H := H) t hwf
      have hge := (wellFormed_callEvents (H := H) hwf (callEvents t)).callDepth_nonneg
      have hend :
          (Machine.run (handle H) (afterHistory H history) (callEvents t)).callDepth = 0 := by
        omega
      simp [SessionCtx.frames, hzero, hend]
    · have hdepth := callDepth_nest (H := H) Subtype.val t (afterHistory H history) hnonneg hroom
        (fun a _ => a.2)
      have hstack := take_callStack_callEvents (H := H) t hnonneg (Nat.le_refl _) hroom
      rw [SessionCtx.frames, callEvents, hdepth, SessionCtx.frames, ← hstack]
      rfl

/-- The call stack is full, and one more call is made and returns. -/
theorem frame_lost_by_refused_entry :
    ¬ ∀ (history : List Cmd) (t : CallNest),
        (Machine.run (handle Sha256.free) (afterHistory Sha256.free history)
          (callEvents t)).frames = (afterHistory Sha256.free history).frames := by
  intro h
  have hframes := h (.init (.ok 1) :: List.replicate 32 (.event (.callEnter 1 2)))
    (.loop ⟨3, 4, 3⟩ .nil .nil)
  have hdepth := congrArg Prod.fst hframes
  revert hdepth
  decide +kernel

end SecureWorld
end CFlat
