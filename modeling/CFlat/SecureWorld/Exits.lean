import CFlat.Lib.Brackets
import CFlat.SecureWorld.ForceClose

/-!
# Exits — which loop exits are accepted

`cmd_loop_exit` looks for an active record of the loop it is given, not for the innermost one.
`exits_by_name` says what this means for every sequence of events: an exit is accepted as soon as
its loop is open, so that the accepted events of each single loop are well nested, but those of
different loops only if the exits happen to come innermost first.
-/

namespace CFlat

/-- The loop that an event enters or leaves. -/
def Event.loop? : Event → Option UInt64
  | .loopEnter loopId => some loopId
  | .loopExit loopId => some loopId
  | _ => none

namespace SecureWorld

open Lib

variable {D : Type} {H : Sha256 D}

/-! ## Nesting of a log -/

/-- One event on a stack of open loops: an exit must find its loop on top. -/
def bracketStep (loopIds : List UInt64) : Event → Option (List UInt64)
  | .loopEnter loopId => some (loopId :: loopIds)
  | .loopExit loopId =>
      match loopIds with
      | [] => none
      | top :: rest => if top = loopId then some rest else none
  | _ => some loopIds

theorem scan_bracketStep :
    Nest.Scan Event.loopEnter Event.loopExit Leaf.toEvent bracketStep where
  opens := fun _ _ => rfl
  closes := by simp [bracketStep]
  skips := by
    intro loopIds a
    cases a <;> rfl
  accepts := by
    intro loopIds e loopIds' h
    cases e with
    | loopEnter loopId => exact Or.inl ⟨loopId, rfl, (Option.some.inj h).symm⟩
    | loopExit loopId =>
        cases loopIds with
        | nil => simp [bracketStep] at h
        | cons top rest =>
            by_cases htop : top = loopId
            · subst htop
              refine Or.inr (Or.inl ⟨top, rfl, ?_⟩)
              simpa [bracketStep] using h
            · simp [bracketStep, htop] at h
    | recordNode nodeId => exact Or.inr (Or.inr ⟨.node nodeId, rfl, (Option.some.inj h).symm⟩)
    | loopIteration loopId =>
        exact Or.inr (Or.inr ⟨.iteration loopId, rfl, (Option.some.inj h).symm⟩)
    | callEnter callId caller =>
        exact Or.inr (Or.inr ⟨.callEnter callId caller, rfl, (Option.some.inj h).symm⟩)
    | callReturn callId =>
        exact Or.inr (Or.inr ⟨.callReturn callId, rfl, (Option.some.inj h).symm⟩)

/-- These events, oldest first, are an initial part of well-nested ones. -/
def PrefixNested (es : List Event) : Prop := ∃ t : Trace, es <+: t.events

theorem prefixNested_iff (es : List Event) :
    PrefixNested es ↔ (es.foldlM bracketStep []).isSome := scan_bracketStep.prefix_iff

instance (es : List Event) : Decidable (PrefixNested es) :=
  decidable_of_iff _ (prefixNested_iff es).symm

/-- Every exit in the log is that of the loop entered last among those open at the time. -/
def InnermostFirst : List Event → Prop
  | [] => True
  | .loopExit loopId :: log => (openLoops log).head? = some loopId ∧ InnermostFirst log
  | _ :: log => InnermostFirst log

/-- Every exit in the log is that of a loop that is open at the time. -/
def Justified : List Event → Prop
  | [] => True
  | .loopExit loopId :: log => 0 < openCount log loopId ∧ Justified log
  | _ :: log => Justified log

/-- The stack machine follows the open loops of a log as long as the exits come innermost first. -/
theorem scan_log (log : List Event) :
    (InnermostFirst log → log.reverse.foldlM bracketStep [] = some (openLoops log)) ∧
      ((log.reverse.foldlM bracketStep []).isSome → InnermostFirst log) := by
  induction log with
  | nil => exact ⟨fun _ => rfl, fun _ => trivial⟩
  | cons e log ih =>
      rcases ih with ⟨hfollow, hsome⟩
      rw [List.reverse_cons, List.foldlM_append]
      cases e with
      | loopExit loopId =>
          constructor
          · rintro ⟨htop, hlog⟩
            rw [hfollow hlog]
            cases hopen : openLoops log with
            | nil => simp [hopen] at htop
            | cons top rest =>
                obtain rfl : top = loopId := by simpa [hopen] using htop
                simp [bracketStep, openLoops, hopen]
          · intro h
            cases hscan : log.reverse.foldlM bracketStep [] with
            | none => simp [hscan] at h
            | some loopIds =>
                have hlog := hsome (by simp [hscan])
                rw [hfollow hlog] at hscan h
                refine ⟨?_, hlog⟩
                cases hopen : openLoops log with
                | nil => simp [hopen, bracketStep] at h
                | cons top rest =>
                    by_cases htop : top = loopId
                    · simp [htop]
                    · simp [hopen, bracketStep, htop] at h
      | _ =>
          refine ⟨fun hlog => ?_, fun h => hsome ?_⟩
          · rw [hfollow hlog]
            rfl
          · cases hscan : log.reverse.foldlM bracketStep [] with
            | none => simp [hscan] at h
            | some loopIds => rfl

theorem prefixNested_log_iff (log : List Event) :
    PrefixNested log.reverse ↔ InnermostFirst log := by
  rcases scan_log log with ⟨hfollow, hsome⟩
  rw [prefixNested_iff]
  refine ⟨hsome, fun hlog => ?_⟩
  rw [hfollow hlog]
  rfl

theorem Justified.exits_le {log : List Event} (h : Justified log) (loopId : UInt64) :
    log.count (.loopExit loopId) ≤ log.count (.loopEnter loopId) := by
  induction log with
  | nil => exact Nat.le_refl 0
  | cons e log ih =>
      cases e with
      | loopEnter loopId' =>
          have hle := ih h
          by_cases hid : loopId' = loopId
          · subst hid
            simp only [List.count_cons_self, ne_eq, reduceCtorEq, not_false_eq_true,
              List.count_cons_of_ne]
            exact Nat.le_succ_of_le hle
          · simpa [hid] using hle
      | loopExit loopId' =>
          rcases h with ⟨hopen, hlog⟩
          have hle := ih hlog
          by_cases hid : loopId' = loopId
          · subst hid
            simp only [openCount] at hopen
            simp only [List.count_cons_self, ne_eq, reduceCtorEq, not_false_eq_true,
              List.count_cons_of_ne]
            omega
          · simpa [hid] using hle
      | _ =>
          have hle := ih h
          simpa using hle

/-- The events of one loop in a log whose exits are justified are well nested. -/
theorem Justified.scan_loop {log : List Event} (h : Justified log) (loopId : UInt64) :
    (log.filter (·.loop? = some loopId)).reverse.foldlM bracketStep [] =
      some (List.replicate (openCount log loopId) loopId) := by
  induction log with
  | nil => rfl
  | cons e log ih =>
      cases e with
      | loopEnter loopId' =>
          have hlog : Justified log := h
          have htail := ih hlog
          have hle := hlog.exits_le loopId
          by_cases hid : loopId' = loopId
          · subst hid
            have hcount : openCount (.loopEnter loopId' :: log) loopId' =
                openCount log loopId' + 1 := by
              simp [openCount]
              omega
            rw [List.filter_cons_of_pos (by simp [Event.loop?]), List.reverse_cons,
              List.foldlM_append, htail, hcount, List.replicate_succ]
            rfl
          · have hcount : openCount (.loopEnter loopId' :: log) loopId = openCount log loopId := by
              simp [openCount, hid]
            simpa [Event.loop?, hid, hcount] using htail
      | loopExit loopId' =>
          rcases h with ⟨hopen, hlog⟩
          have htail := ih hlog
          by_cases hid : loopId' = loopId
          · subst hid
            have hcount : openCount log loopId' =
                openCount (.loopExit loopId' :: log) loopId' + 1 := by
              simp [openCount] at hopen ⊢
              omega
            rw [hcount, List.replicate_succ] at htail
            rw [List.filter_cons_of_pos (by simp [Event.loop?]), List.reverse_cons,
              List.foldlM_append, htail]
            simp [bracketStep]
          · have hcount : openCount (.loopExit loopId' :: log) loopId = openCount log loopId := by
              simp [openCount, hid]
            simpa [Event.loop?, hid, hcount] using htail
      | _ =>
          have htail := ih h
          simpa [Event.loop?, openCount] using htail

/-! ## The log of a run -/

theorem measuredBy_concat (ctx : SessionCtx D) (handle : Handle) (es : List Event) (e : Event) :
    measuredBy H ctx handle (es ++ [e]) =
      (logged H (measuredBy H ctx handle es) (.event e)).2 := by
  rw [measuredBy, List.map_append, Machine.run_append]
  rfl

/-- The step lemma: what is added to the log is justified. -/
theorem justified_step {s : SessionCtx D × List Event} (hacc : Accounts s) (h : Justified s.2)
    (e : Event) : Justified (logged H s (.event e)).2.2 := by
  rw [logged_event]
  cases e with
  | loopExit loopId =>
      by_cases hres : (cmdLoopExit s.1 loopId).1 = .success
      · simp only [Event.isBracket, handle, hres, beq_self_eq_true, Bool.and_self, if_true]
        exact ⟨(hacc.exit_accepted_iff loopId).1 hres, h⟩
      · simp only [Event.isBracket, handle, hres, Bool.true_and, beq_iff_eq, if_false]
        exact h
  | loopEnter loopId =>
      simp only
      split
      · exact h
      · exact h
  | _ => exact h

theorem justified_measuredBy (ctx : SessionCtx D) (handle : Handle) (es : List Event) :
    Justified (measuredBy H ctx handle es).2 := by
  induction es using List.reverseRecOn with
  | nil => exact trivial
  | append_singleton es e ih =>
      rw [measuredBy_concat]
      exact justified_step (accounts_measuredBy ctx handle es) ih e

/-! ## The restored hash -/

/-- Every active record of the loop has saved this hash. -/
def Saved (ctx : SessionCtx D) (loopId : UInt64) (hash : D) : Prop :=
  ∀ rec ∈ ctx.live, isActiveOf loopId rec = true → rec.preLoopHash = hash

/-- An entry of a loop that is not active saves the current hash. -/
theorem saved_enter {ctx : SessionCtx D} (hwf : WellFormed ctx) {loopId : UInt64}
    (hclosed : ctx.activeOf loopId = 0) (hres : (handle H ctx (.loopEnter loopId)).1 = .success) :
    Saved (handle H ctx (.loopEnter loopId)).2 loopId ctx.currentHash := by
  have hidle := activeOf_eq_zero_iff.1 hclosed
  have hcase := cmdLoopEnter_case (H := H) hwf loopId
  simp only [handle] at hres ⊢
  generalize cmdLoopEnter H ctx loopId = out at hcase hres ⊢
  intro rec hrec hactive
  cases hcase with
  | refused => cases hres
  | reopens h =>
      rw [h.live] at hrec
      rcases mem_updateFirst hrec with hold | ⟨old, _, _, rfl⟩
      · simp [hidle rec hold] at hactive
      · rfl
  | allocates h =>
      rw [h.live] at hrec
      rcases List.mem_append.1 hrec with hold | hnew
      · simp [hidle rec hold] at hactive
      · rw [List.mem_singleton.1 hnew]
        rfl

/-- Events that neither enter nor leave the loop keep what it has saved. -/
theorem Saved.step {ctx : SessionCtx D} (hwf : WellFormed ctx) {loopId : UInt64} {hash : D}
    (h : Saved ctx loopId hash) {e : Event} (he : e.loop? ≠ some loopId) :
    Saved (handle H ctx e).2 loopId hash := by
  have hcase := table_case (H := H) hwf e
  generalize (handle H ctx e).2 = ctx' at hcase ⊢
  intro rec hrec hactive
  cases hcase with
  | untouched hframe =>
      rw [hframe.live] at hrec
      exact h rec hrec hactive
  | @reopens _ loopId' _ hr =>
      rw [hr.live] at hrec
      rcases mem_updateFirst hrec with hold | ⟨old, _, htest, rfl⟩
      · exact h rec hold hactive
      · -- The record that is written belongs to another loop.
        have hold : old.loopId = loopId := loopId_of_isActiveOf (old.opened _) hactive
        have hid : loopId' = loopId := (loopId_of_isInactiveOf old htest).symm.trans hold
        exact absurd (congrArg some hid) he
  | @allocates _ loopId' _ ha =>
      rw [ha.live] at hrec
      rcases List.mem_append.1 hrec with hold | hnew
      · exact h rec hold hactive
      · rw [List.mem_singleton.1 hnew] at hactive
        have hid : loopId' = loopId := loopId_of_isActiveOf _ hactive
        exact absurd (congrArg some hid) he
  | closes hc =>
      rw [hc.live] at hrec
      rcases mem_updateFirst hrec with hold | ⟨old, _, _, rfl⟩
      · exact h rec hold hactive
      · exact absurd (isActive_of_isActiveOf hactive) (by simp [LoopRecord.closed])
  | counts hc =>
      rw [hc.live] at hrec
      rcases mem_modify hrec with hold | ⟨old, hold, rfl⟩
      · exact h rec hold hactive
      · exact h old hold hactive

theorem Saved.run {loopId : UInt64} {hash : D} {es : List Event}
    (hes : ∀ e ∈ es, e.loop? ≠ some loopId) :
    ∀ {s : SessionCtx D × List Event}, WellFormed s.1 → Saved s.1 loopId hash →
      Saved ((logged H).run s (es.map .event)).1 loopId hash := by
  induction es with
  | nil => exact fun _ h => h
  | cons e es ih =>
      intro s hwf h
      exact ih (fun e' he' => hes e' (by simp [he'])) (s := (logged H s (.event e)).2)
        (wellFormed_handle hwf e) (h.step hwf (hes e (by simp)))

/-- An accepted exit restores what the active records of its loop have saved. -/
theorem Saved.restored {ctx : SessionCtx D} {loopId : UInt64} {hash : D}
    (h : Saved ctx loopId hash) (hres : (handle H ctx (.loopExit loopId)).1 = .success) :
    (handle H ctx (.loopExit loopId)).2.currentHash = hash := by
  have hcase := cmdLoopExit_case ctx loopId
  simp only [handle] at hres ⊢
  generalize cmdLoopExit ctx loopId = out at hcase hres ⊢
  cases hcase with
  | underflow => cases hres
  | notFound => cases hres
  | closes hc =>
      rcases List.findIdx?_eq_some_iff_getElem.1 hc.index with ⟨hi, hmatch, _⟩
      have hrec := Option.some.inj ((List.getElem?_eq_getElem hi).symm.trans hc.record)
      rw [hrec] at hmatch
      rw [hc.currentHash]
      exact h _ (List.mem_of_getElem? hc.record) hmatch

/-! ## All runs -/

variable (H) in
/-- What loop exits do after a successful CMD_INIT and these events. -/
structure ExitsByName (ctx : SessionCtx D) (handle : Handle) (es : List Event) : Prop where
  /-- An exit is accepted exactly when an accepted entry of its loop is still open. -/
  accepted : ∀ loopId,
    (SecureWorld.handle H (measuredBy H ctx handle es).1 (.loopExit loopId)).1 = .success ↔
      0 < openCount (measuredBy H ctx handle es).2 loopId
  /-- The accepted events of one loop are an initial part of well-nested ones. -/
  perLoop : ∀ loopId,
    PrefixNested ((measuredBy H ctx handle es).2.reverse.filter (·.loop? = some loopId))
  /-- Those of all loops are exactly when the accepted exits come innermost first. -/
  nested : PrefixNested (measuredBy H ctx handle es).2.reverse ↔
    InnermostFirst (measuredBy H ctx handle es).2
  /-- An exit restores the hash from before the entry, if its loop is not re-entered between. -/
  restored : ∀ before loopId inside, es = before ++ .loopEnter loopId :: inside →
    (∀ e ∈ inside, e.loop? ≠ some loopId) →
      openCount (measuredBy H ctx handle before).2 loopId = 0 →
        (SecureWorld.handle H (measuredBy H ctx handle before).1 (.loopEnter loopId)).1 =
          .success →
          (SecureWorld.handle H (measuredBy H ctx handle es).1 (.loopExit loopId)).1 =
            .success →
            (SecureWorld.handle H (measuredBy H ctx handle es).1 (.loopExit loopId)).2.currentHash =
              (measuredBy H ctx handle before).1.currentHash

/-- Loop exits go by the name of their loop, whatever the order of the events. -/
theorem exits_by_name (H : Sha256 D) (ctx : SessionCtx D) (handle : Handle) (es : List Event) :
    ExitsByName H ctx handle es where
  accepted := (accounts_measuredBy ctx handle es).exit_accepted_iff
  perLoop := by
    intro loopId
    rw [prefixNested_iff, List.filter_reverse,
      (justified_measuredBy (H := H) ctx handle es).scan_loop loopId]
    rfl
  nested := prefixNested_log_iff _
  restored := by
    rintro before loopId inside rfl hinside hclosed hentered hleft
    have hacc := accounts_measuredBy (H := H) ctx handle before
    rw [hacc.openCount_eq] at hclosed
    have hsaved := saved_enter hacc.wellFormed hclosed hentered
    have hrun : measuredBy H ctx handle (before ++ .loopEnter loopId :: inside) =
        (logged H).run (logged H (measuredBy H ctx handle before) (.event (.loopEnter loopId))).2
          (inside.map .event) := by
      rw [measuredBy, List.map_append, Machine.run_append]
      rfl
    have hwf := (hacc.step (H := H) (.event (.loopEnter loopId))).wellFormed
    have hsaved' := Saved.run (H := H) hinside hwf hsaved
    rw [hrun] at hleft ⊢
    exact hsaved'.restored hleft

/-- An outer loop can be left before an inner one. -/
theorem outer_exit_accepted :
    ¬ ∀ (handle : Handle) (es : List Event),
        PrefixNested (measuredBy Sha256.free (taOpenSessionEntryPoint Sha256.free) handle
          es).2.reverse := by
  intro h
  exact absurd (h 1 [.loopEnter 1, .loopEnter 2, .loopExit 1]) (by decide +kernel)

end SecureWorld
end CFlat
