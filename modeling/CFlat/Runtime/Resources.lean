import CFlat.Runtime.Client

/-!
# Resources — open contexts and sessions of a client

The calls of the TEE Client API that a client has made determine how many contexts and sessions are
open and whether its static variables refer to open ones.  `Disciplined` says of such a log that
nothing open was overwritten, that every command went to an open session and that at most one
context and one session were open at any time.
-/

namespace CFlat
namespace Runtime

open SecureWorld

/-! ## Open contexts and sessions -/

/-- The number of open contexts and sessions, and whether the variables `ctx` and `sess` refer to
open ones. -/
structure Resources where
  contexts : Nat
  sessions : Nat
  ctx : Bool
  sess : Bool
  deriving DecidableEq, Repr

namespace Resources

/-- Nothing is open. -/
def closed : Resources := ⟨0, 0, false, false⟩

/-- One context and one session are open, and the variables refer to them. -/
def opened : Resources := ⟨1, 1, true, true⟩

/-- An opening overwrites its variable; a closing closes what its variable refers to. -/
def after (r : Resources) : TeecCall → Resources
  | .initializeContext true => { r with contexts := r.contexts + 1, ctx := true }
  | .openSession true => { r with sessions := r.sessions + 1, sess := true }
  | .closeSession =>
      { r with sessions := if r.sess then r.sessions - 1 else r.sessions, sess := false }
  | .finalizeContext =>
      { r with contexts := if r.ctx then r.contexts - 1 else r.contexts, ctx := false }
  | _ => r

end Resources

/-- What is open after these calls, newest call first. -/
def resources : List TeecCall → Resources
  | [] => .closed
  | call :: log => (resources log).after call

/-- A call keeps the discipline: it does not overwrite an open context or session, a command goes to
an open session, and at most one context and one session are open after it. -/
structure Allowed (r : Resources) (call : TeecCall) : Prop where
  ctx : call = .initializeContext true → r.ctx = false
  sess : call = .openSession true → r.sess = false
  invoked : ∀ cmdId, call = .invokeCommand cmdId → r.sess = true
  contexts : (r.after call).contexts ≤ 1
  sessions : (r.after call).sessions ≤ 1

/-- Every call of the log kept the discipline when it was made. -/
def Disciplined : List TeecCall → Prop
  | [] => True
  | call :: log => Allowed (resources log) call ∧ Disciplined log

/-- Commands on a log. -/
def issue (cmdIds : List UInt32) (log : List TeecCall) : List TeecCall :=
  cmdIds.map .invokeCommand ++ log

@[simp] theorem resources_issue (cmdIds : List UInt32) (log : List TeecCall) :
    resources (issue cmdIds log) = resources log := by
  induction cmdIds with
  | nil => rfl
  | cons cmdId cmdIds ih => exact ih

/-- Commands on an open session keep the discipline. -/
theorem disciplined_issue {log : List TeecCall} (h : Disciplined log)
    (hopened : resources log = .opened) (cmdIds : List UInt32) :
    Disciplined (issue cmdIds log) := by
  induction cmdIds with
  | nil => exact h
  | cons cmdId cmdIds ih =>
      have hnow : resources (issue cmdIds log) = .opened := (resources_issue _ _).trans hopened
      have hallowed : Allowed (resources (issue cmdIds log)) (.invokeCommand cmdId) := by
        rw [hnow]
        constructor <;> simp [Resources.opened, Resources.after]
      exact ⟨hallowed, ih⟩

/-- A command needs an open session. -/
theorem sess_of_disciplined_issue {log : List TeecCall} {cmdIds : List UInt32}
    (h : Disciplined (issue cmdIds log)) (hne : cmdIds ≠ []) : (resources log).sess = true := by
  cases cmdIds with
  | nil => exact absurd rfl hne
  | cons cmdId cmdIds =>
      rw [← resources_issue cmdIds log]
      exact h.1.invoked cmdId rfl

theorem disciplined_of_issue {log : List TeecCall} {cmdIds : List UInt32}
    (h : Disciplined (issue cmdIds log)) : Disciplined log := by
  induction cmdIds with
  | nil => exact h
  | cons cmdId cmdIds ih => exact ih h.2

theorem contexts_le {log : List TeecCall} (h : Disciplined log) : (resources log).contexts ≤ 1 := by
  cases log with
  | nil => exact Nat.zero_le 1
  | cons call log => exact h.1.contexts

theorem sessions_le {log : List TeecCall} (h : Disciplined log) : (resources log).sessions ≤ 1 := by
  cases log with
  | nil => exact Nat.zero_le 1
  | cons call log => exact h.1.sessions

/-- A failed opening or a closing keeps the discipline. -/
theorem disciplined_quiet {log : List TeecCall} (h : Disciplined log) {call : TeecCall}
    (hctx : call ≠ .initializeContext true) (hsess : call ≠ .openSession true)
    (hcmd : ∀ cmdId, call ≠ .invokeCommand cmdId) : Disciplined (call :: log) := by
  have hcontexts := contexts_le h
  have hsessions := sessions_le h
  have hle : ((resources log).after call).contexts ≤ (resources log).contexts ∧
      ((resources log).after call).sessions ≤ (resources log).sessions := by
    cases call with
    | initializeContext succeeds =>
        cases succeeds with
        | true => exact absurd rfl hctx
        | false => exact ⟨Nat.le_refl _, Nat.le_refl _⟩
    | openSession succeeds =>
        cases succeeds with
        | true => exact absurd rfl hsess
        | false => exact ⟨Nat.le_refl _, Nat.le_refl _⟩
    | invokeCommand cmdId => exact absurd rfl (hcmd cmdId)
    | closeSession =>
        refine ⟨Nat.le_refl _, ?_⟩
        simp only [Resources.after]
        split <;> omega
    | finalizeContext =>
        refine ⟨?_, Nat.le_refl _⟩
        simp only [Resources.after]
        split <;> omega
  exact ⟨⟨fun heq => absurd heq hctx, fun heq => absurd heq hsess,
    fun cmdId heq => absurd heq (hcmd cmdId), Nat.le_trans hle.1 hcontexts,
    Nat.le_trans hle.2 hsessions⟩, h⟩

/-- What a cleanup calls. -/
theorem disciplined_close {log : List TeecCall} (h : Disciplined log) :
    Disciplined (.finalizeContext :: .closeSession :: log) :=
  disciplined_quiet (disciplined_quiet h (by simp) (by simp) (by simp)) (by simp) (by simp)
    (by simp)

/-- The calls of an initialisation that gets as far as its CMD_INIT. -/
def openLog (log : List TeecCall) : List TeecCall :=
  issue [commandInit] (.openSession true :: .initializeContext true :: log)

theorem disciplined_initializeContext {log : List TeecCall} (h : Disciplined log)
    (hclosed : resources log = .closed) :
    Disciplined (.initializeContext true :: log) ∧
      resources (.initializeContext true :: log) = ⟨1, 0, true, false⟩ := by
  refine ⟨⟨?_, h⟩, ?_⟩
  · rw [hclosed]
    constructor <;> simp [Resources.closed, Resources.after]
  · rw [resources, hclosed]
    rfl

/-- An initialisation that finds nothing open. -/
theorem disciplined_openLog {log : List TeecCall} (h : Disciplined log)
    (hclosed : resources log = .closed) :
    Disciplined (openLog log) ∧ resources (openLog log) = .opened := by
  rcases disciplined_initializeContext h hclosed with ⟨hdisciplined, hcontext⟩
  have hsess : resources (.openSession true :: .initializeContext true :: log) = .opened := by
    rw [resources, hcontext]
    rfl
  have hopened : Disciplined (.openSession true :: .initializeContext true :: log) := by
    refine ⟨?_, hdisciplined⟩
    rw [hcontext]
    constructor <;> simp [Resources.after]
  exact ⟨disciplined_issue hopened hsess _, (resources_issue _ _).trans hsess⟩

/-- A second context would be opened over the first. -/
theorem not_allowed_over {log : List TeecCall} (hctx : (resources log).ctx = true) :
    ¬ Allowed (resources log) (.initializeContext true) := by
  intro hallowed
  rw [hallowed.ctx rfl] at hctx
  cases hctx

theorem not_disciplined_openLog {log : List TeecCall} (hctx : (resources log).ctx = true) :
    ¬ Disciplined (openLog log) := fun h =>
  not_allowed_over hctx (disciplined_of_issue h).2.1

end Runtime
end CFlat
