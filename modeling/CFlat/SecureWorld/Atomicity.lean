import CFlat.SecureWorld.Dispatch
import CFlat.SecureWorld.Steps

/-!
# Atomicity — what a command that fails leaves behind

Every handler makes its checks before its first write, except `cmd_init`, which resets the session
and frees the old operation before it asks for a new one.  `errorAtomic_iff` says for every raw call
whether a failure leaves the session as it was.
-/

namespace CFlat
namespace SecureWorld

variable {D : Type} {H : Sha256 D}

/-- The fields of the context are as before; the ghost log is no field of the source. -/
def SameFields (ctx ctx' : SessionCtx D) : Prop := { ctx' with teeLog := ctx.teeLog } = ctx

theorem SameFields.refl (ctx : SessionCtx D) : SameFields ctx ctx := rfl

/-- The size that a getter asks for when the buffer is too small. -/
def requiredSize (ctx : SessionCtx D) (cmdId : UInt32) : Option UInt32 :=
  if cmdId = commandGetAuth then some ctx.authSize
  else if cmdId = commandGetLog then some ctx.logIdx
  else none

/-- The caller's parameters are as before, up to the required size after TEE_ERROR_SHORT_BUFFER. -/
def ParamsKept (ctx : SessionCtx D) (cmdId : UInt32) (op : Operation) (res : TeeResult)
    (params : Vector Param 4) : Prop :=
  params = op.params ∨ res = .shortBuffer ∧ ∃ size, requiredSize ctx cmdId = some size ∧
    params = returned op (some { firstMemref op.params with size := size })

variable (H) in
/-- A call that does not return TEE_SUCCESS leaves the session context as it was. -/
def ErrorAtomic (alloc : AllocOutcome) (ctx : SessionCtx D) (cmdId : UInt32) (op : Operation) :
    Prop :=
  (taInvokeCommandEntryPoint H alloc ctx cmdId op).1.1 ≠ .success →
    SameFields ctx (taInvokeCommandEntryPoint H alloc ctx cmdId op).2 ∧
      ParamsKept ctx cmdId op (taInvokeCommandEntryPoint H alloc ctx cmdId op).1.1
        (taInvokeCommandEntryPoint H alloc ctx cmdId op).1.2

variable (H) in
/-- There is nothing in the session that a CMD_INIT resets. -/
structure Reset (ctx : SessionCtx D) : Prop where
  currentHash : ctx.currentHash = H.zero
  loopCount : ctx.loopCount = 0
  loopDepth : ctx.loopDepth = 0
  callDepth : ctx.callDepth = 0
  authSize : ctx.authSize = 0
  logIdx : ctx.logIdx = 0

/-! ## Handlers that fail -/

/-- A measurement command that fails has written nothing, in any context. -/
theorem handle_failed (ctx : SessionCtx D) (e : Event) (h : (handle H ctx e).1 ≠ .success) :
    (handle H ctx e).2 = ctx := by
  revert h
  cases e with
  | recordNode nodeId =>
      simp only [handle, cmdRecordNode, updateHash]
      split <;> simp
  | loopEnter loopId =>
      simp only [handle, cmdLoopEnter]
      split
      · simp
      split
      · simp
      split <;> simp
  | loopExit loopId =>
      simp only [handle, cmdLoopExit]
      split
      · simp
      split
      · simp
      split <;> simp
  | loopIteration loopId =>
      simp only [handle, cmdLoopIteration]
      split <;> simp
  | callEnter callId caller =>
      simp only [handle, cmdCallEnter]
      split <;> simp
  | callReturn callId =>
      simp only [handle, cmdCallReturn]
      split <;> simp

/-- A CMD_INIT whose allocation fails is harmless only where there is nothing to reset. -/
theorem sameFields_init_fail (err : AllocError) (clears : Bool) (ctx : SessionCtx D) :
    SameFields ctx (cmdInit H (.fail err clears) ctx).2 ↔
      Reset H ctx ∧ (clears = true → ctx.hashOp = teeHandleNull) := by
  rw [cmdInit_fail]
  rcases ctx with ⟨currentHash, hashOp, isInitialized, loops, loopCount, loopDepth, callStack,
    callDepth, finalAuth, authSize, debugLog, logIdx, teeLog⟩
  simp only [SameFields, SessionCtx.mk.injEq]
  constructor
  · rintro ⟨hhash, hop, -, -, hcount, hdepth, -, hcall, -, hsize, -, hlog, -⟩
    refine ⟨⟨hhash.symm, hcount.symm, hdepth.symm, hcall.symm, hsize.symm, hlog.symm⟩, ?_⟩
    rintro rfl
    exact hop.symm
  · rintro ⟨⟨hhash, hcount, hdepth, hcall, hsize, hlog⟩, hop⟩
    refine ⟨hhash.symm, ?_, trivial, trivial, hcount.symm, hdepth.symm, trivial, hcall.symm,
      trivial, hsize.symm, trivial, hlog.symm, trivial⟩
    cases clears with
    | true => exact (hop rfl).symm
    | false => rfl

/-! ## Parameters after a failure -/

theorem returned_self (op : Operation) : returned op (some (firstMemref op.params)) = op.params :=
  Vector.set_getElem_self _

/-- A getter that fails leaves the parameters alone or asks for more room. -/
theorem paramsKept_getAuth {ctx : SessionCtx D} {op : Operation}
    (h : (cmdGetAuth ctx (firstMemref op.params)).1 ≠ .success) :
    ParamsKept ctx commandGetAuth op (cmdGetAuth ctx (firstMemref op.params)).1
      (returned op (some (cmdGetAuth ctx (firstMemref op.params)).2)) := by
  revert h
  simp only [cmdGetAuth]
  split
  · exact fun _ => .inl (returned_self op)
  split
  · exact fun _ => .inr ⟨rfl, ctx.authSize, rfl, rfl⟩
  · exact fun h => absurd rfl h

theorem paramsKept_getLog {ctx : SessionCtx D} {op : Operation}
    (h : (cmdGetLog ctx (firstMemref op.params)).1 ≠ .success) :
    ParamsKept ctx commandGetLog op (cmdGetLog ctx (firstMemref op.params)).1
      (returned op (some (cmdGetLog ctx (firstMemref op.params)).2)) := by
  revert h
  simp only [cmdGetLog]
  split
  · exact fun _ => .inr ⟨rfl, ctx.logIdx, rfl, rfl⟩
  · exact fun h => absurd rfl h

/-! ## Every call -/

/-- Whatever the session, the command, the parameters and the outcome of the allocation, a failure
leaves the session as it was, unless it is a CMD_INIT whose allocation fails in a session that
holds something to reset, or an operation handle that the failed allocation clears. -/
theorem errorAtomic_iff (H : Sha256 D) (alloc : AllocOutcome) (ctx : SessionCtx D) (cmdId : UInt32)
    (op : Operation) :
    ErrorAtomic H alloc ctx cmdId op ↔
      (cmdId = commandInit → ∀ err clears, alloc = .fail err clears →
        Reset H ctx ∧ (clears = true → ctx.hashOp = teeHandleNull)) := by
  rw [ErrorAtomic, dispatch_eq]
  cases hcmd : decode alloc cmdId op with
  | none =>
      have hinit : cmdId ≠ commandInit := by
        rintro rfl
        cases hcmd
      exact iff_of_true (fun _ => ⟨.refl ctx, .inl rfl⟩) (fun heq => absurd heq hinit)
  | some cmd =>
      cases cmd with
      | init alloc' =>
          rcases decode_init_iff.1 hcmd with ⟨rfl, rfl⟩
          cases alloc' with
          | ok handle =>
              have hok : (cmdInit H (.ok handle) ctx).1 = .success := by rw [cmdInit_ok]
              exact iff_of_true (fun herr => absurd hok herr) (fun _ _ _ heq => nomatch heq)
          | fail err clears =>
              have herr : (cmdInit H (.fail err clears) ctx).1 ≠ .success := by
                rw [cmdInit_fail]
                cases err <;> simp [AllocError.toResult]
              have hsame := sameFields_init_fail (H := H) err clears ctx
              constructor
              · rintro hatomic - err' clears' heq
                cases heq
                exact hsame.1 (hatomic herr).1
              · intro hreset _
                exact ⟨hsame.2 (hreset rfl err clears rfl), .inl rfl⟩
      | event e =>
          refine iff_of_true (fun herr => ?_) (fun heq => ?_)
          · have hsame := handle_failed ctx e herr
            simp only [serve, exec, hsame]
            exact ⟨.refl ctx, .inl rfl⟩
          · subst heq
            cases hcmd
      | finalize =>
          refine iff_of_true (fun herr => absurd rfl herr) (fun heq => ?_)
          subst heq
          cases hcmd
      | getAuth out =>
          rcases decode_getAuth hcmd with ⟨rfl, rfl⟩
          exact iff_of_true (fun herr => ⟨.refl ctx, paramsKept_getAuth herr⟩)
            (fun heq => absurd heq (by decide))
      | getLog out =>
          rcases decode_getLog hcmd with ⟨rfl, rfl⟩
          exact iff_of_true (fun herr => ⟨.refl ctx, paramsKept_getLog herr⟩)
            (fun heq => absurd heq (by decide))

/-- A CMD_INIT that fails in a session with a recorded node loses the hash. -/
theorem atomicity_broken_by_failed_init :
    ¬ ∀ (alloc : AllocOutcome) (ctx : SessionCtx (List UInt64)) (cmdId : UInt32) (op : Operation),
        ErrorAtomic Sha256.free alloc ctx cmdId op := by
  intro h
  have hsame := (h (.fail .outOfMemory false)
    ((exec Sha256.free).run (taOpenSessionEntryPoint Sha256.free)
      [.init (.ok 1), .event (.recordNode 5)]) commandInit emptyOperation (by decide +kernel)).1
  rw [dispatch_init] at hsame
  exact absurd ((sameFields_init_fail _ _ _).1 hsame).1.currentHash (by decide +kernel)

end SecureWorld
end CFlat
