import CFlat.Pass.IR

/-!
# Instrument — the instrumentation pass

`CFlatPass::run`: before every terminator but a return and `unreachable` it inserts a call of
`__cflat_record_node`, before every return one of `__cflat_call_return`, and before every direct
call of a function defined in the module one of `__cflat_call_enter`.
-/

namespace CFlat
namespace Pass

/-! ## The inserted calls -/

/-- A call that `IRBuilder` creates; nothing reads its own address. -/
def createCall (name : String) (args : List UInt64) : Instr := ⟨0, .call (.direct name) args false⟩

def recordNodeCall (bbID : UInt64) : Instr := createCall "__cflat_record_node" [bbID]

def callEnterCall (callSiteID bbID : UInt64) : Instr :=
  createCall "__cflat_call_enter" [callSiteID, bbID]

def callReturnCall (bbID : UInt64) : Instr := createCall "__cflat_call_return" [bbID]

/-! ## The pass -/

/-- The address of the first instruction is a stable id of a block. -/
def getBBID (bb : BasicBlock) : UInt64 :=
  match bb.body with
  | [] => bb.term.addr
  | i :: _ => i.addr

/-- The functions of the runtime, which the pass leaves alone. -/
def isRuntime (name : String) : Bool := startsWith name "__cflat_" || startsWith name "cflat_"

/-- The numbers that the pass logs for a function. -/
structure Counts where
  funcBranches : Nat
  funcCalls : Nat
  funcReturns : Nat
  deriving DecidableEq, Repr

/-- A call gets a `call_enter` unless it is indirect or its callee belongs to the runtime, is an
intrinsic or is not defined in the module. -/
def isInstrumentedCall (M : Module) : Option String → Bool
  | none => false
  | some callee => !isRuntime callee && !(isIntrinsic callee || M.isDeclaration callee)

/-- Part (C): the walk over a block.  A hook goes before the current instruction, so the walk does
not meet it. -/
def walk (M : Module) (bbID : UInt64) : List Instr → Counts → List Instr × Counts
  | [], counts => ([], counts)
  | i :: rest, counts =>
      if isInstrumentedCall M i.op.calledFunction then
        -- `SetInsertPoint(&I)`: the hook stands before the call itself.
        let (out, counts) := walk M bbID rest { counts with funcCalls := counts.funcCalls + 1 }
        (callEnterCall i.addr bbID :: i :: out, counts)
      else
        let (out, counts) := walk M bbID rest counts
        (i :: out, counts)

/-- The loop body of `run`. -/
def runBlock (M : Module) (bb : BasicBlock) (counts : Counts) : BasicBlock × Counts :=
  let bbID := getBBID bb
  -- (A) Branch edges
  let (body, counts) :=
    if bb.term.op ≠ .ret ∧ bb.term.op ≠ .unreachable then
      (bb.body ++ [recordNodeCall bbID], { counts with funcBranches := counts.funcBranches + 1 })
    else (bb.body, counts)
  -- (B) Return edges
  let (body, counts) :=
    if bb.term.op = .ret then
      (body ++ [callReturnCall bbID], { counts with funcReturns := counts.funcReturns + 1 })
    else (body, counts)
  -- (C) Call edges; the terminator comes last and may be an `invoke`.
  let (body, counts) := walk M bbID body counts
  if isInstrumentedCall M bb.term.op.calledFunction then
    ({ bb with body := body ++ [callEnterCall bb.term.addr bbID] },
      { counts with funcCalls := counts.funcCalls + 1 })
  else ({ bb with body := body }, counts)

def runBlocks (M : Module) : List BasicBlock → Counts → List BasicBlock × Counts
  | [], counts => ([], counts)
  | bb :: rest, counts =>
      let (bb, counts) := runBlock M bb counts
      let (rest, counts) := runBlocks M rest counts
      (bb :: rest, counts)

/-- `CFlatPass::run`: the function it leaves, and the counts it logs if it does not skip. -/
def run (M : Module) (F : Function) : Function × Option Counts :=
  if F.isDeclaration then (F, none)
  else if isRuntime F.name then (F, none)
  else
    let (blocks, counts) := runBlocks M F.blocks ⟨0, 0, 0⟩
    ({ F with blocks := blocks }, some counts)

/-- The pass over every function of a module.  The declarations of the hooks that it adds are left
out. -/
def runModule (M : Module) : Module := ⟨M.functions.map fun F => (run M F).1⟩

/-! ## The shape of an instrumented block -/

/-- What the walk leaves of a list of instructions. -/
def walked (M : Module) (bbID : UInt64) (body : List Instr) : List Instr :=
  body.flatMap fun i =>
    if isInstrumentedCall M i.op.calledFunction then [callEnterCall i.addr bbID, i] else [i]

/-- The terminator gets a `record_node`: it is neither a return nor `unreachable`. -/
def TermOpcode.isBranch (op : TermOpcode) : Bool := op != .ret && op != .unreachable

/-- The hook of parts (A) and (B). -/
def edgeHook (bb : BasicBlock) : List Instr :=
  if bb.term.op.isBranch then [recordNodeCall (getBBID bb)]
  else if bb.term.op = .ret then [callReturnCall (getBBID bb)]
  else []

/-- The hook of part (C) for a terminator that is a call. -/
def invokeHook (M : Module) (bb : BasicBlock) : List Instr :=
  if isInstrumentedCall M bb.term.op.calledFunction then
    [callEnterCall bb.term.addr (getBBID bb)]
  else []

/-- An instrumented block: its own instructions with the call hooks, then the hooks of its
terminator. -/
def instrumentedBlock (M : Module) (bb : BasicBlock) : BasicBlock where
  body := walked M (getBBID bb) bb.body ++ edgeHook bb ++ invokeHook M bb
  term := bb.term

theorem walk_fst (M : Module) (bbID : UInt64) (body : List Instr) (counts : Counts) :
    (walk M bbID body counts).1 = walked M bbID body := by
  induction body generalizing counts with
  | nil => rfl
  | cons i rest ih =>
      simp only [walk, walked, List.flatMap_cons]
      split
      · exact congrArg (fun out => callEnterCall i.addr bbID :: i :: out) (ih _)
      · exact congrArg (fun out => i :: out) (ih _)

@[simp] theorem not_isInstrumentedCall_none (M : Module) : isInstrumentedCall M none = false := rfl

@[simp] theorem not_isInstrumentedCall_recordNode (M : Module) (bbID : UInt64) :
    isInstrumentedCall M (recordNodeCall bbID).op.calledFunction = false := by
  have hname : isRuntime "__cflat_record_node" = true := by decide
  simp [recordNodeCall, createCall, Opcode.calledFunction, isInstrumentedCall, hname]

@[simp] theorem not_isInstrumentedCall_callReturn (M : Module) (bbID : UInt64) :
    isInstrumentedCall M (callReturnCall bbID).op.calledFunction = false := by
  have hname : isRuntime "__cflat_call_return" = true := by decide
  simp [callReturnCall, createCall, Opcode.calledFunction, isInstrumentedCall, hname]

theorem runBlock_fst (M : Module) (bb : BasicBlock) (counts : Counts) :
    (runBlock M bb counts).1 = instrumentedBlock M bb := by
  by_cases hret : bb.term.op = .ret
  · simp [runBlock, instrumentedBlock, edgeHook, invokeHook, TermOpcode.isBranch, hret, walk_fst,
      walked, TermOpcode.calledFunction]
  · by_cases hunreachable : bb.term.op = .unreachable
    · simp [runBlock, instrumentedBlock, edgeHook, invokeHook, TermOpcode.isBranch, hunreachable,
        walk_fst, walked, TermOpcode.calledFunction]
    · by_cases hcall : isInstrumentedCall M bb.term.op.calledFunction = true <;>
        simp [runBlock, instrumentedBlock, edgeHook, invokeHook, TermOpcode.isBranch, hret,
          hunreachable, hcall, walk_fst, walked]

theorem runBlocks_fst (M : Module) (bbs : List BasicBlock) (counts : Counts) :
    (runBlocks M bbs counts).1 = bbs.map (instrumentedBlock M) := by
  induction bbs generalizing counts with
  | nil => rfl
  | cons bb rest ih => simp only [runBlocks, List.map_cons, ih, runBlock_fst]

/-- A function that is not part of the runtime has all its blocks instrumented. -/
theorem run_fst (M : Module) {F : Function} (h : isRuntime F.name = false) :
    (run M F).1 = { F with blocks := F.blocks.map (instrumentedBlock M) } := by
  rcases F with ⟨name, blocks⟩
  cases blocks with
  | nil => rfl
  | cons bb rest =>
      simp only [run, Function.isDeclaration, List.isEmpty_cons, h, Bool.false_eq_true, if_false,
        runBlocks_fst]

/-- The pass keeps the name of a function, and whether it is defined. -/
theorem name_run (M : Module) (F : Function) : (run M F).1.name = F.name := by
  simp only [run]
  split
  · rfl
  · split <;> rfl

theorem isDeclaration_run (M : Module) (F : Function) :
    (run M F).1.isDeclaration = F.isDeclaration := by
  simp only [run]
  split
  · rfl
  · split
    · rfl
    · simp [Function.isDeclaration, runBlocks_fst]

end Pass
end CFlat
