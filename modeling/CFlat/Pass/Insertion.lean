import Mathlib.Algebra.Ring.Nat
import Mathlib.Data.List.Forall2
import CFlat.Lib.InsertBefore
import CFlat.Pass.Instrument

/-!
# Insertion — the pass inserts hooks, each at its place, and changes nothing else

Part (C) walks over the list of a block while it inserts into it.  `walkNodes` is that loop, with
the position as its state: it ends, and leaves what `walk` returns.
-/

namespace CFlat
namespace Pass

open Lib

/-! ## A block as the list that the pass iterates over -/

inductive Node
  | instr (i : Instr)
  | term (t : Terminator)
  deriving DecidableEq, Repr

namespace Node

def addr : Node → UInt64
  | instr i => i.addr
  | term t => t.addr

def calledFunction : Node → Option String
  | instr i => i.op.calledFunction
  | term t => t.op.calledFunction

/-- A call of this function, by name. -/
def calls (name : String) (n : Node) : Bool := n.calledFunction == some name

/-- A call of a function of the runtime, by name. -/
def callsRuntime (n : Node) : Bool := n.calledFunction.any isRuntime

/-- A call, by name, of a function that the module defines and that is no intrinsic. -/
def callsDefined (M : Module) (n : Node) : Bool :=
  n.calledFunction.any fun callee => !isIntrinsic callee && !M.isDeclaration callee

end Node

/-- The terminator is the last element of the list. -/
def BasicBlock.nodes (bb : BasicBlock) : List Node := bb.body.map .instr ++ [.term bb.term]

/-- The hooks of one kind in a function. -/
def Function.hooks (F : Function) (name : String) : Nat :=
  (F.blocks.flatMap BasicBlock.nodes).countP (Node.calls name)

/-- The loop of part (C): `pos` is the place of the current instruction `I`. -/
def walkNodes (M : Module) (bbID : UInt64) :
    Nat → List Node → Nat → Counts → Option (List Node × Counts)
  | 0, _, _, _ => none
  | fuel + 1, nodes, pos, counts =>
      match nodes[pos]? with
      | none => some (nodes, counts)
      | some n =>
          if isInstrumentedCall M n.calledFunction then
            -- The hook moves the current instruction on by one place.
            walkNodes M bbID fuel (nodes.insertIdx pos (.instr (callEnterCall n.addr bbID)))
              (pos + 2) { counts with funcCalls := counts.funcCalls + 1 }
          else walkNodes M bbID fuel nodes (pos + 1) counts

/-! ## What is said of the pass -/

/-- What parts (A) and (B) leave of a block. -/
def withEdgeHook (bb : BasicBlock) : BasicBlock := { bb with body := bb.body ++ edgeHook bb }

/-- `out` is `bb` with every hook at its place. -/
structure Placed (M : Module) (bb out : BasicBlock) : Prop where
  erased : (out.nodes.filter fun n => !n.callsRuntime) = bb.nodes
  branch : bb.term.op ≠ .ret → bb.term.op ≠ .unreachable →
    ∃ pre post, out.nodes = pre ++ .instr (recordNodeCall (getBBID bb)) :: post ∧
      (pre.filter fun n => !n.callsRuntime) = bb.body.map .instr ∧
      ∀ n ∈ pre ++ post, n.calls "__cflat_record_node" = false
  returns : bb.term.op = .ret →
    ∃ pre, out.nodes = pre ++ [.instr (callReturnCall (getBBID bb)), .term bb.term] ∧
      ∀ n ∈ pre, n.calls "__cflat_call_return" = false
  /-- Directly before a call of a defined function stands its `call_enter`, once, and before nothing
  else. -/
  enters : ∀ pre n post, out.nodes = pre ++ n :: post →
    pre.reverse.takeWhile (Node.calls "__cflat_call_enter") =
      if n.callsRuntime = false ∧ n.callsDefined M = true then
        [.instr (callEnterCall n.addr (getBBID bb))]
      else []
  /-- The loop of part (C) ends, and leaves this block. -/
  walkEnds : ∀ fuel counts, bb.nodes.length + 1 < fuel →
    walkNodes M (getBBID bb) fuel (withEdgeHook bb).nodes 0 counts =
      some (out.nodes, { counts with
        funcCalls := counts.funcCalls + out.nodes.countP (Node.calls "__cflat_call_enter") })

structure InsertedExactly (M : Module) (F : Function) : Prop where
  name : (run M F).1.name = F.name
  blocks : List.Forall₂ (Placed M) F.blocks (run M F).1.blocks
  counts : (run M F).2 =
    some ⟨(run M F).1.hooks "__cflat_record_node", (run M F).1.hooks "__cflat_call_enter",
      (run M F).1.hooks "__cflat_call_return"⟩

/-! ## The hooks as marks -/

section Marks

variable {M : Module} {bb : BasicBlock} {n m : Node} {bbID : UInt64}

/-- The mark of part (C). -/
def enterHook (M : Module) (bbID : UInt64) (n : Node) : Option Node :=
  if isInstrumentedCall M n.calledFunction then some (.instr (callEnterCall n.addr bbID)) else none

theorem isInstrumentedCall_eq (M : Module) (n : Node) :
    isInstrumentedCall M n.calledFunction = (!n.callsRuntime && n.callsDefined M) := by
  cases hcallee : n.calledFunction with
  | none => simp [Node.callsRuntime, Node.callsDefined, isInstrumentedCall, hcallee]
  | some callee => simp [Node.callsRuntime, Node.callsDefined, isInstrumentedCall, hcallee]

theorem eq_of_enterHook (h : enterHook M bbID n = some m) :
    m = .instr (callEnterCall n.addr bbID) := by
  unfold enterHook at h
  split at h
  · exact (Option.some.inj h).symm
  · simp at h

@[simp] theorem isSome_enterHook (M : Module) (bbID : UInt64) (n : Node) :
    (enterHook M bbID n).isSome = isInstrumentedCall M n.calledFunction := by
  unfold enterHook
  split
  · next h => simp [h]
  · next h => simpa using h

@[simp] theorem calls_hook (name callee : String) (args : List UInt64) :
    Node.calls name (.instr (createCall callee args)) = (callee == name) := by
  simp [Node.calls, Node.calledFunction, createCall, Opcode.calledFunction]

@[simp] theorem callsRuntime_hook (name : String) (args : List UInt64) :
    Node.callsRuntime (.instr (createCall name args)) = isRuntime name := rfl

theorem calls_of_not_callsRuntime {name : String} (hname : isRuntime name = true)
    (h : n.callsRuntime = false) : n.calls name = false := by
  rw [← Bool.not_eq_true]
  intro hcalls
  have hcallee : n.calledFunction = some name := by simpa [Node.calls] using hcalls
  simp [Node.callsRuntime, hcallee, hname] at h

theorem isRuntime_recordNode : isRuntime "__cflat_record_node" = true := by decide

theorem isRuntime_callEnter : isRuntime "__cflat_call_enter" = true := by decide

theorem isRuntime_callReturn : isRuntime "__cflat_call_return" = true := by decide

/-- A hook of parts (A) and (B). -/
theorem mem_edgeHook {i : Instr} (h : i ∈ edgeHook bb) :
    i = recordNodeCall (getBBID bb) ∨ i = callReturnCall (getBBID bb) := by
  unfold edgeHook at h
  split at h
  · exact .inl (by simpa using h)
  · split at h
    · exact .inr (by simpa using h)
    · simp at h

theorem nodes_withEdgeHook (bb : BasicBlock) :
    (withEdgeHook bb).nodes =
      bb.body.map .instr ++ (edgeHook bb).map .instr ++ [.term bb.term] := by
  simp [BasicBlock.nodes, withEdgeHook]

theorem insertBefore_instrs (M : Module) (bbID : UInt64) (body : List Instr) :
    insertBefore (enterHook M bbID) (body.map .instr) = (walked M bbID body).map .instr := by
  induction body with
  | nil => rfl
  | cons i rest ih =>
      rw [List.map_cons, insertBefore_cons, ih]
      by_cases h : isInstrumentedCall M i.op.calledFunction = true
      · simp [enterHook, Node.calledFunction, Node.addr, walked, h]
      · simp [enterHook, Node.calledFunction, walked, h]

theorem insertBefore_edgeHook (M : Module) (bb : BasicBlock) :
    insertBefore (enterHook M (getBBID bb)) ((edgeHook bb).map .instr) =
      (edgeHook bb).map .instr := by
  rw [insertBefore_instrs]
  unfold edgeHook
  split
  · simp [walked]
  · split
    · simp [walked]
    · rfl

/-- An instrumented block is the block with its edge hook, and a `call_enter` before each call that
gets one. -/
theorem nodes_instrumentedBlock (M : Module) (bb : BasicBlock) :
    (instrumentedBlock M bb).nodes =
      insertBefore (enterHook M (getBBID bb)) (withEdgeHook bb).nodes := by
  rw [nodes_withEdgeHook, insertBefore_append, insertBefore_append, insertBefore_instrs,
    insertBefore_edgeHook]
  by_cases h : isInstrumentedCall M bb.term.op.calledFunction = true
  · simp [BasicBlock.nodes, instrumentedBlock, invokeHook, enterHook, Node.calledFunction,
      Node.addr, h]
  · simp [BasicBlock.nodes, instrumentedBlock, invokeHook, enterHook, Node.calledFunction, h]

end Marks

/-! ## The walk -/

/-- The loop, from a point where it has left `done` behind. -/
theorem walkNodes_append (M : Module) (bbID : UInt64) (done todo : List Node) (fuel : Nat)
    (counts : Counts) (hfuel : todo.length < fuel) :
    walkNodes M bbID fuel (done ++ todo) done.length counts =
      some (done ++ insertBefore (enterHook M bbID) todo, { counts with
        funcCalls := counts.funcCalls +
          todo.countP fun n => isInstrumentedCall M n.calledFunction }) := by
  induction todo generalizing done fuel counts with
  | nil =>
      cases fuel with
      | zero => simp at hfuel
      | succ fuel => simp [walkNodes]
  | cons n rest ih =>
      cases fuel with
      | zero => simp at hfuel
      | succ fuel =>
          have hfuel' : rest.length < fuel := by simpa using hfuel
          have hget : (done ++ n :: rest)[done.length]? = some n := by simp
          simp only [walkNodes, hget]
          by_cases h : isInstrumentedCall M n.calledFunction = true
          · -- What is behind us grows by the hook and by the call.
            have hinsert : (done ++ n :: rest).insertIdx done.length
                (.instr (callEnterCall n.addr bbID)) =
                (done ++ [.instr (callEnterCall n.addr bbID), n]) ++ rest := by
              rw [insertIdx_length_append]
              simp
            have hrest := ih (done ++ [.instr (callEnterCall n.addr bbID), n]) fuel
              { counts with funcCalls := counts.funcCalls + 1 } hfuel'
            rw [if_pos h, hinsert]
            simpa [enterHook, h, Nat.add_assoc, Nat.add_comm 1] using hrest
          · have hrest := ih (done ++ [n]) fuel counts hfuel'
            rw [if_neg h]
            simpa [enterHook, h] using hrest

/-! ## The counts -/

section Counts

variable {M : Module} {bb : BasicBlock} {F : Function}

theorem walk_snd (M : Module) (bbID : UInt64) (body : List Instr) (counts : Counts) :
    (walk M bbID body counts).2 = { counts with
      funcCalls := counts.funcCalls +
        body.countP fun i => isInstrumentedCall M i.op.calledFunction } := by
  induction body generalizing counts with
  | nil => rfl
  | cons i rest ih =>
      by_cases h : isInstrumentedCall M i.op.calledFunction = true
      · simp [walk, h, ih, Nat.add_assoc, Nat.add_comm 1]
      · simp [walk, h, ih]

/-- What the block adds to the counts of the function. -/
def blockCounts (M : Module) (bb : BasicBlock) : Counts where
  funcBranches := if bb.term.op.isBranch then 1 else 0
  funcCalls := bb.nodes.countP fun n => isInstrumentedCall M n.calledFunction
  funcReturns := if bb.term.op = .ret then 1 else 0

theorem countP_instrumented_nodes (M : Module) (bb : BasicBlock) :
    bb.nodes.countP (fun n => isInstrumentedCall M n.calledFunction) =
      bb.body.countP (fun i => isInstrumentedCall M i.op.calledFunction) +
        if isInstrumentedCall M bb.term.op.calledFunction then 1 else 0 := by
  simp only [BasicBlock.nodes, List.countP_append, List.countP_map, List.countP_singleton]
  rfl

theorem runBlock_snd (M : Module) (bb : BasicBlock) (counts : Counts) :
    (runBlock M bb counts).2 =
      ⟨counts.funcBranches + (blockCounts M bb).funcBranches,
        counts.funcCalls + (blockCounts M bb).funcCalls,
        counts.funcReturns + (blockCounts M bb).funcReturns⟩ := by
  simp only [blockCounts, countP_instrumented_nodes]
  by_cases hret : bb.term.op = .ret
  · simp [runBlock, TermOpcode.isBranch, hret, walk_snd, TermOpcode.calledFunction]
  · by_cases hunreachable : bb.term.op = .unreachable
    · simp [runBlock, TermOpcode.isBranch, hunreachable, walk_snd, TermOpcode.calledFunction]
    · by_cases hcall : isInstrumentedCall M bb.term.op.calledFunction = true
      · simp [runBlock, TermOpcode.isBranch, hret, hunreachable, hcall, walk_snd, Nat.add_assoc]
      · simp [runBlock, TermOpcode.isBranch, hret, hunreachable, hcall, walk_snd]

theorem runBlocks_snd (M : Module) (bbs : List BasicBlock) (counts : Counts) :
    (runBlocks M bbs counts).2 =
      ⟨counts.funcBranches + (bbs.map fun bb => (blockCounts M bb).funcBranches).sum,
        counts.funcCalls + (bbs.map fun bb => (blockCounts M bb).funcCalls).sum,
        counts.funcReturns + (bbs.map fun bb => (blockCounts M bb).funcReturns).sum⟩ := by
  induction bbs generalizing counts with
  | nil => simp [runBlocks]
  | cons bb rest ih => simp [runBlocks, ih, runBlock_snd, Nat.add_assoc]

end Counts

/-! ## An instrumented block -/

section Blocks

variable {M : Module} {bb : BasicBlock}

/-- No call of the runtime stands in the block, so a node of the block with its edge hook that calls
the runtime is that hook. -/
theorem mem_withEdgeHook (hbb : ∀ n ∈ bb.nodes, n.callsRuntime = false) {n : Node}
    (h : n ∈ (withEdgeHook bb).nodes) :
    n.callsRuntime = false ∨ n = .instr (recordNodeCall (getBBID bb)) ∨
      n = .instr (callReturnCall (getBBID bb)) := by
  rw [nodes_withEdgeHook, List.mem_append, List.mem_append] at h
  rcases h with (h | h) | h
  · exact .inl (hbb n (List.mem_append_left _ h))
  · obtain ⟨i, hi, rfl⟩ := List.mem_map.1 h
    rcases mem_edgeHook hi with rfl | rfl
    · exact .inr (.inl rfl)
    · exact .inr (.inr rfl)
  · exact .inl (hbb n (List.mem_append_right _ h))

theorem not_callEnter_withEdgeHook (hbb : ∀ n ∈ bb.nodes, n.callsRuntime = false) :
    ∀ n ∈ (withEdgeHook bb).nodes, n.calls "__cflat_call_enter" = false := by
  intro n hn
  rcases mem_withEdgeHook hbb hn with h | rfl | rfl
  · exact calls_of_not_callsRuntime isRuntime_callEnter h
  · simp [recordNodeCall]
  · simp [callReturnCall]

theorem callEnter_of_enterHook {bbID : UInt64} {n m : Node} (h : enterHook M bbID n = some m) :
    m.calls "__cflat_call_enter" = true := by
  rw [eq_of_enterHook h]
  simp [callEnterCall]

/-- A hook of another name is in the instrumented block as often as in the block with its edge
hook. -/
theorem countP_nodes_instrumentedBlock {name : String} (h : name ≠ "__cflat_call_enter") :
    (instrumentedBlock M bb).nodes.countP (Node.calls name) =
      (withEdgeHook bb).nodes.countP (Node.calls name) := by
  rw [nodes_instrumentedBlock]
  refine countP_insertBefore_of_not fun n _ m hm => ?_
  rw [eq_of_enterHook hm]
  simpa [callEnterCall] using h.symm

theorem countP_withEdgeHook {name : String} (hname : isRuntime name = true)
    (hbb : ∀ n ∈ bb.nodes, n.callsRuntime = false) :
    (withEdgeHook bb).nodes.countP (Node.calls name) =
      ((edgeHook bb).map Node.instr).countP (Node.calls name) := by
  have hzero : bb.nodes.countP (Node.calls name) = 0 := by
    rw [List.countP_eq_zero]
    intro n hn
    simp [calls_of_not_callsRuntime hname (hbb n hn)]
  rw [nodes_withEdgeHook]
  simp only [BasicBlock.nodes, List.countP_append] at hzero ⊢
  omega

theorem funcBranches_eq (hbb : ∀ n ∈ bb.nodes, n.callsRuntime = false) :
    (blockCounts M bb).funcBranches =
      (instrumentedBlock M bb).nodes.countP (Node.calls "__cflat_record_node") := by
  rw [countP_nodes_instrumentedBlock (by decide), countP_withEdgeHook isRuntime_recordNode hbb]
  unfold blockCounts edgeHook
  by_cases hbranch : bb.term.op.isBranch = true
  · simp [hbranch, recordNodeCall]
  · by_cases hret : bb.term.op = .ret
    · simp [TermOpcode.isBranch, hret, callReturnCall]
    · simp [hbranch, hret]

theorem funcReturns_eq (hbb : ∀ n ∈ bb.nodes, n.callsRuntime = false) :
    (blockCounts M bb).funcReturns =
      (instrumentedBlock M bb).nodes.countP (Node.calls "__cflat_call_return") := by
  rw [countP_nodes_instrumentedBlock (by decide), countP_withEdgeHook isRuntime_callReturn hbb]
  unfold blockCounts edgeHook
  by_cases hret : bb.term.op = .ret
  · simp [TermOpcode.isBranch, hret, callReturnCall]
  · by_cases hbranch : bb.term.op.isBranch = true
    · simp [hbranch, hret, recordNodeCall]
    · simp [hbranch, hret]

theorem countP_callEnter (hbb : ∀ n ∈ bb.nodes, n.callsRuntime = false) :
    (instrumentedBlock M bb).nodes.countP (Node.calls "__cflat_call_enter") =
      (withEdgeHook bb).nodes.countP fun n => isInstrumentedCall M n.calledFunction := by
  rw [nodes_instrumentedBlock, countP_insertBefore (fun n _ m => callEnter_of_enterHook)
    (not_callEnter_withEdgeHook hbb)]
  simp

theorem funcCalls_eq (hbb : ∀ n ∈ bb.nodes, n.callsRuntime = false) :
    (blockCounts M bb).funcCalls =
      (instrumentedBlock M bb).nodes.countP (Node.calls "__cflat_call_enter") := by
  rw [countP_callEnter hbb, nodes_withEdgeHook]
  have hedge : ((edgeHook bb).map Node.instr).countP
      (fun n => isInstrumentedCall M n.calledFunction) = 0 := by
    rw [List.countP_eq_zero]
    intro n hn
    obtain ⟨i, hi, rfl⟩ := List.mem_map.1 hn
    rcases mem_edgeHook hi with rfl | rfl
    · simp [Node.calledFunction]
    · simp [Node.calledFunction]
  simp only [blockCounts, BasicBlock.nodes, List.countP_append, hedge, Nat.add_zero]

/-! ## The hooks at their places -/

theorem erased_instrumentedBlock (hbb : ∀ n ∈ bb.nodes, n.callsRuntime = false) :
    ((instrumentedBlock M bb).nodes.filter fun n => !n.callsRuntime) = bb.nodes := by
  have hmark : ∀ n ∈ (withEdgeHook bb).nodes, ∀ m, enterHook M (getBBID bb) n = some m →
      (!m.callsRuntime) = false := by
    intro n _ m hm
    rw [eq_of_enterHook hm]
    simp [callEnterCall, isRuntime_callEnter]
  have hedge : (((edgeHook bb).map Node.instr).filter fun n => !n.callsRuntime) = [] := by
    rw [List.filter_eq_nil_iff]
    intro n hn
    obtain ⟨i, hi, rfl⟩ := List.mem_map.1 hn
    rcases mem_edgeHook hi with rfl | rfl
    · simp [recordNodeCall, isRuntime_recordNode]
    · simp [callReturnCall, isRuntime_callReturn]
  have hkeep : (bb.nodes.filter fun n => !n.callsRuntime) = bb.nodes := by
    rw [List.filter_eq_self]
    intro n hn
    simp [hbb n hn]
  calc ((instrumentedBlock M bb).nodes.filter fun n => !n.callsRuntime)
      = (withEdgeHook bb).nodes.filter fun n => !n.callsRuntime := by
        rw [nodes_instrumentedBlock, filter_insertBefore hmark]
    _ = bb.nodes.filter fun n => !n.callsRuntime := by
        rw [nodes_withEdgeHook, BasicBlock.nodes, List.filter_append, List.filter_append, hedge,
          List.append_nil, List.filter_append]
    _ = bb.nodes := hkeep

/-- In front of its own terminator a block has its edge hook, and before that its own
instructions. -/
theorem nodes_split (M : Module) (bb : BasicBlock) :
    (instrumentedBlock M bb).nodes =
      insertBefore (enterHook M (getBBID bb)) (bb.body.map .instr) ++
        ((edgeHook bb).map .instr ++
          insertBefore (enterHook M (getBBID bb)) [.term bb.term]) := by
  rw [nodes_instrumentedBlock, nodes_withEdgeHook, insertBefore_append, insertBefore_append,
    insertBefore_edgeHook, List.append_assoc]

theorem not_calls_of_mem_insertBefore {l : List Node} {name : String}
    (hname : isRuntime name = true) (hne : name ≠ "__cflat_call_enter")
    (hl : ∀ n ∈ l, n.callsRuntime = false) :
    ∀ n ∈ insertBefore (enterHook M (getBBID bb)) l, n.calls name = false := by
  intro n hn
  rcases mem_insertBefore.1 hn with h | ⟨m, -, hm⟩
  · exact calls_of_not_callsRuntime hname (hl n h)
  · rw [eq_of_enterHook hm]
    simpa [callEnterCall] using hne.symm

theorem body_of_nodes (hbb : ∀ n ∈ bb.nodes, n.callsRuntime = false) :
    ∀ n ∈ bb.body.map Node.instr, n.callsRuntime = false :=
  fun n hn => hbb n (List.mem_append_left _ hn)

theorem term_of_nodes (hbb : ∀ n ∈ bb.nodes, n.callsRuntime = false) :
    ∀ n ∈ [Node.term bb.term], n.callsRuntime = false :=
  fun n hn => hbb n (List.mem_append_right _ hn)

theorem branch_instrumentedBlock (hbb : ∀ n ∈ bb.nodes, n.callsRuntime = false)
    (hret : bb.term.op ≠ .ret) (hunreachable : bb.term.op ≠ .unreachable) :
    ∃ pre post, (instrumentedBlock M bb).nodes =
        pre ++ .instr (recordNodeCall (getBBID bb)) :: post ∧
      (pre.filter fun n => !n.callsRuntime) = bb.body.map .instr ∧
      ∀ n ∈ pre ++ post, n.calls "__cflat_record_node" = false := by
  have hedge : edgeHook bb = [recordNodeCall (getBBID bb)] := by
    simp [edgeHook, TermOpcode.isBranch, hret, hunreachable]
  refine ⟨insertBefore (enterHook M (getBBID bb)) (bb.body.map .instr),
    insertBefore (enterHook M (getBBID bb)) [.term bb.term], ?_, ?_, ?_⟩
  · rw [nodes_split, hedge]
    rfl
  · rw [filter_insertBefore, List.filter_eq_self]
    · intro n hn
      simp [body_of_nodes hbb n hn]
    · intro n _ m hm
      rw [eq_of_enterHook hm]
      simp [callEnterCall, isRuntime_callEnter]
  · intro n hn
    rcases List.mem_append.1 hn with h | h
    · exact not_calls_of_mem_insertBefore isRuntime_recordNode (by decide) (body_of_nodes hbb) n h
    · exact not_calls_of_mem_insertBefore isRuntime_recordNode (by decide) (term_of_nodes hbb) n h

theorem returns_instrumentedBlock (hbb : ∀ n ∈ bb.nodes, n.callsRuntime = false)
    (hret : bb.term.op = .ret) :
    ∃ pre, (instrumentedBlock M bb).nodes =
        pre ++ [.instr (callReturnCall (getBBID bb)), .term bb.term] ∧
      ∀ n ∈ pre, n.calls "__cflat_call_return" = false := by
  have hedge : edgeHook bb = [callReturnCall (getBBID bb)] := by
    simp [edgeHook, TermOpcode.isBranch, hret]
  refine ⟨insertBefore (enterHook M (getBBID bb)) (bb.body.map .instr), ?_,
    not_calls_of_mem_insertBefore isRuntime_callReturn (by decide) (body_of_nodes hbb)⟩
  rw [nodes_split, hedge]
  simp [enterHook, Node.calledFunction, TermOpcode.calledFunction, hret]

theorem enters_instrumentedBlock (hbb : ∀ n ∈ bb.nodes, n.callsRuntime = false)
    {pre post : List Node} {n : Node} (h : (instrumentedBlock M bb).nodes = pre ++ n :: post) :
    pre.reverse.takeWhile (Node.calls "__cflat_call_enter") =
      if n.callsRuntime = false ∧ n.callsDefined M = true then
        [.instr (callEnterCall n.addr (getBBID bb))]
      else [] := by
  rw [nodes_instrumentedBlock] at h
  have hmarks := marks_before (fun n _ m => callEnter_of_enterHook)
    (not_callEnter_withEdgeHook hbb) h
  rw [hmarks]
  by_cases hhook : n.calls "__cflat_call_enter" = true
  · have hruntime : n.callsRuntime = true := by
      rw [← Bool.not_eq_false]
      intro hnot
      simp [calls_of_not_callsRuntime isRuntime_callEnter hnot] at hhook
    simp [hhook, hruntime]
  · rw [if_neg hhook]
    unfold enterHook
    rw [isInstrumentedCall_eq]
    by_cases hcall : n.callsRuntime = false ∧ n.callsDefined M = true
    · simp [hcall]
    · rw [if_neg hcall, if_neg (by simpa using hcall)]
      rfl

theorem walkNodes_withEdgeHook (hbb : ∀ n ∈ bb.nodes, n.callsRuntime = false) (fuel : Nat)
    (counts : Counts) (hfuel : bb.nodes.length + 1 < fuel) :
    walkNodes M (getBBID bb) fuel (withEdgeHook bb).nodes 0 counts =
      some ((instrumentedBlock M bb).nodes, { counts with
        funcCalls := counts.funcCalls +
          (instrumentedBlock M bb).nodes.countP (Node.calls "__cflat_call_enter") }) := by
  have hedge : (edgeHook bb).length ≤ 1 := by
    unfold edgeHook
    split
    · simp
    · split <;> simp
  have hlength : (withEdgeHook bb).nodes.length < fuel := by
    rw [nodes_withEdgeHook]
    simp only [BasicBlock.nodes, List.length_append, List.length_map] at hfuel ⊢
    omega
  rw [countP_callEnter hbb, nodes_instrumentedBlock]
  exact walkNodes_append M (getBBID bb) [] (withEdgeHook bb).nodes fuel counts hlength

theorem placed_instrumentedBlock (hbb : ∀ n ∈ bb.nodes, n.callsRuntime = false) :
    Placed M bb (instrumentedBlock M bb) where
  erased := erased_instrumentedBlock hbb
  branch := branch_instrumentedBlock hbb
  returns := returns_instrumentedBlock hbb
  enters := fun _ _ _ h => enters_instrumentedBlock hbb h
  walkEnds := walkNodes_withEdgeHook hbb

end Blocks

/-! ## An instrumented function -/

variable {M : Module} {bbs : List BasicBlock}

theorem hooks_eq_sum (F : Function) (name : String) :
    F.hooks name = (F.blocks.map fun bb => bb.nodes.countP (Node.calls name)).sum := by
  rw [Function.hooks, List.countP_flatMap]
  rfl

/-- The counts of the loop over the blocks. -/
theorem hooks_run_eq (hbbs : ∀ bb ∈ bbs, ∀ n ∈ bb.nodes, n.callsRuntime = false) :
    (runBlocks M bbs ⟨0, 0, 0⟩).2 =
      ⟨((bbs.map (instrumentedBlock M)).map fun bb =>
          bb.nodes.countP (Node.calls "__cflat_record_node")).sum,
        ((bbs.map (instrumentedBlock M)).map fun bb =>
          bb.nodes.countP (Node.calls "__cflat_call_enter")).sum,
        ((bbs.map (instrumentedBlock M)).map fun bb =>
          bb.nodes.countP (Node.calls "__cflat_call_return")).sum⟩ := by
  rw [runBlocks_snd, List.map_map, List.map_map, List.map_map]
  have hbranches := List.map_congr_left fun bb hbb => funcBranches_eq (M := M) (hbbs bb hbb)
  have hcalls := List.map_congr_left fun bb hbb => funcCalls_eq (M := M) (hbbs bb hbb)
  have hreturns := List.map_congr_left fun bb hbb => funcReturns_eq (M := M) (hbbs bb hbb)
  simp only [hbranches, hcalls, hreturns, Nat.zero_add]
  rfl

/-- The pass inserts every hook at its place, and logs how many there are of each kind. -/
theorem run_inserts_exactly (M : Module) (F : Function) (hdefined : F.isDeclaration = false)
    (hname : isRuntime F.name = false)
    (hcalls : ∀ bb ∈ F.blocks, ∀ n ∈ bb.nodes, n.callsRuntime = false) : InsertedExactly M F := by
  have hout := run_fst M hname
  refine ⟨name_run M F, ?_, ?_⟩
  · rw [hout, List.forall₂_map_right_iff, List.forall₂_same]
    exact fun bb hbb => placed_instrumentedBlock (hcalls bb hbb)
  · have hcounts : (run M F).2 = some (runBlocks M F.blocks ⟨0, 0, 0⟩).2 := by
      simp [run, hdefined, hname]
    rw [hcounts, hooks_run_eq hcalls, hout]
    simp only [hooks_eq_sum]

/-- A function that calls `callee` in a block, calls it again by an `invoke`, and returns. -/
def caller : Function :=
  ⟨"main", [⟨[⟨10, .plain⟩, ⟨11, .call (.direct "callee") [] false⟩], ⟨12, .br 1⟩⟩,
    ⟨[], ⟨20, .invoke (.direct "callee") 2 2⟩⟩, ⟨[⟨30, .call .indirect [] false⟩], ⟨31, .ret⟩⟩]⟩

/-- Two edges out of blocks, two calls and a return. -/
theorem run_inserts_exactly_caller :
    InsertedExactly ⟨[caller, ⟨"callee", [⟨[], ⟨40, .ret⟩⟩]⟩]⟩ caller ∧
      (run ⟨[caller, ⟨"callee", [⟨[], ⟨40, .ret⟩⟩]⟩]⟩ caller).2 = some ⟨2, 2, 1⟩ :=
  ⟨run_inserts_exactly _ caller (by decide) (by decide) (by decide), by decide⟩

end Pass
end CFlat
