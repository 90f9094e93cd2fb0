import CFlat.Events
import CFlat.Pass.Instrument

/-!
# Execution — what a linked program does, as far as the measurement sees it

A program is linked from modules; a name stands for one definition.  Data is left out, so a branch
may go to any of its successors and a call that leaves the program may return or throw.  A run
emits labels: the hooks it calls, other calls of the runtime, and for every block the moments when
it is entered and when its terminator is executed.
-/

namespace CFlat
namespace Pass

/-! ## Linked programs -/

abbrev Program := List Module

namespace Program

/-- The functions of a program, each with its module. -/
def functions (P : Program) : List (Module × Function) :=
  P.flatMap fun M => M.functions.map (M, ·)

/-- The function is a definition of this name. -/
def defines (name : String) (entry : Module × Function) : Bool :=
  entry.2.name == name && !entry.2.isDeclaration

/-- The definition that a name stands for, with its module. -/
def resolve (P : Program) (name : String) : Option (Module × Function) :=
  P.functions.find? (defines name)

/-- A block, by its function and its index. -/
def block? (P : Program) (fn : String) (k : Nat) : Option BasicBlock :=
  (P.resolve fn).bind fun entry => entry.2.blocks[k]?

/-- The program that the pass makes of this one. -/
def instrumented (P : Program) : Program := P.map runModule

end Program

/-! ## What an instruction does -/

/-- The hook that a call stands for. -/
def hookEvent? : Opcode → Option Event
  | .call (.direct name) args _ =>
      match name, args with
      | "__cflat_record_node", [nodeId] => some (.recordNode nodeId)
      | "__cflat_loop_enter", [loopId] => some (.loopEnter loopId)
      | "__cflat_loop_exit", [loopId] => some (.loopExit loopId)
      | "__cflat_loop_iteration", [loopId] => some (.loopIteration loopId)
      | "__cflat_call_enter", [callId, caller] => some (.callEnter callId caller)
      | "__cflat_call_return", [callId] => some (.callReturn callId)
      -- A call with other arguments is not one of the hooks.
      | _, _ => none
  | _ => none

/-- The effects that a run shows. -/
inductive Effect
  | silent
  | hook (e : Event)
  | runtime (name : String)
  | enters (G : Function)

/-- The effect of calling a function by name; a call of code outside the program is silent. -/
def Program.calls (P : Program) : Option String → Effect
  | none => .silent
  | some name =>
      -- The runtime comes first: its functions are looked up outside the program.
      if isRuntime name then .runtime name
      else
        match P.resolve name with
        | some entry => .enters entry.2
        | none => .silent

def Program.effect (P : Program) (i : Instr) : Effect :=
  match hookEvent? i.op with
  | some e => .hook e
  | none => P.calls i.op.calledFunction

/-! ## Runs -/

inductive Label
  | event (e : Event)
  | runtime (name : String)
  | entered (fn : String) (k : Nat)
  | reached (fn : String) (k : Nat)
  deriving DecidableEq, Repr

/-- How an activation of a function ends. -/
inductive Outcome
  | returned
  | unwound
  deriving DecidableEq, Repr

def Opcode.isCall : Opcode → Bool
  | .call _ _ _ => true
  | _ => false

/-- An activation of `F` that stands in its block `k` before these instructions and this
terminator runs to its end, emitting these labels. -/
inductive Runs (P : Program) :
    Function → Nat → List Instr → Terminator → List Label → Outcome → Prop
  | silent {F k i rest t tr out} (h : P.effect i = .silent) (hrest : Runs P F k rest t tr out) :
      Runs P F k (i :: rest) t tr out
  | throws {F k i rest t} (h : P.effect i = .silent) (hcall : i.op.isCall = true) :
      Runs P F k (i :: rest) t [] .unwound
  | hook {F k i rest t e tr out} (h : P.effect i = .hook e) (hrest : Runs P F k rest t tr out) :
      Runs P F k (i :: rest) t (.event e :: tr) out
  | runtime {F k i rest t name tr out} (h : P.effect i = .runtime name)
      (hrest : Runs P F k rest t tr out) : Runs P F k (i :: rest) t (.runtime name :: tr) out
  | call {F k i rest t G bb tr₁ tr₂ out} (h : P.effect i = .enters G)
      (hentry : G.blocks[0]? = some bb) (hcall : Runs P G 0 bb.body bb.term tr₁ .returned)
      (hrest : Runs P F k rest t tr₂ out) :
      Runs P F k (i :: rest) t (.entered G.name 0 :: (tr₁ ++ tr₂)) out
  | callThrows {F k i rest t G bb tr} (h : P.effect i = .enters G)
      (hentry : G.blocks[0]? = some bb) (hcall : Runs P G 0 bb.body bb.term tr .unwound) :
      Runs P F k (i :: rest) t (.entered G.name 0 :: tr) .unwound
  | ret {F k t} (h : t.op = .ret) : Runs P F k [] t [.reached F.name k] .returned
  | leaves {F k t} (h : t.op.unwindsToCaller = true) :
      Runs P F k [] t [.reached F.name k] .unwound
  | jump {F k t k' bb tr out} (h : P.calls t.op.calledFunction = .silent)
      (hdest : k' ∈ t.op.successors) (hblock : F.blocks[k']? = some bb)
      (hrest : Runs P F k' bb.body bb.term tr out) :
      Runs P F k [] t (.reached F.name k :: .entered F.name k' :: tr) out
  | jumpRuntime {F k t name k' bb tr out} (h : P.calls t.op.calledFunction = .runtime name)
      (hdest : k' ∈ t.op.successors) (hblock : F.blocks[k']? = some bb)
      (hrest : Runs P F k' bb.body bb.term tr out) :
      Runs P F k [] t (.reached F.name k :: .runtime name :: .entered F.name k' :: tr) out
  | invoke {F k t callee normal unwind G bb bb' tr₁ tr₂ out}
      (ht : t.op = .invoke callee normal unwind) (h : P.calls t.op.calledFunction = .enters G)
      (hentry : G.blocks[0]? = some bb) (hcall : Runs P G 0 bb.body bb.term tr₁ .returned)
      (hblock : F.blocks[normal]? = some bb') (hrest : Runs P F normal bb'.body bb'.term tr₂ out) :
      Runs P F k [] t
        (.reached F.name k :: .entered G.name 0 :: (tr₁ ++ .entered F.name normal :: tr₂)) out
  | invokeThrows {F k t callee normal unwind G bb bb' tr₁ tr₂ out}
      (ht : t.op = .invoke callee normal unwind) (h : P.calls t.op.calledFunction = .enters G)
      (hentry : G.blocks[0]? = some bb) (hcall : Runs P G 0 bb.body bb.term tr₁ .unwound)
      (hblock : F.blocks[unwind]? = some bb') (hrest : Runs P F unwind bb'.body bb'.term tr₂ out) :
      Runs P F k [] t
        (.reached F.name k :: .entered G.name 0 :: (tr₁ ++ .entered F.name unwind :: tr₂)) out

/-- An execution of a defined function from its entry to its return. -/
def Executes (P : Program) (fn : String) (tr : List Label) : Prop :=
  ∃ M F bb tr', P.resolve fn = some (M, F) ∧ F.blocks[0]? = some bb ∧
    Runs P F 0 bb.body bb.term tr' .returned ∧ tr = .entered fn 0 :: tr'

/-- An execution that is measured as a whole: of the runtime it calls the hooks only. -/
structure Measured (P : Program) (fn : String) (tr : List Label) : Prop where
  executes : Executes P fn tr
  uninterrupted : ∀ name, Label.runtime name ∉ tr

/-! ## Traces -/

/-- The measurement events of a trace. -/
def traceEvents (tr : List Label) : List Event :=
  tr.filterMap fun
    | .event e => some e
    | _ => none

/-- The basic blocks that were run, in the order they were entered. -/
def blocksRun (tr : List Label) : List (String × Nat) :=
  tr.filterMap fun
    | .entered fn k => some (fn, k)
    | _ => none

/-- The basic blocks that were run to their terminator, in that order. -/
def blocksReached (tr : List Label) : List (String × Nat) :=
  tr.filterMap fun
    | .reached fn k => some (fn, k)
    | _ => none

end Pass
end CFlat
