import Mathlib.Data.List.Basic

/-!
# IR — LLVM modules as the pass reads them

A function is a list of basic blocks, a basic block a list of instructions and one terminator; a
declaration is a function without blocks.  Operands that no part of the development reads are left
out.  An instruction carries the address of its object, which the pass uses as an id.
-/

namespace CFlat
namespace Pass

/-- The called operand of a call. -/
inductive Callee
  | direct (name : String)
  | indirect
  deriving DecidableEq, Repr

/-- Instructions other than terminators.  Of the arguments of a call only constants are kept. -/
inductive Opcode
  | phi
  /-- `landingpad`, `catchpad` and `cleanuppad`. -/
  | pad
  | cast
  | call (callee : Callee) (args : List UInt64) (musttail : Bool)
  | plain
  deriving DecidableEq, Repr

/-- Terminators, with the indices of the blocks they may go to. -/
inductive TermOpcode
  | ret
  | unreachable
  | br (dest : Nat)
  | condBr (ifTrue ifFalse : Nat)
  | switch (default : Nat) (cases : List Nat)
  | indirectBr (dests : List Nat)
  | invoke (callee : Callee) (normal unwind : Nat)
  /-- Its called operand is inline assembly. -/
  | callBr (fallthrough : Nat) (indirect : List Nat)
  | resume
  | catchSwitch (handlers : List Nat) (unwind : Option Nat)
  | catchRet (dest : Nat)
  | cleanupRet (unwind : Option Nat)
  deriving DecidableEq, Repr

structure Instr where
  addr : UInt64
  op : Opcode
  deriving DecidableEq, Repr

structure Terminator where
  addr : UInt64
  op : TermOpcode
  deriving DecidableEq, Repr

structure BasicBlock where
  body : List Instr
  term : Terminator
  deriving DecidableEq, Repr

structure Function where
  name : String
  blocks : List BasicBlock
  deriving DecidableEq, Repr

structure Module where
  functions : List Function
  deriving DecidableEq, Repr

namespace Opcode

/-- `CallBase::getCalledFunction`, by name. -/
def calledFunction : Opcode → Option String
  | .call (.direct name) _ _ => some name
  | _ => none

end Opcode

namespace TermOpcode

/-- `CallBase::getCalledFunction`, by name. -/
def calledFunction : TermOpcode → Option String
  | .invoke (.direct name) _ _ => some name
  | _ => none

/-- The blocks that a terminator may go to. -/
def successors : TermOpcode → List Nat
  | .ret => []
  | .unreachable => []
  | .br dest => [dest]
  | .condBr ifTrue ifFalse => [ifTrue, ifFalse]
  | .switch default cases => default :: cases
  | .indirectBr dests => dests
  | .invoke _ normal unwind => [normal, unwind]
  | .callBr fallthrough indirect => fallthrough :: indirect
  | .resume => []
  | .catchSwitch handlers unwind => handlers ++ unwind.toList
  | .catchRet dest => [dest]
  | .cleanupRet unwind => unwind.toList

/-- The terminator may pass an exception on to the caller. -/
def unwindsToCaller : TermOpcode → Bool
  | .resume => true
  | .catchSwitch _ unwind => unwind.isNone
  | .cleanupRet unwind => unwind.isNone
  | _ => false

end TermOpcode

/-- `Function::isDeclaration`. -/
def Function.isDeclaration (F : Function) : Bool := F.blocks.isEmpty

/-- `StringRef::starts_with`. -/
def startsWith (name start : String) : Bool := start.toList.isPrefixOf name.toList

/-- `Function::isIntrinsic`. -/
def isIntrinsic (name : String) : Bool := startsWith name "llvm."

/-- A function of this name has no body in the module. -/
def Module.isDeclaration (M : Module) (name : String) : Bool :=
  !M.functions.any fun F => F.name == name && !F.isDeclaration

end Pass
end CFlat
