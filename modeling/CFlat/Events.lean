import CFlat.Lib.Nesting

/-!
# Events — the measurement events shared by the pass, the runtime and the trusted application

The six hooks of `libcflat.h` and the six measurement commands of `cflat_ta.h` carry the same data;
both are `Event` here.  A `Trace` is a well-nested sequence of events as a tree, and `Trace.events`
its flat form: `loop L body` becomes `loopEnter L`, the body, `loopExit L`.
-/

namespace CFlat

open Lib

inductive Event
  | recordNode (nodeId : UInt64)
  | loopEnter (loopId : UInt64)
  | loopExit (loopId : UInt64)
  | loopIteration (loopId : UInt64)
  | callEnter (callId caller : UInt64)
  | callReturn (callId : UInt64)
  deriving DecidableEq, Repr

namespace Event

/-- The hooks that start a new measurement cycle when one is due. -/
def isForward : Event → Bool
  | recordNode _ => true
  | loopEnter _ => true
  | callEnter _ _ => true
  | _ => false

/-- The events of the call stack, which enter neither the hash nor a loop record. -/
def isCall : Event → Bool
  | callEnter _ _ => true
  | callReturn _ => true
  | _ => false

/-- The events that enter or leave a loop. -/
def isBracket : Event → Bool
  | loopEnter _ => true
  | loopExit _ => true
  | _ => false

/-- The id of a recorded node. -/
def node? : Event → Option UInt64
  | recordNode nodeId => some nodeId
  | _ => none

theorem node?_of_isCall {e : Event} (h : e.isCall = true) : e.node? = none := by
  cases e <;> first | rfl | cases h

theorem isBracket_of_isCall {e : Event} (h : e.isCall = true) : e.isBracket = false := by
  cases e <;> first | rfl | cases h

end Event

/-- The events that neither open nor close a loop. -/
inductive Leaf
  | node (nodeId : UInt64)
  | iteration (loopId : UInt64)
  | callEnter (callId caller : UInt64)
  | callReturn (callId : UInt64)
  deriving DecidableEq, Repr

def Leaf.toEvent : Leaf → Event
  | .node nodeId => .recordNode nodeId
  | .iteration loopId => .loopIteration loopId
  | .callEnter callId caller => .callEnter callId caller
  | .callReturn callId => .callReturn callId

abbrev Trace := Nest UInt64 Leaf

namespace Trace

/-- The flat sequence of events of a trace. -/
def events (t : Trace) : List Event := t.flatten .loopEnter .loopExit Leaf.toEvent

/-- No call event occurs in the trace. -/
def CallFree (t : Trace) : Prop := ∀ a ∈ t.leaves, a.toEvent.isCall = false

instance (t : Trace) : Decidable t.CallFree :=
  inferInstanceAs (Decidable (∀ a ∈ t.leaves, a.toEvent.isCall = false))

@[simp] theorem events_nil : events .nil = [] := rfl

@[simp] theorem events_leaf (a : Leaf) (rest : Trace) :
    events (.leaf a rest) = a.toEvent :: events rest := rfl

@[simp] theorem events_loop (loopId : UInt64) (body rest : Trace) :
    events (.loop loopId body rest) =
      .loopEnter loopId :: (events body ++ .loopExit loopId :: events rest) := rfl

end Trace

/-- A flat sequence of events in which loop entries and exits are well nested. -/
def WellNested (es : List Event) : Prop := ∃ t : Trace, t.events = es

end CFlat
