import CFlat.Pass.Paths

/-!
# Activations — the calls and returns of a linked program

`CFlat.Pass.Execution` shows the blocks of a run, this module its calls: an activation emits the
hooks it calls and, around every activation that it starts, the moments when control is handed over
and given back.  A call may be direct or go through a pointer, and code outside the program may call
back.  No activation is left by a jump or an exception.  A run may be cut at any point, so a run
without end is seen through its initial parts.
-/

namespace CFlat
namespace Pass

/-! ## Calls -/

def Opcode.callee? : Opcode → Option Callee
  | .call callee _ _ => some callee
  | _ => none

def TermOpcode.callee? : TermOpcode → Option Callee
  | .invoke callee _ _ => some callee
  | _ => none

def Callee.function? : Callee → Option String
  | .direct name => some name
  | .indirect => none

/-- How control comes to a function: by a direct call in a module that defines it or only declares
it, by a call through a pointer, or from code outside the program. -/
inductive Transfer
  | defined
  | declared
  | pointer
  | callback
  deriving DecidableEq, Repr

/-- The way in which a direct call in this module reaches its function. -/
def Module.transfer (M : Module) (name : String) : Transfer :=
  if isIntrinsic name || M.isDeclaration name then .declared else .defined

theorem transfer_ne_callback (M : Module) (name : String) : M.transfer name ≠ .callback := by
  rw [Module.transfer]
  split <;> simp

/-- The functions of the program that a call in a module may reach. -/
inductive Reaches (P : Program) (M : Module) : Callee → Transfer → Module → Function → Prop
  | direct {name M' G} (hname : isRuntime name = false) (h : P.resolve name = some (M', G)) :
      Reaches P M (.direct name) (M.transfer name) M' G
  | pointer {name M' G} (h : P.resolve name = some (M', G)) : Reaches P M .indirect .pointer M' G
  | callback {callee name M' G} (houtside : P.calls callee.function? = .silent)
      (h : P.resolve name = some (M', G)) : Reaches P M callee .callback M' G

/-! ## Runs -/

inductive Mark
  | event (e : Event)
  | runtime (name : String)
  | transfers (how : Transfer) (fn : String)
  | returns (fn : String)
  deriving DecidableEq, Repr

/-- Whether a run has come to its end or is only an initial part of one. -/
inductive Ending
  | returned
  | cut
  deriving DecidableEq, Repr

/-- Where an activation stands: before these instructions and this terminator of its function, or
at a call. -/
inductive Position
  | before (F : Function) (rest : List Instr) (t : Terminator)
  | call (callee : Callee)

/-- From a position in a function of this module an activation emits these marks. -/
inductive Acts (P : Program) : Module → Position → List Mark → Ending → Prop
  | stops {M pos} : Acts P M pos [] .cut
  | outside {M callee} (h : P.calls callee.function? = .silent) :
      Acts P M (.call callee) [] .returned
  | runtime {M callee name} (h : P.calls callee.function? = .runtime name) :
      Acts P M (.call callee) [.runtime name] .returned
  | enters {M callee how M' G bb tr} (h : Reaches P M callee how M' G) (hhow : how ≠ .callback)
      (hentry : G.blocks[0]? = some bb)
      (hcall : Acts P M' (.before G bb.body bb.term) tr .returned) :
      Acts P M (.call callee) (.transfers how G.name :: (tr ++ [.returns G.name])) .returned
  | entersCut {M callee how M' G bb tr} (h : Reaches P M callee how M' G)
      (hentry : G.blocks[0]? = some bb)
      (hcall : Acts P M' (.before G bb.body bb.term) tr .cut) :
      Acts P M (.call callee) (.transfers how G.name :: tr) .cut
  | callback {M callee M' G bb tr₁ tr₂ ending} (h : Reaches P M callee .callback M' G)
      (hentry : G.blocks[0]? = some bb)
      (hcall : Acts P M' (.before G bb.body bb.term) tr₁ .returned)
      (hrest : Acts P M (.call callee) tr₂ ending) :
      Acts P M (.call callee)
        (.transfers .callback G.name :: (tr₁ ++ .returns G.name :: tr₂)) ending
  | plain {M F i rest t tr ending} (h : i.op.callee? = none)
      (hrest : Acts P M (.before F rest t) tr ending) :
      Acts P M (.before F (i :: rest) t) tr ending
  | hook {M F i rest t e tr ending} (h : hookEvent? i.op = some e)
      (hrest : Acts P M (.before F rest t) tr ending) :
      Acts P M (.before F (i :: rest) t) (.event e :: tr) ending
  | call {M F i rest t callee tr₁ tr₂ ending} (h : i.op.callee? = some callee)
      (hnone : hookEvent? i.op = none) (hcall : Acts P M (.call callee) tr₁ .returned)
      (hrest : Acts P M (.before F rest t) tr₂ ending) :
      Acts P M (.before F (i :: rest) t) (tr₁ ++ tr₂) ending
  | callCut {M F i rest t callee tr} (h : i.op.callee? = some callee)
      (hnone : hookEvent? i.op = none) (hcall : Acts P M (.call callee) tr .cut) :
      Acts P M (.before F (i :: rest) t) tr .cut
  | ret {M F t} (h : t.op = .ret) : Acts P M (.before F [] t) [] .returned
  | jump {M F t k bb tr ending} (h : t.op.callee? = none) (hdest : k ∈ t.op.successors)
      (hblock : F.blocks[k]? = some bb) (hrest : Acts P M (.before F bb.body bb.term) tr ending) :
      Acts P M (.before F [] t) tr ending
  | invoke {M F t callee normal unwind bb tr₁ tr₂ ending}
      (h : t.op = .invoke callee normal unwind) (hcall : Acts P M (.call callee) tr₁ .returned)
      (hblock : F.blocks[normal]? = some bb)
      (hrest : Acts P M (.before F bb.body bb.term) tr₂ ending) :
      Acts P M (.before F [] t) (tr₁ ++ tr₂) ending
  | invokeCut {M F t callee normal unwind tr} (h : t.op = .invoke callee normal unwind)
      (hcall : Acts P M (.call callee) tr .cut) : Acts P M (.before F [] t) tr .cut

/-- A direct call, by the way in which it reaches its function. -/
theorem Acts.direct {P : Program} {M M' : Module} {name : String} {how : Transfer} {G : Function}
    {bb : BasicBlock} {tr : List Mark} (hname : isRuntime name = false)
    (h : P.resolve name = some (M', G)) (hhow : M.transfer name = how)
    (hentry : G.blocks[0]? = some bb) (hcall : Acts P M' (.before G bb.body bb.term) tr .returned) :
    Acts P M (.call (.direct name)) (.transfers how name :: (tr ++ [.returns name])) .returned := by
  subst hhow
  rcases mem_of_resolve h with ⟨_, _, hG⟩
  subst hG
  exact .enters (.direct hname h) (transfer_ne_callback M G.name) hentry hcall

/-- An activation of the function that a name stands for, from its entry. -/
def Activation (P : Program) (name : String) (tr : List Mark) (ending : Ending) : Prop :=
  ∃ M F bb, P.resolve name = some (M, F) ∧ F.blocks[0]? = some bb ∧
    Acts P M (.before F bb.body bb.term) tr ending

/-- The measurement events of a trace. -/
def markedEvents (tr : List Mark) : List Event :=
  tr.filterMap fun
    | .event e => some e
    | _ => none

@[simp] theorem markedEvents_append (tr tr' : List Mark) :
    markedEvents (tr ++ tr') = markedEvents tr ++ markedEvents tr' := by
  simp [markedEvents]

@[simp] theorem markedEvents_event (e : Event) (tr : List Mark) :
    markedEvents (.event e :: tr) = e :: markedEvents tr := rfl

@[simp] theorem markedEvents_runtime (name : String) (tr : List Mark) :
    markedEvents (.runtime name :: tr) = markedEvents tr := rfl

@[simp] theorem markedEvents_transfers (how : Transfer) (fn : String) (tr : List Mark) :
    markedEvents (.transfers how fn :: tr) = markedEvents tr := rfl

@[simp] theorem markedEvents_returns (fn : String) (tr : List Mark) :
    markedEvents (.returns fn :: tr) = markedEvents tr := rfl

/-! ## Calls of the instrumented program -/

variable {P : Program} {M : Module}

/-- No function that the program defines belongs to the runtime. -/
def NamesApart (P : Program) : Prop :=
  ∀ M ∈ P, ∀ F ∈ M.functions, F.isDeclaration = false → isRuntime F.name = false

theorem isDeclaration_runModule (M : Module) (name : String) :
    (runModule M).isDeclaration name = M.isDeclaration name := by
  simp [Module.isDeclaration, runModule, List.any_map, Function.comp_def, name_run,
    isDeclaration_run]

theorem transfer_runModule (M : Module) (name : String) :
    (runModule M).transfer name = M.transfer name := by
  rw [Module.transfer, isDeclaration_runModule]
  rfl

/-- What a module defines is defined in the program. -/
theorem resolve_ne_none (hM : M ∈ P) {name : String} (h : M.isDeclaration name = false) :
    P.resolve name ≠ none := by
  simp only [Module.isDeclaration, Bool.not_eq_false', List.any_eq_true, Bool.and_eq_true] at h
  rcases h with ⟨F, hF, hname, hdefined⟩
  intro hnone
  have hentry : (M, F) ∈ P.functions :=
    List.mem_flatMap.2 ⟨M, hM, List.mem_map_of_mem hF⟩
  refine List.find?_eq_none.1 hnone (M, F) hentry ?_
  simp [Program.defines, hname, hdefined]

/-- A call that the pass instruments enters a function of the program. -/
theorem calls_of_isInstrumentedCall (hM : M ∈ P) {callee : Callee}
    (h : isInstrumentedCall M callee.function? = true) :
    ∃ name G, callee = .direct name ∧ M.transfer name = .defined ∧
      P.instrumented.calls (some name) = .enters G := by
  cases callee with
  | indirect => cases h
  | direct name =>
      simp only [Callee.function?, isInstrumentedCall, Bool.and_eq_true, Bool.not_eq_true',
        Bool.or_eq_false_iff] at h
      rcases h with ⟨hruntime, hintrinsic, hdefined⟩
      rcases Option.ne_none_iff_exists'.1 (resolve_ne_none hM hdefined) with ⟨entry, hentry⟩
      refine ⟨name, (runEntry entry).2, rfl, by simp [Module.transfer, hintrinsic, hdefined], ?_⟩
      simp [Program.calls, hruntime, resolve_instrumented, hentry]

end Pass
end CFlat
