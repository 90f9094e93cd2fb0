import CFlat.Pass.Execution

/-!
# Unfinished — runs seen up to some point

`Runs` is about activations that come to an end.  A program that measures itself in an endless loop
has none; what it does is seen here through the traces with which its runs begin.
-/

namespace CFlat
namespace Pass

/-- An activation of `F` that stands in its block `k` before these instructions and this terminator
can begin with these labels, whether or not it ends. -/
inductive Begins (P : Program) : Function → Nat → List Instr → Terminator → List Label → Prop
  | stops {F k rest t} : Begins P F k rest t []
  | ends {F k rest t tr out} (h : Runs P F k rest t tr out) : Begins P F k rest t tr
  | silent {F k i rest t tr} (h : P.effect i = .silent) (hrest : Begins P F k rest t tr) :
      Begins P F k (i :: rest) t tr
  | hook {F k i rest t e tr} (h : P.effect i = .hook e) (hrest : Begins P F k rest t tr) :
      Begins P F k (i :: rest) t (.event e :: tr)
  | runtime {F k i rest t name tr} (h : P.effect i = .runtime name)
      (hrest : Begins P F k rest t tr) : Begins P F k (i :: rest) t (.runtime name :: tr)
  | call {F k i rest t G bb tr₁ tr₂} (h : P.effect i = .enters G)
      (hentry : G.blocks[0]? = some bb) (hcall : Runs P G 0 bb.body bb.term tr₁ .returned)
      (hrest : Begins P F k rest t tr₂) :
      Begins P F k (i :: rest) t (.entered G.name 0 :: (tr₁ ++ tr₂))
  | inside {F k i rest t G bb tr} (h : P.effect i = .enters G)
      (hentry : G.blocks[0]? = some bb) (hcall : Begins P G 0 bb.body bb.term tr) :
      Begins P F k (i :: rest) t (.entered G.name 0 :: tr)
  | jump {F k t k' bb tr} (h : P.calls t.op.calledFunction = .silent)
      (hdest : k' ∈ t.op.successors) (hblock : F.blocks[k']? = some bb)
      (hrest : Begins P F k' bb.body bb.term tr) :
      Begins P F k [] t (.reached F.name k :: .entered F.name k' :: tr)
  | jumpRuntime {F k t name k' bb tr} (h : P.calls t.op.calledFunction = .runtime name)
      (hdest : k' ∈ t.op.successors) (hblock : F.blocks[k']? = some bb)
      (hrest : Begins P F k' bb.body bb.term tr) :
      Begins P F k [] t (.reached F.name k :: .runtime name :: .entered F.name k' :: tr)
  | invoke {F k t callee normal unwind G bb bb' tr₁ tr₂}
      (ht : t.op = .invoke callee normal unwind) (h : P.calls t.op.calledFunction = .enters G)
      (hentry : G.blocks[0]? = some bb) (hcall : Runs P G 0 bb.body bb.term tr₁ .returned)
      (hblock : F.blocks[normal]? = some bb') (hrest : Begins P F normal bb'.body bb'.term tr₂) :
      Begins P F k [] t
        (.reached F.name k :: .entered G.name 0 :: (tr₁ ++ .entered F.name normal :: tr₂))
  | invokeThrows {F k t callee normal unwind G bb bb' tr₁ tr₂}
      (ht : t.op = .invoke callee normal unwind) (h : P.calls t.op.calledFunction = .enters G)
      (hentry : G.blocks[0]? = some bb) (hcall : Runs P G 0 bb.body bb.term tr₁ .unwound)
      (hblock : F.blocks[unwind]? = some bb') (hrest : Begins P F unwind bb'.body bb'.term tr₂) :
      Begins P F k [] t
        (.reached F.name k :: .entered G.name 0 :: (tr₁ ++ .entered F.name unwind :: tr₂))
  | invokeInside {F k t callee normal unwind G bb tr}
      (ht : t.op = .invoke callee normal unwind) (h : P.calls t.op.calledFunction = .enters G)
      (hentry : G.blocks[0]? = some bb) (hcall : Begins P G 0 bb.body bb.term tr) :
      Begins P F k [] t (.reached F.name k :: .entered G.name 0 :: tr)

/-- A run of a defined function, up to some point. -/
def Starts (P : Program) (fn : String) (tr : List Label) : Prop :=
  ∃ M F bb tr', P.resolve fn = some (M, F) ∧ F.blocks[0]? = some bb ∧
    Begins P F 0 bb.body bb.term tr' ∧ tr = .entered fn 0 :: tr'

end Pass
end CFlat
