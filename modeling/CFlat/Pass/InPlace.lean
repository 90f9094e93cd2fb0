import Mathlib.Data.List.Nodup
import CFlat.Pass.Preservation

/-!
# InPlace — the pass on the module that it changes

`runModule` instruments every function as the source module has it.  The pass manager calls
`CFlatPass::run` on one function after the other, each time on the module that the earlier calls
have left, and the first hook of a kind adds its declaration to that module.  Neither the order nor
the declarations matter.
-/

namespace CFlat
namespace Pass

variable {M N : Module} {P Q : Program}

/-! ## One function after the other -/

def declaration (name : String) : Function := ⟨name, []⟩

/-- `Module::getOrInsertFunction`. -/
def Module.getOrInsertFunction (M : Module) (name : String) : Module :=
  if M.functions.any fun F => F.name == name then M else ⟨M.functions ++ [declaration name]⟩

/-- The functions that `getRecordNodeFunc`, `getCallReturnFunc` and `getCallEnterFunc` ask for while
a block is instrumented. -/
def blockRequests (M : Module) (bb : BasicBlock) : List String :=
  let calls := bb.body.map (fun i => i.op.calledFunction) ++ [bb.term.op.calledFunction]
  (if bb.term.op ≠ .ret ∧ bb.term.op ≠ .unreachable then ["__cflat_record_node"] else []) ++
    (if bb.term.op = .ret then ["__cflat_call_return"] else []) ++
      (calls.filter (isInstrumentedCall M)).map fun _ => "__cflat_call_enter"

def requests (M : Module) (F : Function) : List String :=
  if F.isDeclaration then []
  else if isRuntime F.name then []
  else F.blocks.flatMap (blockRequests M)

/-- The pass on the function at a position of the module. -/
def runAt (M : Module) (k : Nat) : Module :=
  match M.functions[k]? with
  | none => M
  | some F =>
      (requests M F).foldl Module.getOrInsertFunction ⟨M.functions.set k (run M F).1⟩

def runInOrder (order : List Nat) (M : Module) : Module := order.foldl runAt M

/-! ## Declarations -/

/-- The module still has these functions in front, and declarations behind. -/
structure Declares (base : List Function) (decls : List String) (N : Module) : Prop where
  functions : N.functions = base ++ decls.map declaration
  nodup : decls.Nodup

theorem any_declarations (decls : List String) (name : String) :
    (decls.map declaration).any (fun F => F.name == name) = decide (name ∈ decls) := by
  induction decls with
  | nil => rfl
  | cons d decls ih =>
      rw [List.map_cons, List.any_cons, ih]
      by_cases h : d = name
      · simp [declaration, h]
      · simp [declaration, h, Ne.symm h]

theorem Declares.getOrInsertFunction {base : List Function} {decls : List String}
    (h : Declares base decls N) (name : String) :
    ∃ decls', Declares base decls' (N.getOrInsertFunction name) ∧
      ∀ d, d ∈ decls' ↔ d ∈ decls ∨ d = name ∧ ∀ F ∈ base, F.name ≠ d := by
  have hany : (N.functions.any fun F => F.name == name) =
      (base.any (fun F => F.name == name) || decide (name ∈ decls)) := by
    rw [h.functions, List.any_append, any_declarations]
  rw [Module.getOrInsertFunction, hany]
  cases hbase : base.any fun F => F.name == name with
  | true =>
      -- The module has a function of this name.
      rcases List.any_eq_true.1 hbase with ⟨F, hF, hname⟩
      refine ⟨decls, h, fun d => ⟨.inl, ?_⟩⟩
      rintro (hd | ⟨rfl, hne⟩)
      · exact hd
      · exact absurd (by simpa using hname) (hne F hF)
  | false =>
      have hne : ∀ F ∈ base, F.name ≠ name := by
        intro F hF
        simpa using List.any_eq_false.1 hbase F hF
      by_cases hmem : name ∈ decls
      · rw [Bool.false_or, decide_eq_true hmem]
        refine ⟨decls, h, fun d => ⟨.inl, ?_⟩⟩
        rintro (hd | ⟨rfl, _⟩)
        · exact hd
        · exact hmem
      · rw [Bool.false_or, decide_eq_false hmem]
        refine ⟨decls ++ [name], ⟨?_, ?_⟩, fun d => ?_⟩
        · simp [h.functions]
        · exact h.nodup.append (List.nodup_singleton name) (List.disjoint_singleton.2 hmem)
        · rw [List.mem_append, List.mem_singleton]
          constructor
          · rintro (hd | rfl)
            · exact .inl hd
            · exact .inr ⟨rfl, hne⟩
          · rintro (hd | ⟨rfl, _⟩)
            · exact .inl hd
            · exact .inr rfl

theorem Declares.foldl {base : List Function} {decls : List String} (h : Declares base decls N)
    (names : List String) :
    ∃ decls', Declares base decls' (names.foldl Module.getOrInsertFunction N) ∧
      ∀ d, d ∈ decls' ↔ d ∈ decls ∨ d ∈ names ∧ ∀ F ∈ base, F.name ≠ d := by
  induction names generalizing N decls with
  | nil => exact ⟨decls, h, by simp⟩
  | cons name names ih =>
      rcases h.getOrInsertFunction name with ⟨decls₁, h₁, hmem₁⟩
      rcases ih h₁ with ⟨decls₂, h₂, hmem₂⟩
      refine ⟨decls₂, h₂, fun d => ?_⟩
      rw [hmem₂, hmem₁, List.mem_cons]
      tauto

/-! ## What the pass reads of the module -/

theorem isInstrumentedCall_congr (h : ∀ name, N.isDeclaration name = M.isDeclaration name) :
    isInstrumentedCall N = isInstrumentedCall M := by
  funext callee
  cases callee with
  | none => rfl
  | some name => simp only [isInstrumentedCall, h]

theorem run_congr (h : ∀ name, N.isDeclaration name = M.isDeclaration name) (F : Function) :
    (run N F).1 = (run M F).1 ∧ requests N F = requests M F := by
  have hcalls := isInstrumentedCall_congr h
  constructor
  · cases hname : isRuntime F.name with
    | true =>
        rw [run, run, hname]
        rfl
    | false =>
        have hblock : instrumentedBlock N = instrumentedBlock M := by
          funext bb
          simp only [instrumentedBlock, walked, invokeHook, hcalls]
        rw [run_fst N hname, run_fst M hname, hblock]
  · have hblock : blockRequests N = blockRequests M := by
      funext bb
      simp only [blockRequests, hcalls]
    simp only [requests, hblock]

/-! ## Part of the order done -/

/-- The pass has been at the functions in `done`. -/
structure PartlyRun (M : Module) (done : List Nat) (base : List Function) (decls : List String)
    (N : Module) : Prop extends Declares base decls N where
  base_eq : ∀ k, base[k]? =
    (M.functions[k]?).map fun F => if k ∈ done then (run M F).1 else F
  requested : ∀ d, d ∈ decls ↔ (∃ k ∈ done, ∃ F, M.functions[k]? = some F ∧ d ∈ requests M F) ∧
    ∀ F ∈ M.functions, F.name ≠ d

theorem partlyRun_nil (M : Module) : PartlyRun M [] M.functions [] M where
  functions := by simp
  nodup := List.nodup_nil
  base_eq := by simp
  requested := by simp

/-- Every function that is still in front has its name, and is a definition if it was one. -/
theorem PartlyRun.looks {done : List Nat} {base : List Function} {decls : List String}
    (h : PartlyRun M done base decls N) :
    base.map (fun F => (F.name, F.isDeclaration)) =
      M.functions.map fun F => (F.name, F.isDeclaration) := by
  apply List.ext_getElem?
  intro k
  rw [List.getElem?_map, List.getElem?_map, h.base_eq, Option.map_map]
  congr 1
  funext F
  simp only [Function.comp_apply]
  split
  · rw [name_run, isDeclaration_run]
  · rfl

theorem PartlyRun.names {done : List Nat} {base : List Function} {decls : List String}
    (h : PartlyRun M done base decls N) : base.map (·.name) = M.functions.map (·.name) := by
  have hlooks := congrArg (List.map Prod.fst) h.looks
  simpa [Function.comp_def] using hlooks

theorem forall_names_iff {base functions : List Function}
    (h : base.map (·.name) = functions.map (·.name)) (d : String) :
    (∀ F ∈ base, F.name ≠ d) ↔ ∀ F ∈ functions, F.name ≠ d := by
  have hmem : d ∈ base.map (·.name) ↔ d ∈ functions.map (·.name) := by rw [h]
  simp only [List.mem_map] at hmem
  constructor
  · intro hbase F hF hd
    rcases hmem.2 ⟨F, hF, hd⟩ with ⟨G, hG, hd'⟩
    exact hbase G hG hd'
  · intro hfunctions F hF hd
    rcases hmem.1 ⟨F, hF, hd⟩ with ⟨G, hG, hd'⟩
    exact hfunctions G hG hd'

/-- The module answers the questions of the pass as the source does. -/
theorem PartlyRun.isDeclaration {done : List Nat} {base : List Function} {decls : List String}
    (h : PartlyRun M done base decls N) (name : String) :
    N.isDeclaration name = M.isDeclaration name := by
  -- The declarations that the pass has added are no definitions.
  have hdecls : (decls.map declaration).any (fun F => F.name == name && !F.isDeclaration) =
      false := by
    rw [List.any_eq_false]
    intro F hF
    rcases List.mem_map.1 hF with ⟨d, _, rfl⟩
    simp [declaration, Function.isDeclaration]
  have hlooks := congrArg (List.any · fun x => x.1 == name && !x.2) h.looks
  simp only [List.any_map, Function.comp_def] at hlooks
  rw [Module.isDeclaration, h.functions, List.any_append, hdecls, Bool.or_false, hlooks,
    Module.isDeclaration]

theorem getElem?_set_self {base : List Function} {k j : Nat} {F : Function}
    (h : k < base.length) : (base.set k F)[j]? = if k = j then some F else base[j]? := by
  by_cases hkj : k = j
  · subst hkj
    simp [h]
  · simp [hkj]

/-- Where the module has no function of the source, the pass does nothing. -/
theorem PartlyRun.runAt_behind {done : List Nat} {base : List Function} {decls : List String}
    (h : PartlyRun M done base decls N) {k : Nat} (hk : M.functions[k]? = none) :
    runAt N k = N := by
  have hlength : base.length ≤ k := by
    have hbase := h.base_eq k
    rw [hk] at hbase
    exact List.getElem?_eq_none_iff.1 hbase
  rw [runAt]
  cases hN : N.functions[k]? with
  | none => rfl
  | some F =>
      -- A declaration that the pass has added itself.
      have hmem : F ∈ decls.map declaration := by
        rw [h.functions, List.getElem?_append_right hlength] at hN
        exact List.mem_of_getElem? hN
      rcases List.mem_map.1 hmem with ⟨d, _, rfl⟩
      have hset : N.functions.set k (declaration d) = N.functions := by
        apply List.ext_getElem?
        intro j
        rw [getElem?_set_self (List.getElem?_eq_some_iff.1 hN).1]
        split
        · rename_i hkj
          rw [← hkj, hN]
        · rfl
      have hrun : (run N (declaration d)).1 = declaration d := rfl
      have hrequests : requests N (declaration d) = [] := rfl
      simp only [hrun, hrequests, List.foldl_nil, hset]

/-- The step lemma: the pass at one more function. -/
theorem PartlyRun.step {done : List Nat} {base : List Function} {decls : List String}
    (h : PartlyRun M done base decls N) {k : Nat} (hk : k ∉ done) :
    ∃ base' decls', PartlyRun M (done ++ [k]) base' decls' (runAt N k) := by
  cases hF : M.functions[k]? with
  | none =>
      refine ⟨base, decls, ?_⟩
      rw [h.runAt_behind hF]
      refine ⟨h.toDeclares, fun j => ?_, fun d => ?_⟩
      · rw [h.base_eq]
        cases hj : M.functions[j]? with
        | none => rfl
        | some G =>
            have hne : j ≠ k := by
              rintro rfl
              rw [hF] at hj
              cases hj
            simp [hne]
      · rw [h.requested]
        constructor
        · rintro ⟨⟨j, hj, hG⟩, hname⟩
          exact ⟨⟨j, List.mem_append_left _ hj, hG⟩, hname⟩
        · rintro ⟨⟨j, hj, G, hG, hd⟩, hname⟩
          rcases List.mem_append.1 hj with hj | hj
          · exact ⟨⟨j, hj, G, hG, hd⟩, hname⟩
          · rw [List.mem_singleton.1 hj, hF] at hG
            cases hG
  | some F =>
      have hbase : base[k]? = some F := by rw [h.base_eq, hF, Option.map_some, if_neg hk]
      have hlt : k < base.length := (List.getElem?_eq_some_iff.1 hbase).1
      have hN : N.functions[k]? = some F := by
        rw [h.functions, List.getElem?_append_left hlt, hbase]
      rcases run_congr h.isDeclaration F with ⟨hrun, hrequests⟩
      have hset : Declares (base.set k (run M F).1) decls ⟨N.functions.set k (run M F).1⟩ :=
        ⟨by rw [h.functions, List.set_append_left _ _ hlt], h.nodup⟩
      rcases hset.foldl (requests M F) with ⟨decls', hdeclares, hmem⟩
      have hstep : runAt N k = (requests M F).foldl Module.getOrInsertFunction
          ⟨N.functions.set k (run M F).1⟩ := by
        rw [runAt, hN]
        simp only [hrun, hrequests]
      -- The pass has read the module as the source had it, so it writes what `runModule` writes.
      have hbase' : ∀ j, (base.set k (run M F).1)[j]? =
          (M.functions[j]?).map fun G => if j ∈ done ++ [k] then (run M G).1 else G := by
        intro j
        rw [getElem?_set_self hlt]
        by_cases hj : k = j
        · subst hj
          simp [hF]
        · rw [if_neg hj, h.base_eq]
          simp [Ne.symm hj]
      have hnames : (base.set k (run M F).1).map (·.name) = M.functions.map (·.name) := by
        rw [← h.names]
        apply List.ext_getElem?
        intro j
        rw [List.getElem?_map, List.getElem?_map, getElem?_set_self hlt]
        split
        · rename_i hkj
          rw [← hkj, hbase, Option.map_some, Option.map_some, name_run]
        · rfl
      rw [hstep]
      refine ⟨_, decls', ⟨hdeclares, hbase', fun d => ?_⟩⟩
      rw [hmem, h.requested, forall_names_iff hnames]
      constructor
      · rintro (⟨⟨j, hj, hG⟩, hname⟩ | ⟨hd, hname⟩)
        · exact ⟨⟨j, List.mem_append_left _ hj, hG⟩, hname⟩
        · exact ⟨⟨k, by simp, F, hF, hd⟩, hname⟩
      · rintro ⟨⟨j, hj, G, hG, hd⟩, hname⟩
        rcases List.mem_append.1 hj with hj | hj
        · exact .inl ⟨⟨j, hj, G, hG, hd⟩, hname⟩
        · obtain rfl := List.mem_singleton.1 hj
          rw [hF] at hG
          obtain rfl := Option.some.inj hG
          exact .inr ⟨hd, hname⟩

/-- The run lemma. -/
theorem PartlyRun.run {done : List Nat} {base : List Function} {decls : List String}
    (h : PartlyRun M done base decls N) {order : List Nat} (horder : (done ++ order).Nodup) :
    ∃ base' decls', PartlyRun M (done ++ order) base' decls' (runInOrder order N) := by
  induction order generalizing done base decls N with
  | nil => exact ⟨base, decls, by rwa [List.append_nil]⟩
  | cons k order ih =>
      have hk : k ∉ done := fun hmem =>
        (List.disjoint_of_nodup_append horder) hmem (List.mem_cons_self)
      rcases h.step hk with ⟨base₁, decls₁, h₁⟩
      have happend : done ++ k :: order = (done ++ [k]) ++ order := by simp
      rw [happend] at horder ⊢
      exact ih h₁ horder

/-! ## The whole module -/

/-- The functions are visited in this order, each once; LLVM's own order is one of these. -/
structure Visits (M : Module) (order : List Nat) : Prop where
  once : order.Nodup
  all : ∀ k < M.functions.length, k ∈ order

/-- Once every function has been visited, in front stands the module that `runModule` makes. -/
theorem Visits.partlyRun {order : List Nat} (h : Visits M order) :
    ∃ decls, PartlyRun M order (runModule M).functions decls (runInOrder order M) := by
  rcases (partlyRun_nil M).run (by simpa using h.once) with ⟨base, decls, hrun⟩
  rw [List.nil_append] at hrun
  have hbase : base = (runModule M).functions := by
    apply List.ext_getElem?
    intro k
    rw [hrun.base_eq, runModule, List.getElem?_map]
    cases hF : M.functions[k]? with
    | none => rfl
    | some F =>
        have hk : k ∈ order := h.all k (List.getElem?_eq_some_iff.1 hF).1
        simp [hk]
  subst hbase
  exact ⟨decls, hrun⟩

/-- Whatever the order, the pass leaves the functions of `runModule` and, behind them, one
declaration for each hook that it has used and that the module did not have. -/
theorem functions_runInOrder (M : Module) (order : List Nat) (h : Visits M order) :
    ∃ decls : List String,
      (runInOrder order M).functions = (runModule M).functions ++ decls.map declaration ∧
        decls.Nodup ∧ ∀ d, d ∈ decls ↔
          (∃ F ∈ M.functions, d ∈ requests M F) ∧ ∀ F ∈ M.functions, F.name ≠ d := by
  rcases h.partlyRun with ⟨decls, hrun⟩
  refine ⟨decls, hrun.functions, hrun.nodup, fun d => ?_⟩
  rw [hrun.requested]
  constructor
  · rintro ⟨⟨k, _, F, hF, hd⟩, hname⟩
    exact ⟨⟨F, List.mem_of_getElem? hF, hd⟩, hname⟩
  · rintro ⟨⟨F, hF, hd⟩, hname⟩
    rcases List.getElem?_of_mem hF with ⟨k, hk⟩
    exact ⟨⟨k, h.all k (List.getElem?_eq_some_iff.1 hk).1, F, hk, hd⟩, hname⟩

/-- A function that calls another one, branches and returns. -/
def mainAndCallee : Module :=
  ⟨[⟨"main", [⟨[⟨16, .call (.direct "callee") [] false⟩], ⟨24, .br 1⟩⟩, ⟨[], ⟨32, .ret⟩⟩]⟩,
    ⟨"callee", [⟨[], ⟨40, .ret⟩⟩]⟩]⟩

theorem visits_mainAndCallee : Visits mainAndCallee [1, 0] := ⟨by decide, by decide⟩

theorem functions_runInOrder_mainAndCallee :
    ∃ decls : List String,
      (runInOrder [1, 0] mainAndCallee).functions =
          (runModule mainAndCallee).functions ++ decls.map declaration ∧
        decls.Nodup ∧ ∀ d, d ∈ decls ↔
          (∃ F ∈ mainAndCallee.functions, d ∈ requests mainAndCallee F) ∧
            ∀ F ∈ mainAndCallee.functions, F.name ≠ d :=
  functions_runInOrder mainAndCallee [1, 0] visits_mainAndCallee

/-! ## The linked program -/

/-- A module as the pass manager leaves it. -/
def InPlace (M N : Module) : Prop := ∃ order, Visits M order ∧ N = runInOrder order M

/-- Programs in which the same names stand for the same functions have the same runs. -/
theorem Runs.congr (h : ∀ callee, P.calls callee = Q.calls callee) {F : Function} {k : Nat}
    {rest : List Instr} {t : Terminator} {tr : List Label} {out : Outcome}
    (hruns : Runs P F k rest t tr out) : Runs Q F k rest t tr out := by
  -- The induction is on the run, in which a program is asked for effects and calls only.
  have heffect : ∀ i, P.effect i = Q.effect i := by
    intro i
    rw [Program.effect, Program.effect, h]
  induction hruns with
  | silent hi hrest ih => exact .silent ((heffect _).symm.trans hi) ih
  | throws hi hcall => exact .throws ((heffect _).symm.trans hi) hcall
  | hook hi hrest ih => exact .hook ((heffect _).symm.trans hi) ih
  | runtime hi hrest ih => exact .runtime ((heffect _).symm.trans hi) ih
  | call hi hentry hcall hrest ihcall ihrest =>
      exact .call ((heffect _).symm.trans hi) hentry ihcall ihrest
  | callThrows hi hentry hcall ih => exact .callThrows ((heffect _).symm.trans hi) hentry ih
  | ret ht => exact .ret ht
  | leaves ht => exact .leaves ht
  | jump ht hdest hblock hrest ih => exact .jump ((h _).symm.trans ht) hdest hblock ih
  | jumpRuntime ht hdest hblock hrest ih =>
      exact .jumpRuntime ((h _).symm.trans ht) hdest hblock ih
  | invoke hop ht hentry hcall hblock hrest ihcall ihrest =>
      exact .invoke hop ((h _).symm.trans ht) hentry ihcall hblock ihrest
  | invokeThrows hop ht hentry hcall hblock hrest ihcall ihrest =>
      exact .invokeThrows hop ((h _).symm.trans ht) hentry ihcall hblock ihrest

theorem Begins.congr (h : ∀ callee, P.calls callee = Q.calls callee) {F : Function} {k : Nat}
    {rest : List Instr} {t : Terminator} {tr : List Label} (hbegins : Begins P F k rest t tr) :
    Begins Q F k rest t tr := by
  have heffect : ∀ i, P.effect i = Q.effect i := by
    intro i
    rw [Program.effect, Program.effect, h]
  induction hbegins with
  | stops => exact .stops
  | ends hruns => exact .ends (hruns.congr h)
  | silent hi hrest ih => exact .silent ((heffect _).symm.trans hi) ih
  | hook hi hrest ih => exact .hook ((heffect _).symm.trans hi) ih
  | runtime hi hrest ih => exact .runtime ((heffect _).symm.trans hi) ih
  | call hi hentry hcall hrest ih =>
      exact .call ((heffect _).symm.trans hi) hentry (hcall.congr h) ih
  | inside hi hentry hcall ih => exact .inside ((heffect _).symm.trans hi) hentry ih
  | jump ht hdest hblock hrest ih => exact .jump ((h _).symm.trans ht) hdest hblock ih
  | jumpRuntime ht hdest hblock hrest ih =>
      exact .jumpRuntime ((h _).symm.trans ht) hdest hblock ih
  | invoke hop ht hentry hcall hblock hrest ih =>
      exact .invoke hop ((h _).symm.trans ht) hentry (hcall.congr h) hblock ih
  | invokeThrows hop ht hentry hcall hblock hrest ih =>
      exact .invokeThrows hop ((h _).symm.trans ht) hentry (hcall.congr h) hblock ih
  | invokeInside hop ht hentry hcall ih =>
      exact .invokeInside hop ((h _).symm.trans ht) hentry ih

/-- The function that a name stands for, without its module. -/
theorem resolve_map_snd (P : Program) (name : String) :
    (P.resolve name).map Prod.snd =
      (P.flatMap Module.functions).find? fun F => F.name == name && !F.isDeclaration := by
  have hfunctions : P.flatMap Module.functions = P.functions.map Prod.snd := by
    simp [Program.functions, List.map_flatMap, Function.comp_def]
  rw [hfunctions, List.find?_map]
  rfl

theorem find?_declarations (decls : List String) (name : String) :
    (decls.map declaration).find? (fun F => F.name == name && !F.isDeclaration) = none := by
  rw [List.find?_eq_none]
  intro F hF
  rcases List.mem_map.1 hF with ⟨d, _, rfl⟩
  simp [declaration, Function.isDeclaration]

theorem resolve_inPlace (h : List.Forall₂ InPlace P Q) (name : String) :
    (Q.resolve name).map Prod.snd = (P.instrumented.resolve name).map Prod.snd := by
  rw [resolve_map_snd, resolve_map_snd]
  induction h with
  | nil => rfl
  | @cons M N P Q hMN _ ih =>
      rcases hMN with ⟨order, hvisits, rfl⟩
      rcases hvisits.partlyRun with ⟨decls, hrun⟩
      rw [Program.instrumented, List.map_cons, List.flatMap_cons, List.flatMap_cons,
        List.find?_append, List.find?_append, hrun.functions, List.find?_append,
        find?_declarations, Option.or_none, ih, Program.instrumented]

theorem calls_inPlace (h : List.Forall₂ InPlace P Q) (callee : Option String) :
    Q.calls callee = P.instrumented.calls callee := by
  cases callee with
  | none => rfl
  | some name =>
      have hresolve := resolve_inPlace h name
      simp only [Program.calls]
      split
      · rfl
      · cases hQ : Q.resolve name with
        | none =>
            cases hP : P.instrumented.resolve name with
            | none => rfl
            | some entry => simp [hQ, hP] at hresolve
        | some entry =>
            cases hP : P.instrumented.resolve name with
            | none => simp [hQ, hP] at hresolve
            | some entry' =>
                rw [hQ, hP] at hresolve
                exact congrArg Effect.enters (Option.some.inj hresolve)

/-- What a name stands for, in the two programs. -/
theorem resolve_of_map_snd {name : String} {M : Module} {F : Function}
    (h : (P.resolve name).map Prod.snd = (Q.resolve name).map Prod.snd)
    (hF : P.resolve name = some (M, F)) : ∃ N, Q.resolve name = some (N, F) := by
  have hQ : (Q.resolve name).map Prod.snd = some F := by
    rw [← h, hF]
    rfl
  rcases Option.map_eq_some_iff.1 hQ with ⟨⟨N, F'⟩, hF', rfl⟩
  exact ⟨N, hF'⟩

theorem Finishes.congr (hcalls : ∀ callee, P.calls callee = Q.calls callee)
    (hresolve : ∀ name, (P.resolve name).map Prod.snd = (Q.resolve name).map Prod.snd)
    {fn : String} {out : Outcome} {tr : List Label} (h : Finishes P fn out tr) :
    Finishes Q fn out tr := by
  rcases h with ⟨M, F, bb, tr', hF, hentry, hruns, rfl⟩
  rcases resolve_of_map_snd (hresolve fn) hF with ⟨N, hN⟩
  exact ⟨N, F, bb, tr', hN, hentry, hruns.congr hcalls, rfl⟩

theorem Starts.congr (hcalls : ∀ callee, P.calls callee = Q.calls callee)
    (hresolve : ∀ name, (P.resolve name).map Prod.snd = (Q.resolve name).map Prod.snd)
    {fn : String} {tr : List Label} (h : Starts P fn tr) : Starts Q fn tr := by
  rcases h with ⟨M, F, bb, tr', hF, hentry, hbegins, rfl⟩
  rcases resolve_of_map_snd (hresolve fn) hF with ⟨N, hN⟩
  exact ⟨N, F, bb, tr', hN, hentry, hbegins.congr hcalls, rfl⟩

theorem starts_inPlace_iff (h : List.Forall₂ InPlace P Q) {fn : String} {tr : List Label} :
    Starts Q fn tr ↔ Starts P.instrumented fn tr := by
  have hcalls := calls_inPlace h
  have hresolve := resolve_inPlace h
  constructor
  · exact Starts.congr hcalls hresolve
  · exact Starts.congr (fun callee => (hcalls callee).symm) fun name => (hresolve name).symm

end Pass
end CFlat
