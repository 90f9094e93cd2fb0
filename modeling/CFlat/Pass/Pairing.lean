import CFlat.Pass.Activations
import CFlat.SecureWorld.CallStack

/-!
# Pairing — which calls have both hooks

The pass puts a `call_enter` before a call if the module defines the callee, and a `call_return`
before every return of a defined function.  `hooks_paired` says what this comes to in a linked
program: a call of a function that the caller's module defines has one `call_enter` and one
`call_return`; a call of a function of another module, a call through a pointer and a call from
outside have the `call_return` only.
-/

namespace CFlat
namespace Pass

open Lib

variable {P : Program} {M : Module}

/-! ## Traces of hooks -/

/-- The traces of an activation in which the calls that come about in one of these ways have one
hook each at the call and at the return, and the other calls have the hook at the return only.  The
activation's own `call_return` comes last; a trace that is cut may lack it. -/
inductive Traced (hooked : Transfer → Prop) : Ending → List Mark → Prop
  | stopped : Traced hooked .cut []
  | entering {callId caller} : Traced hooked .cut [.event (.callEnter callId caller)]
  | leaving {returnId ending} : Traced hooked ending [.event (.callReturn returnId)]
  | node {nodeId tr ending} (hrest : Traced hooked ending tr) :
      Traced hooked ending (.event (.recordNode nodeId) :: tr)
  | runtime {name tr ending} (hrest : Traced hooked ending tr) :
      Traced hooked ending (.runtime name :: tr)
  | paired {how fn callId caller tr₁ tr₂ ending} (hhow : hooked how)
      (hcall : Traced hooked .returned tr₁) (hrest : Traced hooked ending tr₂) :
      Traced hooked ending
        (.event (.callEnter callId caller) :: .transfers how fn :: (tr₁ ++ .returns fn :: tr₂))
  | pairedCut {how fn callId caller tr} (hhow : hooked how) (hcall : Traced hooked .cut tr) :
      Traced hooked .cut (.event (.callEnter callId caller) :: .transfers how fn :: tr)
  | unpaired {how fn tr₁ tr₂ ending} (hhow : ¬ hooked how) (hcall : Traced hooked .returned tr₁)
      (hrest : Traced hooked ending tr₂) :
      Traced hooked ending (.transfers how fn :: (tr₁ ++ .returns fn :: tr₂))
  | unpairedCut {how fn tr} (hhow : ¬ hooked how) (hcall : Traced hooked .cut tr) :
      Traced hooked .cut (.transfers how fn :: tr)

/-- The calls that the pass pairs. -/
def IsDefined (how : Transfer) : Prop := how = .defined

/-- What a call may add to the trace of its caller. -/
def Continues : Ending → List Mark → Prop
  | .returned, tr => ∀ ending tr', Traced IsDefined ending tr' → Traced IsDefined ending (tr ++ tr')
  | .cut, tr => Traced IsDefined .cut tr

/-- The hook right in front of a call. -/
inductive CallHook (M : Module) (callee : Callee) : List Mark → Prop
  | entered {callId caller} (h : isInstrumentedCall M callee.function? = true) :
      CallHook M callee [.event (.callEnter callId caller)]
  | bare (h : isInstrumentedCall M callee.function? = false) : CallHook M callee []

/-- A call that does not enter a function of the program has no hook. -/
theorem CallHook.eq_nil (hM : M ∈ P) {callee : Callee} {hooks : List Mark}
    (hhook : CallHook M callee hooks)
    (h : ∀ G, P.instrumented.calls callee.function? ≠ .enters G) : hooks = [] := by
  cases hhook with
  | bare _ => rfl
  | entered hcall =>
      rcases calls_of_isInstrumentedCall hM hcall with ⟨name, G, rfl, _, hcalls⟩
      exact absurd hcalls (h G)

/-- The hook in front of a call fits the way in which it reaches its function. -/
theorem CallHook.transfer (hM : M ∈ P) {callee : Callee} {hooks : List Mark}
    (hhook : CallHook M callee hooks) {how : Transfer} {M' : Module} {G : Function}
    (h : Reaches P.instrumented (runModule M) callee how M' G) :
    (IsDefined how ∧ ∃ callId caller, hooks = [.event (.callEnter callId caller)]) ∨
      (¬ IsDefined how ∧ hooks = []) := by
  cases h with
  | pointer _ =>
      refine .inr ⟨(fun heq => nomatch heq), hhook.eq_nil hM fun G hcalls => ?_⟩
      cases hcalls
  | callback houtside _ =>
      refine .inr ⟨(fun heq => nomatch heq), hhook.eq_nil hM fun G hcalls => ?_⟩
      rw [houtside] at hcalls
      cases hcalls
  | @direct name M' G hname _ =>
      rw [transfer_runModule]
      cases hhook with
      | entered hcall =>
          rcases calls_of_isInstrumentedCall hM hcall with ⟨_, _, heq, htransfer, _⟩
          cases heq
          exact .inl ⟨htransfer, _, _, rfl⟩
      | bare hcall =>
          refine .inr ⟨?_, rfl⟩
          simp only [Callee.function?, isInstrumentedCall, hname, Bool.not_false, Bool.true_and,
            Bool.not_eq_false'] at hcall
          simp [IsDefined, Module.transfer, hcall]

/-- An activation behind its hook. -/
theorem CallHook.paired (hM : M ∈ P) {callee : Callee} {hooks : List Mark}
    (hhook : CallHook M callee hooks) {how : Transfer} {M' : Module} {G : Function}
    (h : Reaches P.instrumented (runModule M) callee how M' G) {tr₁ : List Mark}
    (hcall : Traced IsDefined .returned tr₁) {ending : Ending} {tr₂ : List Mark}
    (hrest : Traced IsDefined ending tr₂) :
    Traced IsDefined ending
      (hooks ++ .transfers how G.name :: (tr₁ ++ .returns G.name :: tr₂)) := by
  rcases hhook.transfer hM h with ⟨hhow, _, _, rfl⟩ | ⟨hhow, rfl⟩
  · exact .paired hhow hcall hrest
  · exact .unpaired hhow hcall hrest

theorem CallHook.pairedCut (hM : M ∈ P) {callee : Callee} {hooks : List Mark}
    (hhook : CallHook M callee hooks) {how : Transfer} {M' : Module} {G : Function}
    (h : Reaches P.instrumented (runModule M) callee how M' G) {tr : List Mark}
    (hcall : Traced IsDefined .cut tr) :
    Traced IsDefined .cut (hooks ++ .transfers how G.name :: tr) := by
  rcases hhook.transfer hM h with ⟨hhow, _, _, rfl⟩ | ⟨hhow, rfl⟩
  · exact .pairedCut hhow hcall
  · exact .unpairedCut hhow hcall

/-! ## Places in an instrumented block -/

/-- What is left of an instrumented block, with the hook that has just been called. -/
inductive Stands (M : Module) (bb : BasicBlock) : List Mark → List Instr → Prop
  | walking {suffix} (h : suffix ⊆ bb.body) :
      Stands M bb [] (walked M (getBBID bb) suffix ++ edgeHook bb ++ invokeHook M bb)
  | calling {i suffix callId caller} (hi : i ∈ bb.body) (h : suffix ⊆ bb.body)
      (hcall : isInstrumentedCall M i.op.calledFunction = true) :
      Stands M bb [.event (.callEnter callId caller)]
        (i :: (walked M (getBBID bb) suffix ++ edgeHook bb ++ invokeHook M bb))
  | recorded (h : bb.term.op ≠ .ret) : Stands M bb [] (invokeHook M bb)
  | invoking {callId caller} (h : isInstrumentedCall M bb.term.op.calledFunction = true) :
      Stands M bb [.event (.callEnter callId caller)] []
  | leaving {returnId} (h : bb.term.op = .ret) : Stands M bb [.event (.callReturn returnId)] []

theorem calledFunction_eq (op : Opcode) : op.calledFunction = op.callee?.bind Callee.function? := by
  cases op with
  | call callee args musttail => cases callee <;> rfl
  | _ => rfl

theorem TermOpcode.calledFunction_eq (op : TermOpcode) :
    op.calledFunction = op.callee?.bind Callee.function? := by
  cases op with
  | invoke callee normal unwind => cases callee <;> rfl
  | _ => rfl

/-- The hooks of a terminator. -/
theorem invokeHook_ret {bb : BasicBlock} (h : bb.term.op = .ret) : invokeHook M bb = [] := by
  simp [invokeHook, h, TermOpcode.calledFunction]

theorem stands_invokeHook_cons {bb : BasicBlock} {i : Instr} {rest : List Instr}
    (h : i :: rest = invokeHook M bb) :
    hookEvent? i.op = some (.callEnter bb.term.addr (getBBID bb)) ∧ rest = [] ∧
      isInstrumentedCall M bb.term.op.calledFunction = true := by
  simp only [invokeHook] at h
  split at h
  · rename_i hcall
    rcases List.cons.inj h with ⟨rfl, rfl⟩
    exact ⟨rfl, rfl, hcall⟩
  · cases h

/-- What an instruction of an instrumented block is: one of the source, with the hook that it
needs behind it, or a hook. -/
inductive Next (M : Module) (bb : BasicBlock) (hooks : List Mark) (i : Instr)
    (rest : List Instr) : Prop
  | source (hi : i ∈ bb.body) (hrest : Stands M bb [] rest)
      (hooked : isInstrumentedCall M i.op.calledFunction = true →
        ∃ callId caller, hooks = [.event (.callEnter callId caller)])
      (bare : isInstrumentedCall M i.op.calledFunction = false → hooks = [])
  | node {nodeId} (hooks_nil : hooks = []) (h : hookEvent? i.op = some (.recordNode nodeId))
      (hrest : Stands M bb [] rest)
  | call {e} (hooks_nil : hooks = []) (h : hookEvent? i.op = some e)
      (hrest : Stands M bb [.event e] rest)

theorem Stands.cons_cases {bb : BasicBlock} {hooks : List Mark} {i : Instr} {rest : List Instr}
    (h : Stands M bb hooks (i :: rest)) : Next M bb hooks i rest := by
  generalize hlist : i :: rest = list at h
  cases h with
  | invoking _ => cases hlist
  | leaving _ => cases hlist
  | calling hi hsuffix hcall =>
      rcases List.cons.inj hlist with ⟨rfl, rfl⟩
      refine .source hi (.walking hsuffix) (fun _ => ⟨_, _, rfl⟩) (fun hnot => ?_)
      rw [hcall] at hnot
      cases hnot
  | recorded hret =>
      rcases stands_invokeHook_cons hlist with ⟨hevent, rfl, hcall⟩
      exact .call rfl hevent (.invoking hcall)
  | @walking suffix hsuffix =>
      cases suffix with
      | cons i' suffix =>
          have hi' : i' ∈ bb.body := hsuffix List.mem_cons_self
          have hsub : suffix ⊆ bb.body := fun j hj => hsuffix (List.mem_cons_of_mem _ hj)
          rw [walked, List.flatMap_cons] at hlist
          by_cases hcall : isInstrumentedCall M i'.op.calledFunction = true
          · rw [if_pos hcall] at hlist
            rcases List.cons.inj hlist with ⟨rfl, rfl⟩
            exact .call rfl rfl (.calling hi' hsub hcall)
          · rw [if_neg hcall] at hlist
            rcases List.cons.inj hlist with ⟨rfl, rfl⟩
            exact .source hi' (.walking hsub) (fun hyes => absurd hyes hcall) (fun _ => rfl)
      | nil =>
          -- The hooks of the terminator.
          by_cases hbranch : bb.term.op.isBranch = true
          · have hret : bb.term.op ≠ .ret := by
              intro hret
              rw [hret] at hbranch
              cases hbranch
            simp only [walked, List.flatMap_nil, edgeHook, hbranch, if_true,
              List.nil_append] at hlist
            rcases List.cons.inj hlist with ⟨rfl, rfl⟩
            exact .node rfl rfl (.recorded hret)
          · by_cases hret : bb.term.op = .ret
            · rw [invokeHook_ret hret] at hlist
              simp only [walked, List.flatMap_nil, edgeHook, hret] at hlist
              rcases List.cons.inj hlist with ⟨rfl, rfl⟩
              exact .call rfl rfl (.leaving hret)
            · simp only [walked, List.flatMap_nil, edgeHook, hbranch, hret, if_false,
                Bool.false_eq_true, List.nil_append] at hlist
              rcases stands_invokeHook_cons hlist with ⟨hevent, rfl, hcall⟩
              exact .call rfl hevent (.invoking hcall)

/-- At the end of a block its terminator has the hook that it needs behind it. -/
inductive Last (M : Module) (bb : BasicBlock) (hooks : List Mark) : Prop
  | leaves {returnId} (h : bb.term.op = .ret) (left : hooks = [.event (.callReturn returnId)])
  | stays (h : bb.term.op ≠ .ret)
      (call : ∀ callee, bb.term.op.callee? = some callee → CallHook M callee hooks)
      (plain : bb.term.op.callee? = none → hooks = [])

theorem Stands.nil_cases {bb : BasicBlock} {hooks : List Mark} (h : Stands M bb hooks []) :
    Last M bb hooks := by
  have hfunction : ∀ callee, bb.term.op.callee? = some callee →
      bb.term.op.calledFunction = callee.function? := by
    intro callee hcallee
    rw [TermOpcode.calledFunction_eq, hcallee]
    rfl
  generalize hlist : [] = list at h
  cases h with
  | calling _ _ _ => cases hlist
  | leaving hret => exact .leaves hret rfl
  | invoking hcall =>
      refine .stays (fun hret => ?_) (fun callee hcallee => ?_) (fun hnone => ?_)
      · rw [hret] at hcall
        cases hcall
      · rw [hfunction callee hcallee] at hcall
        exact .entered hcall
      · rw [TermOpcode.calledFunction_eq, hnone] at hcall
        cases hcall
  | recorded hret =>
      refine .stays hret (fun callee hcallee => .bare ?_) (fun _ => rfl)
      rw [← hfunction callee hcallee]
      simpa [invokeHook] using hlist
  | @walking suffix hsuffix =>
      -- Without an instruction and a hook: the terminator is `unreachable`.
      have hempty := List.append_eq_nil_iff.1 hlist.symm
      have hedge : edgeHook bb = [] := (List.append_eq_nil_iff.1 hempty.1).2
      have hbranch : ¬ bb.term.op.isBranch = true := by
        intro hbranch
        simp [edgeHook, hbranch] at hedge
      refine .stays (fun hret => ?_) (fun callee hcallee => ?_) (fun _ => rfl)
      · simp [edgeHook, hret, TermOpcode.isBranch] at hedge
      · cases hop : bb.term.op <;> simp [TermOpcode.isBranch, TermOpcode.callee?, hop] at *

/-! ## Runs of the instrumented program -/

/-- A name of the instrumented program stands for an instrumented function. -/
theorem resolve_instruments (hnames : NamesApart P) {name : String} {M' : Module} {G : Function}
    (h : P.instrumented.resolve name = some (M', G)) :
    ∃ M F, M' = runModule M ∧ Instruments P M F G := by
  rw [resolve_instrumented] at h
  rcases Option.map_eq_some_iff.1 h with ⟨⟨M, F⟩, hsource, heq⟩
  rcases Prod.mk.inj heq with ⟨rfl, rfl⟩
  rcases mem_of_resolve hsource with ⟨hM, hF, rfl⟩
  have hdefines := List.find?_some hsource
  simp only [Program.defines, Bool.and_eq_true, Bool.not_eq_true'] at hdefines
  exact ⟨M, F, rfl, hsource, hnames M hM F hF hdefines.2, rfl⟩

theorem Reaches.instruments (hnames : NamesApart P) {N M' : Module} {callee : Callee}
    {how : Transfer} {G : Function} (h : Reaches P.instrumented N callee how M' G) :
    ∃ M F, M' = runModule M ∧ Instruments P M F G := by
  cases h with
  | direct _ hresolve => exact resolve_instruments hnames hresolve
  | pointer hresolve => exact resolve_instruments hnames hresolve
  | callback _ hresolve => exact resolve_instruments hnames hresolve

variable (P) in
/-- What a position of the instrumented program says of the trace from there. -/
def Position.Meets (M' : Module) (tr : List Mark) (ending : Ending) : Position → Prop
  | .call callee => ∀ M ∈ P, M' = runModule M → ∀ hooks, CallHook M callee hooks →
      Continues ending (hooks ++ tr)
  | .before F' rest t => ∀ M F bb, M' = runModule M → Instruments P M F F' → bb ∈ F.blocks →
      t = bb.term → ∀ hooks, Stands M bb hooks rest → Traced IsDefined ending (hooks ++ tr)

/-- From the beginning of a block. -/
theorem Position.Meets.block {M' : Module} {tr : List Mark} {ending : Ending} {F F' : Function}
    {bb' : BasicBlock} (h : (Position.before F' bb'.body bb'.term).Meets P M' tr ending)
    (hmodule : M' = runModule M) (hF : Instruments P M F F') {k : Nat}
    (hblock : F'.blocks[k]? = some bb') : Traced IsDefined ending tr := by
  rcases hF.block hblock with ⟨bb, hbb, rfl⟩
  exact h M F bb hmodule hF (List.mem_of_getElem? hbb) rfl [] (.walking (List.Subset.refl _))

theorem traced_hooks {bb : BasicBlock} {hooks : List Mark} {rest : List Instr}
    (h : Stands M bb hooks rest) : Traced IsDefined .cut hooks := by
  cases h with
  | walking _ => exact .stopped
  | calling _ _ _ => exact .entering
  | recorded _ => exact .stopped
  | invoking _ => exact .entering
  | leaving _ => exact .leaving

theorem callee?_ne_none {op : Opcode} {e : Event} (h : hookEvent? op = some e) :
    op.callee? ≠ none := by
  cases op with
  | call callee args musttail => simp [Opcode.callee?]
  | _ => cases h

/-- An instruction of the source that is no hook, by the call that it makes. -/
theorem Next.source_of_not_hook {bb : BasicBlock} {hooks : List Mark} {i : Instr}
    {rest : List Instr} (h : Next M bb hooks i rest) (hnone : hookEvent? i.op = none) :
    Stands M bb [] rest ∧ (i.op.callee? = none → hooks = []) ∧
      ∀ callee, i.op.callee? = some callee → CallHook M callee hooks := by
  cases h with
  | node _ hevent _ => simp [hnone] at hevent
  | call _ hevent _ => simp [hnone] at hevent
  | source hi hrest hooked bare =>
      rw [calledFunction_eq] at hooked bare
      refine ⟨hrest, fun hplain => bare (by rw [hplain]; rfl), fun callee hcallee => ?_⟩
      rw [hcallee, Option.bind_some] at hooked bare
      cases hcall : isInstrumentedCall M callee.function? with
      | true =>
          rcases hooked hcall with ⟨callId, caller, rfl⟩
          exact .entered hcall
      | false =>
          rw [bare hcall]
          exact .bare hcall

/-- The induction over runs: one case for each thing that an activation can do next. -/
theorem acts_meets (hfree : HookFree P) (hnames : NamesApart P) {M' : Module} {pos : Position}
    {tr : List Mark} {ending : Ending} (h : Acts P.instrumented M' pos tr ending) :
    pos.Meets P M' tr ending := by
  have hsource : ∀ {M F F' bb i}, Instruments P M F F' → bb ∈ F.blocks → i ∈ bb.body →
      hookEvent? i.op = none := by
    intro M F F' bb i hF hbb hi
    rcases mem_of_resolve hF.source with ⟨hM, hmem, _⟩
    exact hfree M hM F hmem bb hbb i hi
  induction h with
  | @stops M' pos =>
      cases pos with
      | before F' rest t =>
          intro M F bb _ _ _ _ hooks hstands
          rw [List.append_nil]
          exact traced_hooks hstands
      | call callee =>
          intro M hM _ hooks hhook
          rw [List.append_nil]
          cases hhook with
          | entered _ => exact Traced.entering
          | bare _ => exact Traced.stopped
  | outside h =>
      intro M hM _ hooks hhook
      rw [hhook.eq_nil hM (by simp [h])]
      exact fun _ _ htr' => htr'
  | runtime h =>
      intro M hM _ hooks hhook
      rw [hhook.eq_nil hM (by simp [h])]
      exact fun _ _ htr' => .runtime htr'
  | @enters M' callee how N G bb' tr h hhow hentry hcall ih =>
      intro M hM hmodule hooks hhook ending tr' htr'
      rcases h.instruments hnames with ⟨M₀, F₀, hmodule₀, hG⟩
      have hbody := ih.block hmodule₀ hG hentry
      subst hmodule
      have hpaired := hhook.paired hM h hbody htr'
      simpa using hpaired
  | entersCut h hentry hcall ih =>
      intro M hM hmodule hooks hhook
      rcases h.instruments hnames with ⟨M₀, F₀, hmodule₀, hG⟩
      subst hmodule
      exact hhook.pairedCut hM h (ih.block hmodule₀ hG hentry)
  | @callback M' callee N G bb' tr₁ tr₂ ending h hentry hcall hrest ihcall ihrest =>
      intro M hM hmodule hooks hhook
      rcases h.instruments hnames with ⟨M₀, F₀, hmodule₀, hG⟩
      have hbody := ihcall.block hmodule₀ hG hentry
      subst hmodule
      -- The code outside goes on behind the callback, without another hook.
      rcases hhook.transfer hM h with ⟨hhow, _⟩ | ⟨_, rfl⟩
      · cases hhow
      · have hafter := ihrest M hM rfl [] hhook
        cases ending with
        | returned =>
            intro ending tr' htr'
            have hpaired := hhook.paired hM h hbody (hafter ending tr' htr')
            simpa using hpaired
        | cut => exact hhook.paired hM h hbody hafter
  | plain h hrest ih =>
      intro M F bb hmodule hF hbb ht hooks hstands
      have hnone := Option.eq_none_iff_forall_ne_some.2 fun e he => callee?_ne_none he h
      rcases hstands.cons_cases.source_of_not_hook hnone with ⟨hstands', hplain, _⟩
      rw [hplain h]
      exact ih M F bb hmodule hF hbb ht [] hstands'
  | @hook M' F' i rest t e tr ending h hrest ih =>
      intro M F bb hmodule hF hbb ht hooks hstands
      cases hstands.cons_cases with
      | source hi _ _ _ =>
          rw [hsource hF hbb hi] at h
          cases h
      | @node nodeId hnil hevent hstands' =>
          rw [hevent] at h
          rcases Option.some.inj h with rfl
          rw [hnil]
          exact .node (ih M F bb hmodule hF hbb ht [] hstands')
      | @call e' hnil hevent hstands' =>
          rw [hevent] at h
          rcases Option.some.inj h with rfl
          rw [hnil]
          exact ih M F bb hmodule hF hbb ht [.event e'] hstands'
  | @call M' F' i rest t callee tr₁ tr₂ ending h hnone hcall hrest ihcall ihrest =>
      intro M F bb hmodule hF hbb ht hooks hstands
      rcases hstands.cons_cases.source_of_not_hook hnone with ⟨hstands', _, hhook⟩
      rw [← List.append_assoc]
      exact ihcall M (mem_of_resolve hF.source).1 hmodule hooks (hhook callee h) ending tr₂
        (ihrest M F bb hmodule hF hbb ht [] hstands')
  | @callCut M' F' i rest t callee tr h hnone hcall ih =>
      intro M F bb hmodule hF hbb ht hooks hstands
      rcases hstands.cons_cases.source_of_not_hook hnone with ⟨_, _, hhook⟩
      exact ih M (mem_of_resolve hF.source).1 hmodule hooks (hhook callee h)
  | ret h =>
      intro M F bb hmodule hF hbb ht hooks hstands
      cases hstands.nil_cases with
      | leaves _ hleft =>
          rw [hleft]
          exact .leaving
      | stays hret _ _ => exact absurd (ht ▸ h) hret
  | jump h hdest hblock hrest ih =>
      intro M F bb hmodule hF hbb ht hooks hstands
      subst ht
      cases hstands.nil_cases with
      | leaves hret _ =>
          rw [hret] at hdest
          cases hdest
      | stays _ _ hplain =>
          rw [hplain h]
          exact ih.block hmodule hF hblock
  | @invoke M' F' t callee normal unwind bb' tr₁ tr₂ ending h hcall hblock hrest ihcall ihrest =>
      intro M F bb hmodule hF hbb ht hooks hstands
      subst ht
      cases hstands.nil_cases with
      | leaves hret _ =>
          rw [hret] at h
          cases h
      | stays _ hhook _ =>
          rw [← List.append_assoc]
          exact ihcall M (mem_of_resolve hF.source).1 hmodule hooks
            (hhook callee (by rw [h]; rfl)) ending tr₂ (ihrest.block hmodule hF hblock)
  | @invokeCut M' F' t callee normal unwind tr h hcall ih =>
      intro M F bb hmodule hF hbb ht hooks hstands
      subst ht
      cases hstands.nil_cases with
      | leaves hret _ =>
          rw [hret] at h
          cases h
      | stays _ hhook _ =>
          exact ih M (mem_of_resolve hF.source).1 hmodule hooks (hhook callee (by rw [h]; rfl))

theorem traced_of_activation (hfree : HookFree P) (hnames : NamesApart P) {name : String}
    {tr : List Mark} {ending : Ending} (h : Activation P.instrumented name tr ending) :
    Traced IsDefined ending tr := by
  rcases h with ⟨M', F', bb', hresolve, hentry, hacts⟩
  rcases resolve_instruments hnames hresolve with ⟨M, F, hmodule, hF⟩
  exact (acts_meets hfree hnames hacts).block hmodule hF hentry

/-! ## Balanced activations -/

/-- Every call of the trace is one that the pass pairs. -/
def OnlyDefined (tr : List Mark) : Prop := ∀ how fn, .transfers how fn ∈ tr → IsDefined how

/-- Without other calls, the events of an activation are well nested up to its own return. -/
theorem Traced.nest {ending : Ending} {tr : List Mark} (h : Traced IsDefined ending tr)
    (hending : ending = .returned) (honly : OnlyDefined tr) :
    ∃ (t : Nest SecureWorld.CallSite UInt64) (returnId : UInt64), markedEvents tr =
      t.flatten SecureWorld.CallSite.enter SecureWorld.CallSite.exit .recordNode ++
        [.callReturn returnId] := by
  induction h with
  | stopped => cases hending
  | entering => cases hending
  | pairedCut _ _ _ => cases hending
  | unpairedCut _ _ _ => cases hending
  | @leaving returnId ending => exact ⟨.nil, returnId, rfl⟩
  | @node nodeId tr ending hrest ih =>
      rcases ih hending (fun how fn hmem => honly how fn (List.mem_cons_of_mem _ hmem)) with
        ⟨t, returnId, ht⟩
      exact ⟨.leaf nodeId t, returnId, by simp [ht, Nest.flatten]⟩
  | runtime hrest ih =>
      exact ih hending (fun how fn hmem => honly how fn (List.mem_cons_of_mem _ hmem))
  | @unpaired how fn tr₁ tr₂ ending hhow _ _ _ _ =>
      exact absurd (honly how fn List.mem_cons_self) hhow
  | @paired how fn callId caller tr₁ tr₂ ending _ _ _ ihcall ihrest =>
      rcases ihcall rfl (fun how fn hmem => honly how fn (by simp [hmem])) with ⟨t₁, id₁, ht₁⟩
      rcases ihrest hending (fun how fn hmem => honly how fn (by simp [hmem])) with ⟨t₂, id₂, ht₂⟩
      refine ⟨.loop ⟨callId, caller, id₁⟩ t₁ t₂, id₂, ?_⟩
      simp [ht₁, ht₂, Nest.flatten, SecureWorld.CallSite.enter, SecureWorld.CallSite.exit]

/-- The events of a call are a bracket around well-nested events, and handling them gives the call
depth of the trusted application back as long as its call stack has room. -/
def CallBalanced {D : Type} (H : SecureWorld.Sha256 D) (events : List Event) : Prop :=
  ∃ (site : SecureWorld.CallSite) (t : Nest SecureWorld.CallSite UInt64),
    events = (Nest.loop site t .nil).flatten SecureWorld.CallSite.enter SecureWorld.CallSite.exit
        .recordNode ∧
      ∀ ctx : SecureWorld.SessionCtx D, 0 ≤ ctx.callDepth →
        ctx.callDepth + (Nest.loop site t .nil).depth ≤ SecureWorld.maxCallDepth →
          (Machine.run (SecureWorld.handle H) ctx events).callDepth = ctx.callDepth

/-- A call of a function that the caller's module defines has one hook at the call and one at the
return, another call has the hook at the return only; a call that makes no other calls is
balanced. -/
theorem hooks_paired {D : Type} (H : SecureWorld.Sha256 D) (hfree : HookFree P)
    (hnames : NamesApart P) {name : String} {tr : List Mark} {ending : Ending}
    (h : Activation P.instrumented name tr ending) :
    Traced IsDefined ending tr ∧
      (ending = .returned → OnlyDefined tr → ∀ callId caller,
        CallBalanced H (.callEnter callId caller :: markedEvents tr)) := by
  have htraced := traced_of_activation hfree hnames h
  refine ⟨htraced, fun hending honly callId caller => ?_⟩
  rcases htraced.nest hending honly with ⟨t, returnId, ht⟩
  have hevents : .callEnter callId caller :: markedEvents tr =
      (Nest.loop ⟨callId, caller, returnId⟩ t .nil).flatten SecureWorld.CallSite.enter
        SecureWorld.CallSite.exit .recordNode := by
    rw [ht]
    rfl
  refine ⟨_, t, hevents, fun ctx hnonneg hroom => ?_⟩
  rw [hevents]
  exact SecureWorld.callDepth_nest .recordNode _ ctx hnonneg hroom (fun _ _ => rfl)

/-- A function that calls another one of its own module. -/
def oneModule : Program :=
  [⟨[⟨"main", [⟨[⟨16, .plain⟩, ⟨24, .call (.direct "work") [] false⟩], ⟨32, .ret⟩⟩]⟩,
    ⟨"work", [⟨[⟨48, .plain⟩], ⟨56, .ret⟩⟩]⟩]⟩]

def oneModuleTrace : List Mark :=
  [.event (.callEnter 24 16), .transfers .defined "work", .event (.callReturn 48),
    .returns "work", .event (.callReturn 16)]

theorem activation_oneModule :
    Activation oneModule.instrumented "main" oneModuleTrace .returned := by
  have hname : isRuntime "work" = false := by decide
  have hcall : ∀ M : Module, M.transfer "work" = .defined →
      Acts oneModule.instrumented M (.call (.direct "work"))
        (.transfers .defined "work" :: ([.event (.callReturn 48)] ++ [.returns "work"]))
        .returned :=
    fun M hhow => .direct hname rfl hhow rfl (.plain rfl (.hook rfl (.ret rfl)))
  exact ⟨_, _, _, rfl, rfl, .plain rfl (.hook rfl (.call rfl rfl (hcall _ rfl)
    (.hook rfl (.ret rfl))))⟩

theorem hooks_paired_oneModule :
    Traced IsDefined .returned oneModuleTrace ∧
      (Ending.returned = .returned → OnlyDefined oneModuleTrace → ∀ callId caller,
        CallBalanced SecureWorld.Sha256.free
          (.callEnter callId caller :: markedEvents oneModuleTrace)) := by
  refine hooks_paired SecureWorld.Sha256.free (P := oneModule) ?_ ?_ activation_oneModule
  · simp [HookFree, oneModule, hookEvent?]
  · have hnames : isRuntime "main" = false ∧ isRuntime "work" = false := by decide
    simp [NamesApart, oneModule, hnames]

/-- The wrapper's module only declares the entry of the benchmark. -/
def wrapper : Program :=
  [⟨[⟨"embench_main", []⟩, ⟨"cflat_finalize_and_print", []⟩,
    ⟨"main", [⟨[⟨16, .call (.direct "embench_main") [] false⟩,
      ⟨24, .call (.direct "cflat_finalize_and_print") [] false⟩], ⟨32, .ret⟩⟩]⟩]⟩,
    ⟨[⟨"embench_main", [⟨[⟨48, .plain⟩], ⟨56, .ret⟩⟩]⟩]⟩]

def wrapperTrace : List Mark :=
  [.transfers .declared "embench_main", .event (.callReturn 48), .returns "embench_main",
    .runtime "cflat_finalize_and_print", .event (.callReturn 16)]

theorem activation_wrapper : Activation wrapper.instrumented "main" wrapperTrace .returned := by
  have hname : isRuntime "embench_main" = false := by decide
  have hcall : ∀ M : Module, M.transfer "embench_main" = .declared →
      Acts wrapper.instrumented M (.call (.direct "embench_main"))
        (.transfers .declared "embench_main" ::
          ([.event (.callReturn 48)] ++ [.returns "embench_main"])) .returned :=
    fun M hhow => .direct hname rfl hhow rfl (.plain rfl (.hook rfl (.ret rfl)))
  exact ⟨_, _, _, rfl, rfl, .call rfl rfl (hcall _ rfl)
    (.call rfl rfl (.runtime rfl) (.hook rfl (.ret rfl)))⟩

/-- A trace that starts with a paired call starts with its hook. -/
theorem not_traced_transfers {hooked : Transfer → Prop} {how : Transfer} (hhow : hooked how)
    {fn : String} {tr : List Mark} {ending : Ending} :
    ¬ Traced hooked ending (.transfers how fn :: tr) := by
  intro h
  generalize hlist : Mark.transfers how fn :: tr = list at h
  cases h with
  | unpaired hnot _ _ => cases hlist; exact hnot hhow
  | unpairedCut hnot _ => cases hlist; exact hnot hhow
  | _ => cases hlist

/-- The call of the benchmark has no `call_enter`, although both modules are instrumented. -/
theorem declared_call_unpaired :
    ¬ ∀ P : Program, HookFree P → NamesApart P → ∀ (name : String) (tr : List Mark)
        (ending : Ending), Activation P.instrumented name tr ending →
          Traced (fun how => how ≠ .callback) ending tr := by
  intro h
  have htraced := h wrapper (by simp [HookFree, wrapper, hookEvent?]) (by
    have hnames : isRuntime "main" = false ∧ isRuntime "embench_main" = false := by decide
    simp [NamesApart, wrapper, hnames, Function.isDeclaration]) "main" wrapperTrace .returned
    activation_wrapper
  exact not_traced_transfers (by decide) htraced

end Pass
end CFlat
