import CFlat.Pass.InPlace

/-!
# Hooked — the traces of instrumented programs

In a run of an instrumented program every terminator that is executed stands right behind its own
hook: a branch behind its `record_node`, with at most hooks of a call in between, a return behind
its `call_return`.  What is counted, hashed or cut at the calls of the runtime follows from this
shape.  A run that is cut between a hook and its terminator owes the terminator (`Announced`).
-/

namespace CFlat
namespace Pass

variable {P Q : Program} {M : Module} {bb : BasicBlock}

/-! ## The shape of a trace -/

/-- Only hooks of calls. -/
def OnlyEnters (hooks : List Label) : Prop :=
  ∀ l ∈ hooks, ∃ callId caller, l = .event (.callEnter callId caller)

/-- A trace in which every executed terminator has its hook. -/
inductive Hooked (P : Program) : List Label → Prop
  | nil : Hooked P []
  | entered {fn k tr} (hrest : Hooked P tr) : Hooked P (.entered fn k :: tr)
  | runtime {name tr} (hrest : Hooked P tr) : Hooked P (.runtime name :: tr)
  | callEnter {callId caller tr} (hrest : Hooked P tr) :
      Hooked P (.event (.callEnter callId caller) :: tr)
  | branch {fn k bb hooks tr} (hblock : P.block? fn k = some bb)
      (hbranch : bb.term.op.isBranch = true) (hhooks : OnlyEnters hooks) (hrest : Hooked P tr) :
      Hooked P (.event (.recordNode (getBBID bb)) :: (hooks ++ .reached fn k :: tr))
  | returns {fn k bb tr} (hblock : P.block? fn k = some bb) (hret : bb.term.op = .ret)
      (hrest : Hooked P tr) :
      Hooked P (.event (.callReturn (getBBID bb)) :: .reached fn k :: tr)

theorem Hooked.append {tr tr' : List Label} (h : Hooked P tr) (h' : Hooked P tr') :
    Hooked P (tr ++ tr') := by
  induction h with
  | nil => exact h'
  | entered _ ih => exact .entered ih
  | runtime _ ih => exact .runtime ih
  | callEnter _ ih => exact .callEnter ih
  | branch hblock hbranch hhooks _ ih =>
      rw [List.cons_append, List.append_assoc, List.cons_append]
      exact .branch hblock hbranch hhooks ih
  | returns hblock hret _ ih => exact .returns hblock hret ih

/-! ## Places in an instrumented block -/

/-- How far an instrumented block has come: its terminator's hook is still ahead, or it has been
called and the terminator is a branch or a return. -/
inductive Progress
  | ahead
  | recorded
  | leaving
  deriving DecidableEq, Repr

/-- What is left of an instrumented block. -/
inductive Left (M : Module) (bb : BasicBlock) : Progress → List Instr → Prop
  | walking {suffix} (h : suffix ⊆ bb.body) :
      Left M bb .ahead (walked M (getBBID bb) suffix ++ edgeHook bb ++ invokeHook M bb)
  | calling {i suffix} (hi : i ∈ bb.body) (h : suffix ⊆ bb.body) :
      Left M bb .ahead (i :: (walked M (getBBID bb) suffix ++ edgeHook bb ++ invokeHook M bb))
  | recorded (h : bb.term.op.isBranch = true) : Left M bb .recorded (invokeHook M bb)
  | invoking (h : bb.term.op.isBranch = true) : Left M bb .recorded []
  | leaving (h : bb.term.op = .ret) : Left M bb .leaving []

/-- The next instruction of an instrumented block. -/
inductive LeftCase (M : Module) (bb : BasicBlock) (progress : Progress) (i : Instr)
    (rest : List Instr) : Prop
  | source (hprogress : progress = .ahead) (hi : i ∈ bb.body) (hrest : Left M bb .ahead rest)
  | callEnter {callId} (hi : hookEvent? i.op = some (.callEnter callId (getBBID bb)))
      (hprogress : progress ≠ .leaving) (hrest : Left M bb progress rest)
  | node (hprogress : progress = .ahead)
      (hi : hookEvent? i.op = some (.recordNode (getBBID bb)))
      (hbranch : bb.term.op.isBranch = true) (hrest : Left M bb .recorded rest)
  | leave (hprogress : progress = .ahead)
      (hi : hookEvent? i.op = some (.callReturn (getBBID bb))) (hret : bb.term.op = .ret)
      (hrest : Left M bb .leaving rest)

theorem invokeHook_eq_cons {i : Instr} {rest : List Instr} (h : invokeHook M bb = i :: rest) :
    hookEvent? i.op = some (.callEnter bb.term.addr (getBBID bb)) ∧ rest = [] := by
  unfold invokeHook at h
  split at h
  · rcases List.cons.inj h with ⟨rfl, rfl⟩
    exact ⟨rfl, rfl⟩
  · cases h

/-- A terminator that is neither a branch nor a return is `unreachable`, which is no call. -/
theorem unreachable_of (hbranch : ¬ bb.term.op.isBranch = true) (hret : bb.term.op ≠ .ret) :
    bb.term.op = .unreachable := by
  simpa [TermOpcode.isBranch, hret] using hbranch

theorem edgeHook_branch (h : bb.term.op.isBranch = true) :
    edgeHook bb = [recordNodeCall (getBBID bb)] := by
  rw [edgeHook, if_pos h]

theorem edgeHook_ret (h : bb.term.op = .ret) : edgeHook bb = [callReturnCall (getBBID bb)] := by
  simp [edgeHook, h, TermOpcode.isBranch]

theorem invokeHook_of_no_call (h : bb.term.op.calledFunction = none) : invokeHook M bb = [] := by
  simp [invokeHook, h]

/-- What stands behind the block's own instructions. -/
theorem Left.hooks {i : Instr} {rest : List Instr}
    (h : edgeHook bb ++ invokeHook M bb = i :: rest) : LeftCase M bb .ahead i rest := by
  by_cases hbranch : bb.term.op.isBranch = true
  · rw [edgeHook_branch hbranch] at h
    rcases List.cons.inj h with ⟨rfl, rfl⟩
    exact .node rfl rfl hbranch (.recorded hbranch)
  · by_cases hret : bb.term.op = .ret
    · rw [edgeHook_ret hret, invokeHook_of_no_call (by rw [hret]; rfl)] at h
      rcases List.cons.inj h with ⟨rfl, rfl⟩
      exact .leave rfl rfl hret (.leaving hret)
    · have hunreachable := unreachable_of hbranch hret
      rw [invokeHook_of_no_call (by rw [hunreachable]; rfl)] at h
      simp [edgeHook, hunreachable, TermOpcode.isBranch] at h

theorem Left.cons_cases {progress : Progress} {i : Instr} {rest : List Instr}
    (h : Left M bb progress (i :: rest)) : LeftCase M bb progress i rest := by
  generalize hlist : i :: rest = list at h
  cases h with
  | invoking _ => cases hlist
  | leaving _ => cases hlist
  | calling hi hsuffix =>
      rcases List.cons.inj hlist with ⟨rfl, rfl⟩
      exact .source rfl hi (.walking hsuffix)
  | recorded hbranch =>
      rcases invokeHook_eq_cons hlist.symm with ⟨hevent, rfl⟩
      exact .callEnter hevent (by simp) (.invoking hbranch)
  | @walking suffix hsuffix =>
      cases suffix with
      | nil =>
          rw [walked, List.flatMap_nil, List.nil_append] at hlist
          exact Left.hooks hlist.symm
      | cons j suffix =>
          have hj : j ∈ bb.body := hsuffix List.mem_cons_self
          have hsub : suffix ⊆ bb.body := fun x hx => hsuffix (List.mem_cons_of_mem _ hx)
          rw [walked, List.flatMap_cons, ← walked] at hlist
          -- A call that is instrumented has its hook in front of it.
          by_cases hcall : isInstrumentedCall M j.op.calledFunction = true
          · rw [if_pos hcall] at hlist
            rcases List.cons.inj hlist with ⟨rfl, rfl⟩
            exact .callEnter rfl (by simp) (.calling hj hsub)
          · rw [if_neg hcall] at hlist
            rcases List.cons.inj hlist with ⟨rfl, rfl⟩
            exact .source rfl hj (.walking hsub)

/-- At the end of a block whose terminator can be executed its hook has been called. -/
theorem Left.nil_cases {progress : Progress} (h : Left M bb progress [])
    (hterm : bb.term.op ≠ .unreachable) : progress ≠ .ahead := by
  generalize hlist : ([] : List Instr) = list at h
  cases h with
  | calling _ _ => cases hlist
  | recorded _ => simp
  | invoking _ => simp
  | leaving _ => simp
  | walking hsuffix =>
      exfalso
      have hedge : edgeHook bb = [] :=
        (List.append_eq_nil_iff.1 (List.append_eq_nil_iff.1 hlist.symm).1).2
      by_cases hbranch : bb.term.op.isBranch = true
      · rw [edgeHook_branch hbranch] at hedge
        cases hedge
      · by_cases hret : bb.term.op = .ret
        · rw [edgeHook_ret hret] at hedge
          cases hedge
        · exact hterm (unreachable_of hbranch hret)

/-! ## Runs of the instrumented program -/

variable (P) in
/-- The trace from a place in a block: behind the hook of the terminator the terminator comes. -/
def Meets (fn : String) (k : Nat) : Progress → List Label → Prop
  | .ahead, tr => Hooked P tr
  | .recorded, tr => ∃ hooks tr', OnlyEnters hooks ∧ Hooked P tr' ∧
      tr = hooks ++ .reached fn k :: tr'
  | .leaving, tr => ∃ tr', Hooked P tr' ∧ tr = .reached fn k :: tr'

/-- What a trace that breaks off may owe: the terminator whose hook has been called. -/
def Announced (tail : List Label) : Prop := tail = [] ∨ ∃ fn k, tail = [.reached fn k]

section Completed

variable {tails : List Label → Prop}

variable (P) in
/-- The trace has the shape when one of these tails is added to it. -/
def HookedUpTo (tails : List Label → Prop) (tr : List Label) : Prop :=
  ∃ tail, tails tail ∧ Hooked P (tr ++ tail)

theorem HookedUpTo.entered {fn : String} {k : Nat} {tr : List Label}
    (h : HookedUpTo P tails tr) : HookedUpTo P tails (.entered fn k :: tr) := by
  rcases h with ⟨tail, htail, htr⟩
  exact ⟨tail, htail, .entered htr⟩

theorem HookedUpTo.runtime {name : String} {tr : List Label} (h : HookedUpTo P tails tr) :
    HookedUpTo P tails (.runtime name :: tr) := by
  rcases h with ⟨tail, htail, htr⟩
  exact ⟨tail, htail, .runtime htr⟩

theorem HookedUpTo.behind {tr tr' : List Label} (h : Hooked P tr)
    (h' : HookedUpTo P tails tr') : HookedUpTo P tails (tr ++ tr') := by
  rcases h' with ⟨tail, htail, htr'⟩
  exact ⟨tail, htail, by rw [List.append_assoc]; exact h.append htr'⟩

variable (P) in
/-- What the induction shows of a run from some place. -/
def MeetsAll (tails : List Label → Prop) (F' : Function) (k : Nat) (rest : List Instr)
    (t : Terminator) (tr : List Label) : Prop :=
  ∀ M F bb, Place P F' k M F bb → t = bb.term → ∀ progress, Left M bb progress rest →
    ∃ tail, tails tail ∧ Meets P F'.name k progress (tr ++ tail)

/-- From the entry of a block. -/
theorem MeetsAll.block {F F' : Function} (h : Instruments P M F F') {k : Nat} {bb' : BasicBlock}
    (hblock : F'.blocks[k]? = some bb') {tr : List Label}
    (hmeets : MeetsAll P tails F' k bb'.body bb'.term tr) : HookedUpTo P tails tr := by
  rcases h.block hblock with ⟨bb, hbb, rfl⟩
  exact hmeets M F bb ⟨h, hbb⟩ rfl .ahead (.walking (List.Subset.refl _))

theorem MeetsAll.entry {callee : Option String} {G : Function}
    (h : P.instrumented.calls callee = .enters G) {bb' : BasicBlock}
    (hentry : G.blocks[0]? = some bb') {tr : List Label}
    (hmeets : MeetsAll P tails G 0 bb'.body bb'.term tr) : HookedUpTo P tails tr := by
  rcases enters_instrumented h with ⟨M, F, hG⟩
  exact hmeets.block hG hentry

/-- An instruction of the source, which is no hook. -/
theorem MeetsAll.source {F' : Function} {k : Nat} {i : Instr}
    {rest : List Instr} {t : Terminator} {tr : List Label} (hnone : hookEvent? i.op = none)
    (h : ∀ M F bb, Place P F' k M F bb → t = bb.term → Left M bb .ahead rest →
      HookedUpTo P tails tr) :
    MeetsAll P tails F' k (i :: rest) t tr := by
  intro M F bb hplace ht progress hleft
  cases hleft.cons_cases with
  | source hprogress hi hrest =>
      subst hprogress
      exact h M F bb hplace ht hrest
  | callEnter hi _ _ => simp [hnone] at hi
  | node _ hi _ _ => simp [hnone] at hi
  | leave _ hi _ _ => simp [hnone] at hi

/-- A hook. -/
theorem MeetsAll.hook (hfree : HookFree P) {F' : Function} {k : Nat} {i : Instr}
    {rest : List Instr} {t : Terminator} {tr : List Label} {e : Event}
    (hevent : hookEvent? i.op = some e) (h : MeetsAll P tails F' k rest t tr) :
    MeetsAll P tails F' k (i :: rest) t (.event e :: tr) := by
  intro M F bb hplace ht progress hleft
  cases hleft.cons_cases with
  | source _ hi _ =>
      rcases mem_of_resolve hplace.source with ⟨hM, hF, _⟩
      rw [hfree M hM F hF bb (List.mem_of_getElem? hplace.source_block) i hi] at hevent
      cases hevent
  | @callEnter callId hi hprogress hrest =>
      obtain rfl := Option.some.inj (hi.symm.trans hevent)
      -- A hook of a call may also stand between `record_node` and an `invoke`.
      rcases h M F bb hplace ht progress hrest with ⟨tail, htail, hmeets⟩
      refine ⟨tail, htail, ?_⟩
      cases progress with
      | leaving => exact absurd rfl hprogress
      | ahead => exact .callEnter hmeets
      | recorded =>
          rcases hmeets with ⟨hooks, tr', hhooks, htr', heq⟩
          refine ⟨.event (.callEnter callId (getBBID bb)) :: hooks, tr', fun l hl => ?_, htr', ?_⟩
          · rcases List.mem_cons.1 hl with rfl | hl
            · exact ⟨callId, getBBID bb, rfl⟩
            · exact hhooks l hl
          · rw [List.cons_append, heq, List.cons_append]
  | node hprogress hi hbranch hrest =>
      subst hprogress
      obtain rfl := Option.some.inj (hi.symm.trans hevent)
      rcases h M F bb hplace ht _ hrest with ⟨tail, htail, hooks, tr', hhooks, htr', heq⟩
      refine ⟨tail, htail, ?_⟩
      rw [List.cons_append, heq]
      exact .branch hplace.block? hbranch hhooks htr'
  | leave hprogress hi hret hrest =>
      subst hprogress
      obtain rfl := Option.some.inj (hi.symm.trans hevent)
      rcases h M F bb hplace ht _ hrest with ⟨tail, htail, tr', htr', heq⟩
      refine ⟨tail, htail, ?_⟩
      rw [List.cons_append, heq]
      exact .returns hplace.block? hret htr'

/-- A terminator that is executed. -/
theorem MeetsAll.term {F' : Function} {k : Nat} {t : Terminator} {tr : List Label}
    (hterm : t.op ≠ .unreachable)
    (h : ∀ M F, Instruments P M F F' → HookedUpTo P tails tr) :
    MeetsAll P tails F' k [] t (.reached F'.name k :: tr) := by
  intro M F bb hplace ht progress hleft
  subst ht
  rcases h M F hplace.toInstruments with ⟨tail, htail, htr⟩
  refine ⟨tail, htail, ?_⟩
  cases progress with
  | ahead => exact absurd rfl (hleft.nil_cases hterm)
  | recorded => exact ⟨[], tr ++ tail, (fun _ hl => by cases hl), htr, rfl⟩
  | leaving => exact ⟨tr ++ tail, htr, rfl⟩

end Completed

/-- A run that stops here owes the terminator whose hook it has called. -/
theorem MeetsAll.stops {F' : Function} {k : Nat} {rest : List Instr} {t : Terminator} :
    MeetsAll P Announced F' k rest t [] := by
  intro M F bb hplace ht progress hleft
  cases progress with
  | ahead => exact ⟨[], .inl rfl, .nil⟩
  | recorded =>
      exact ⟨[.reached F'.name k], .inr ⟨_, _, rfl⟩, [], [], (fun _ hl => by cases hl), .nil, rfl⟩
  | leaving => exact ⟨[.reached F'.name k], .inr ⟨_, _, rfl⟩, [], .nil, rfl⟩

theorem ne_unreachable_of_mem {op : TermOpcode} {k : Nat} (h : k ∈ op.successors) :
    op ≠ .unreachable := by
  rintro rfl
  cases h

/-- An instruction that enters a function is a call, and no hook. -/
theorem calls_of_effect_enters {i : Instr} {G : Function} (h : P.effect i = .enters G) :
    hookEvent? i.op = none ∧ P.calls i.op.calledFunction = .enters G := by
  have hnone := hookEvent?_eq_none h (by simp)
  rw [Program.effect, hnone] at h
  exact ⟨hnone, h⟩

/-! ## Finished runs -/

/-- A finished run owes nothing. -/
theorem HookedUpTo.hooked {tr : List Label} (h : HookedUpTo P (· = []) tr) : Hooked P tr := by
  rcases h with ⟨_, rfl, htr⟩
  rwa [List.append_nil] at htr

theorem HookedUpTo.nil : HookedUpTo P (· = []) [] := ⟨[], rfl, .nil⟩

/-- The induction over finished runs. -/
theorem meets_of_runs (hfree : HookFree P) {F' : Function} {k : Nat} {rest : List Instr}
    {t : Terminator} {tr : List Label} {out : Outcome}
    (h : Runs P.instrumented F' k rest t tr out) : MeetsAll P (· = []) F' k rest t tr := by
  induction h with
  | silent h hrest ih =>
      exact .source (hookEvent?_eq_none h (by simp)) fun M F bb hplace ht hleft =>
        ih M F bb hplace ht .ahead hleft
  | throws h hcall =>
      exact .source (hookEvent?_eq_none h (by simp)) fun _ _ _ _ _ _ => .nil
  | hook h hrest ih => exact .hook hfree (hookEvent?_eq_some h) ih
  | runtime h hrest ih =>
      exact .source (hookEvent?_eq_none h (by simp)) fun M F bb hplace ht hleft =>
        .runtime (ih M F bb hplace ht .ahead hleft)
  | call h hentry hcall hrest ihcall ihrest =>
      rcases calls_of_effect_enters h with ⟨hnone, hG⟩
      exact .source hnone fun M F bb hplace ht hleft =>
        .entered (.behind (ihcall.entry hG hentry).hooked (ihrest M F bb hplace ht .ahead hleft))
  | callThrows h hentry hcall ih =>
      rcases calls_of_effect_enters h with ⟨hnone, hG⟩
      exact .source hnone fun _ _ _ _ _ _ => .entered (ih.entry hG hentry)
  | ret h => exact .term (by rw [h]; simp) fun _ _ _ => .nil
  | leaves h =>
      refine .term (fun hunreachable => ?_) fun _ _ _ => .nil
      rw [hunreachable] at h
      cases h
  | jump h hdest hblock hrest ih =>
      exact .term (ne_unreachable_of_mem hdest) fun M F hF => .entered (ih.block hF hblock)
  | jumpRuntime h hdest hblock hrest ih =>
      exact .term (ne_unreachable_of_mem hdest) fun M F hF =>
        .runtime (.entered (ih.block hF hblock))
  | invoke ht h hentry hcall hblock hrest ihcall ihrest =>
      refine .term (by rw [ht]; simp) fun M F hF => ?_
      exact .entered (.behind (ihcall.entry h hentry).hooked (.entered (ihrest.block hF hblock)))
  | invokeThrows ht h hentry hcall hblock hrest ihcall ihrest =>
      refine .term (by rw [ht]; simp) fun M F hF => ?_
      exact .entered (.behind (ihcall.entry h hentry).hooked (.entered (ihrest.block hF hblock)))

/-! ## Runs up to some point -/

/-- The finished activation of a called function. -/
theorem hooked_of_entry (hfree : HookFree P) {callee : Option String} {G : Function}
    (h : P.instrumented.calls callee = .enters G) {bb' : BasicBlock}
    (hentry : G.blocks[0]? = some bb') {tr : List Label} {out : Outcome}
    (hcall : Runs P.instrumented G 0 bb'.body bb'.term tr out) : Hooked P tr :=
  ((meets_of_runs hfree hcall).entry h hentry).hooked

/-- The induction over runs that may be cut: only the innermost activation can owe a terminator. -/
theorem meets_of_begins (hfree : HookFree P) {F' : Function} {k : Nat} {rest : List Instr}
    {t : Terminator} {tr : List Label} (h : Begins P.instrumented F' k rest t tr) :
    MeetsAll P Announced F' k rest t tr := by
  induction h with
  | stops => exact .stops
  | ends h =>
      intro M F bb hplace ht progress hleft
      rcases meets_of_runs hfree h M F bb hplace ht progress hleft with ⟨_, rfl, hmeets⟩
      exact ⟨[], .inl rfl, hmeets⟩
  | silent h hrest ih =>
      exact .source (hookEvent?_eq_none h (by simp)) fun M F bb hplace ht hleft =>
        ih M F bb hplace ht .ahead hleft
  | hook h hrest ih => exact .hook hfree (hookEvent?_eq_some h) ih
  | runtime h hrest ih =>
      exact .source (hookEvent?_eq_none h (by simp)) fun M F bb hplace ht hleft =>
        .runtime (ih M F bb hplace ht .ahead hleft)
  | call h hentry hcall hrest ih =>
      rcases calls_of_effect_enters h with ⟨hnone, hG⟩
      exact .source hnone fun M F bb hplace ht hleft =>
        .entered (.behind (hooked_of_entry hfree hG hentry hcall)
          (ih M F bb hplace ht .ahead hleft))
  | inside h hentry hcall ih =>
      rcases calls_of_effect_enters h with ⟨hnone, hG⟩
      exact .source hnone fun _ _ _ _ _ _ => .entered (ih.entry hG hentry)
  | jump h hdest hblock hrest ih =>
      exact .term (ne_unreachable_of_mem hdest) fun M F hF => .entered (ih.block hF hblock)
  | jumpRuntime h hdest hblock hrest ih =>
      exact .term (ne_unreachable_of_mem hdest) fun M F hF =>
        .runtime (.entered (ih.block hF hblock))
  | invoke ht h hentry hcall hblock hrest ih =>
      refine .term (by rw [ht]; simp) fun M F hF => ?_
      exact .entered (.behind (hooked_of_entry hfree h hentry hcall)
        (.entered (ih.block hF hblock)))
  | invokeThrows ht h hentry hcall hblock hrest ih =>
      refine .term (by rw [ht]; simp) fun M F hF => ?_
      exact .entered (.behind (hooked_of_entry hfree h hentry hcall)
        (.entered (ih.block hF hblock)))
  | invokeInside ht h hentry hcall ih =>
      refine .term (by rw [ht]; simp) fun M F hF => ?_
      exact .entered (ih.entry h hentry)

/-! ## Runs of a function -/

theorem MeetsAll.function {tails : List Label → Prop} {fn : String} (hfn : isRuntime fn = false)
    {M' : Module} {F' : Function} (hresolve : P.instrumented.resolve fn = some (M', F'))
    {bb' : BasicBlock} (hentry : F'.blocks[0]? = some bb') {tr : List Label}
    (hmeets : MeetsAll P tails F' 0 bb'.body bb'.term tr) :
    HookedUpTo P tails (.entered fn 0 :: tr) := by
  rw [resolve_instrumented] at hresolve
  rcases Option.map_eq_some_iff.1 hresolve with ⟨⟨M, F⟩, hsource, heq⟩
  rcases Prod.mk.inj heq with ⟨_, rfl⟩
  rcases mem_of_resolve hsource with ⟨_, _, rfl⟩
  exact .entered (hmeets.block ⟨hsource, hfn, rfl⟩ hentry)

/-- A run, wherever it stands, has the shape up to the terminator that its last hook announces. -/
theorem hooked_of_starts (hfree : HookFree P) {fn : String} (hfn : isRuntime fn = false)
    {tr : List Label} (h : Starts P.instrumented fn tr) : HookedUpTo P Announced tr := by
  rcases h with ⟨M', F', bb', tr', hresolve, hentry, hbegins, rfl⟩
  exact (meets_of_begins hfree hbegins).function hfn hresolve hentry

end Pass
end CFlat
