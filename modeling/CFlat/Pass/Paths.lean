import CFlat.Pass.Execution
import CFlat.SecureWorld.Chain

/-!
# Paths — what the final hash tells of the blocks that were run

An instrumented program records a block right before its terminator, unless that is a return: the
hook of a return carries the block's id, but the trusted application does not hash it.  So the
final hash of an execution determines the blocks that were run to a branch, in the order in which
their terminators were executed (`same_hash_iff_same_branches`), and not the returning blocks
(`returning_blocks_not_determined`).
-/

namespace CFlat
namespace Pass

open Lib

/-! ## The instrumented program -/

/-- No instruction of the program calls a hook. -/
def HookFree (P : Program) : Prop :=
  ∀ M ∈ P, ∀ F ∈ M.functions, ∀ bb ∈ F.blocks, ∀ i ∈ bb.body, hookEvent? i.op = none

variable {P : Program}

theorem mem_of_resolve {name : String} {M : Module} {F : Function}
    (h : P.resolve name = some (M, F)) : M ∈ P ∧ F ∈ M.functions ∧ F.name = name := by
  rcases List.mem_flatMap.1 (List.mem_of_find?_eq_some h) with ⟨M', hM', hF⟩
  rcases List.mem_map.1 hF with ⟨F', hF', heq⟩
  rcases Prod.mk.inj heq with ⟨rfl, rfl⟩
  have hdefines := List.find?_some h
  simp only [Program.defines, Bool.and_eq_true, beq_iff_eq] at hdefines
  exact ⟨hM', hF', hdefines.1⟩

/-- A function and its module, instrumented. -/
def runEntry (entry : Module × Function) : Module × Function :=
  (runModule entry.1, (run entry.1 entry.2).1)

/-- A name stands for the instrumented form of what it stood for. -/
theorem resolve_instrumented (P : Program) (name : String) :
    P.instrumented.resolve name = (P.resolve name).map runEntry := by
  have hfunctions : P.instrumented.functions = P.functions.map runEntry := by
    simp [Program.functions, Program.instrumented, List.flatMap_map, List.map_flatMap, runModule,
      runEntry, Function.comp_def]
  have hdefines : Program.defines name ∘ runEntry = Program.defines name := by
    funext entry
    simp [Program.defines, runEntry, name_run, isDeclaration_run]
  rw [Program.resolve, hfunctions, List.find?_map, hdefines]
  rfl

/-- `F'` is what the pass makes of the function `F` of the program, which it does not skip. -/
structure Instruments (P : Program) (M : Module) (F F' : Function) : Prop where
  source : P.resolve F.name = some (M, F)
  instrumented : isRuntime F.name = false
  target : F' = (run M F).1

theorem Instruments.block {M : Module} {F F' : Function} (h : Instruments P M F F') {k : Nat}
    {bb' : BasicBlock} (hblock : F'.blocks[k]? = some bb') :
    ∃ bb, F.blocks[k]? = some bb ∧ bb' = instrumentedBlock M bb := by
  rw [h.target, run_fst M h.instrumented, List.getElem?_map] at hblock
  rcases Option.map_eq_some_iff.1 hblock with ⟨bb, hbb, rfl⟩
  exact ⟨bb, hbb, rfl⟩

/-- A call that enters a function of the instrumented program enters an instrumented one. -/
theorem enters_instrumented {callee : Option String} {G : Function}
    (h : P.instrumented.calls callee = .enters G) : ∃ M F, Instruments P M F G := by
  cases callee with
  | none => cases h
  | some name =>
      simp only [Program.calls] at h
      split at h
      · cases h
      · rename_i hruntime
        rw [resolve_instrumented] at h
        cases hresolve : P.resolve name with
        | none =>
            rw [hresolve] at h
            cases h
        | some entry =>
            rcases entry with ⟨M, F⟩
            rw [hresolve] at h
            -- The name stands for a definition outside the runtime, which the pass instruments.
            rcases mem_of_resolve hresolve with ⟨_, _, rfl⟩
            simp only [Option.map_some, Effect.enters.injEq] at h
            exact ⟨M, F, hresolve, by simpa using hruntime, h.symm⟩

theorem hookEvent?_eq_none {i : Instr} {x : Effect} (h : P.effect i = x) (hx : ∀ e, x ≠ .hook e) :
    hookEvent? i.op = none := by
  cases hevent : hookEvent? i.op with
  | none => rfl
  | some e => exact absurd (h.symm.trans (by simp [Program.effect, hevent])) (hx e)

theorem hookEvent?_eq_some {i : Instr} {e : Event} (h : P.effect i = .hook e) :
    hookEvent? i.op = some e := by
  cases hevent : hookEvent? i.op with
  | some e' =>
      rw [Program.effect, hevent] at h
      exact congrArg some (Effect.hook.inj h)
  | none =>
      simp only [Program.effect, hevent, Program.calls] at h
      split at h
      · cases h
      · split at h
        · cases h
        · split at h <;> cases h

/-! ## Measured ids -/

/-- What the execution of a block's terminator owes to the hash. -/
def BasicBlock.due (bb : BasicBlock) : List UInt64 :=
  if bb.term.op.isBranch then [getBBID bb] else []

/-- The ids that the blocks reached in a trace owe to the hash. -/
def dueIds (P : Program) (tr : List Label) : List UInt64 :=
  (blocksReached tr).flatMap fun place => ((P.block? place.1 place.2).map BasicBlock.due).getD []

/-- The ids recorded in a trace. -/
def recordedIds (tr : List Label) : List UInt64 := (traceEvents tr).filterMap Event.node?

section Traces

variable (tr tr' : List Label)

@[simp] theorem recordedIds_append :
    recordedIds (tr ++ tr') = recordedIds tr ++ recordedIds tr' := by
  simp [recordedIds, traceEvents]

@[simp] theorem recordedIds_event (e : Event) :
    recordedIds (.event e :: tr) = e.node?.toList ++ recordedIds tr := by
  simp only [recordedIds, traceEvents, List.filterMap_cons]
  cases e.node? <;> rfl

@[simp] theorem recordedIds_reached (fn : String) (k : Nat) :
    recordedIds (.reached fn k :: tr) = recordedIds tr := rfl

@[simp] theorem dueIds_append : dueIds P (tr ++ tr') = dueIds P tr ++ dueIds P tr' := by
  simp [dueIds, blocksReached]

@[simp] theorem dueIds_event (e : Event) : dueIds P (.event e :: tr) = dueIds P tr := rfl

theorem dueIds_reached {fn : String} {k : Nat} {bb : BasicBlock} (h : P.block? fn k = some bb) :
    dueIds P (.reached fn k :: tr) = bb.due ++ dueIds P tr := by
  simp [dueIds, blocksReached, h]

end Traces

/-! ## Blocks of the instrumented program -/

/-- The instruction calls no hook but those of the call stack. -/
def Quiet (i : Instr) : Prop := ∀ e, hookEvent? i.op = some e → e.isCall = true

/-- No loop is entered or left. -/
def LoopFree (tr : List Label) : Prop := ∀ e ∈ traceEvents tr, e.isBracket = false

variable (P) in
/-- The trace records what it owes. -/
structure Balanced (tr : List Label) : Prop where
  ids : recordedIds tr = dueIds P tr
  loopFree : LoopFree tr

variable (P) in
/-- What the rest of an instrumented block records: with its `record_node` still to come it is
balanced, and after that hook only the terminator is owing. -/
structure Owes (bb : BasicBlock) (rest : List Instr) (tr : List Label) : Prop where
  loopFree : (∀ i ∈ rest, Quiet i ∨ i = recordNodeCall (getBBID bb)) → LoopFree tr
  before : ∀ pre post, bb.term.op.isBranch = true →
    rest = pre ++ recordNodeCall (getBBID bb) :: post → (∀ i ∈ pre, Quiet i) →
    (∀ i ∈ post, Quiet i ∧ hookEvent? i.op ≠ none) → recordedIds tr = dueIds P tr
  after : (∀ i ∈ rest, Quiet i) →
    (bb.term.op.isBranch = true → ∀ i ∈ rest, hookEvent? i.op ≠ none) →
    dueIds P tr = bb.due ++ recordedIds tr

theorem LoopFree.append {tr tr' : List Label} (h : LoopFree tr) (h' : LoopFree tr') :
    LoopFree (tr ++ tr') := by
  intro e he
  rw [traceEvents, List.filterMap_append] at he
  rcases List.mem_append.1 he with he | he
  · exact h e he
  · exact h' e he

theorem Balanced.append {tr tr' : List Label} (h : Balanced P tr) (h' : Balanced P tr') :
    Balanced P (tr ++ tr') :=
  ⟨by rw [recordedIds_append, dueIds_append, h.ids, h'.ids], h.loopFree.append h'.loopFree⟩

theorem due_of_not_isBranch {bb : BasicBlock} (h : ¬ bb.term.op.isBranch = true) : bb.due = [] := by
  simp [BasicBlock.due, h]

/-- An instruction that is no hook, with what it emits. -/
theorem Owes.cons_plain {bb : BasicBlock} {i : Instr} {rest : List Instr} {out tr : List Label}
    (hi : hookEvent? i.op = none) (hout : Balanced P out) (h : Owes P bb rest tr) :
    Owes P bb (i :: rest) (out ++ tr) where
  loopFree := fun hrest => hout.loopFree.append (h.loopFree fun i hi => hrest i (by simp [hi]))
  before := by
    intro pre post hbranch hrest hpre hpost
    cases pre with
    | nil =>
        rcases List.cons.inj hrest with ⟨rfl, _⟩
        cases hi
    | cons i' pre =>
        have hbalanced := h.before pre post hbranch (List.cons.inj hrest).2
          (fun i hi => hpre i (by simp [hi])) hpost
        rw [recordedIds_append, dueIds_append, hout.ids, hbalanced]
  after := by
    intro hquiet hhooks
    -- Behind the `record_node` of a branch only hooks remain, and this is none.
    have hbranch : ¬ bb.term.op.isBranch = true := fun hb => hhooks hb i (by simp) hi
    have hafter := h.after (fun i hi => hquiet i (by simp [hi])) (fun hb => absurd hb hbranch)
    rw [due_of_not_isBranch hbranch, List.nil_append] at hafter ⊢
    rw [recordedIds_append, dueIds_append, hout.ids, hafter]

/-- An instruction that ends the activation. -/
theorem Owes.cut {bb : BasicBlock} {i : Instr} {rest : List Instr} {out : List Label}
    (hi : hookEvent? i.op = none) (hout : Balanced P out) : Owes P bb (i :: rest) out where
  loopFree := fun _ => hout.loopFree
  before := fun _ _ _ _ _ _ => hout.ids
  after := by
    intro hquiet hhooks
    have hbranch : ¬ bb.term.op.isBranch = true := fun hb => hhooks hb i (by simp) hi
    rw [due_of_not_isBranch hbranch, List.nil_append]
    exact hout.ids.symm

/-- A hook. -/
theorem Owes.cons_hook {bb : BasicBlock} {i : Instr} {rest : List Instr} {e : Event}
    {tr : List Label} (hi : hookEvent? i.op = some e) (h : Owes P bb rest tr) :
    Owes P bb (i :: rest) (.event e :: tr) where
  loopFree := by
    intro hrest e' he'
    rcases List.mem_cons.1 he' with rfl | he'
    · rcases hrest i (by simp) with hquiet | rfl
      · exact Event.isBracket_of_isCall (hquiet e' hi)
      · obtain rfl : Event.recordNode (getBBID bb) = e' := Option.some.inj hi
        rfl
    · exact h.loopFree (fun i hi => hrest i (by simp [hi])) e' he'
  before := by
    intro pre post hbranch hrest hpre hpost
    cases pre with
    | nil =>
        -- The block's own `record_node`: from here on the terminator is owing.
        rcases List.cons.inj hrest with ⟨rfl, rfl⟩
        obtain rfl : Event.recordNode (getBBID bb) = e := Option.some.inj hi
        have hafter := h.after (fun i hi => (hpost i hi).1) (fun _ i hi => (hpost i hi).2)
        rw [recordedIds_event, dueIds_event, hafter, BasicBlock.due, if_pos hbranch]
        rfl
    | cons i' pre =>
        rcases List.cons.inj hrest with ⟨rfl, htail⟩
        have hnode : e.node? = none := Event.node?_of_isCall (hpre i (by simp) e hi)
        have hbalanced := h.before pre post hbranch htail (fun i hi => hpre i (by simp [hi])) hpost
        rw [recordedIds_event, hnode, dueIds_event]
        exact hbalanced
  after := by
    intro hquiet hhooks
    have hnode : e.node? = none := Event.node?_of_isCall (hquiet i (by simp) e hi)
    have hafter := h.after (fun i hi => hquiet i (by simp [hi]))
      (fun hb i hi => hhooks hb i (by simp [hi]))
    rw [dueIds_event, recordedIds_event, hnode, hafter]
    rfl

/-- The terminator, with what comes after it. -/
theorem Owes.term {bb : BasicBlock} {fn : String} {k : Nat} {tr : List Label}
    (hbb : P.block? fn k = some bb) (htr : Balanced P tr) :
    Owes P bb [] (.reached fn k :: tr) where
  loopFree := fun _ => htr.loopFree
  before := by
    intro pre post hbranch hrest
    simp at hrest
  after := by
    intro _ _
    rw [dueIds_reached tr hbb, recordedIds_reached, htr.ids]

theorem quiet_walked (M : Module) (bbID : UInt64) {body : List Instr}
    (hbody : ∀ i ∈ body, hookEvent? i.op = none) : ∀ i ∈ walked M bbID body, Quiet i := by
  intro i hi e he
  rcases List.mem_flatMap.1 hi with ⟨source, hsource, hmem⟩
  have hnone := hbody source hsource
  split at hmem
  · rcases List.mem_cons.1 hmem with rfl | hmem
    · obtain rfl : Event.callEnter source.addr bbID = e := Option.some.inj he
      rfl
    · rw [List.mem_singleton.1 hmem, hnone] at he
      cases he
  · rw [List.mem_singleton.1 hmem, hnone] at he
    cases he

theorem quiet_invokeHook (M : Module) (bb : BasicBlock) :
    ∀ i ∈ invokeHook M bb, Quiet i ∧ hookEvent? i.op ≠ none := by
  intro i hi
  simp only [invokeHook] at hi
  split at hi
  · rcases List.mem_singleton.1 hi with rfl
    refine ⟨?_, fun hnone => by cases hnone⟩
    intro e he
    obtain rfl : Event.callEnter bb.term.addr (getBBID bb) = e := Option.some.inj he
    rfl
  · cases hi

theorem quiet_edgeHook {bb : BasicBlock} (h : ¬ bb.term.op.isBranch = true) :
    ∀ i ∈ edgeHook bb, Quiet i := by
  intro i hi
  simp only [edgeHook, h, Bool.false_eq_true, if_false] at hi
  split at hi
  · rcases List.mem_singleton.1 hi with rfl
    intro e he
    obtain rfl : Event.callReturn (getBBID bb) = e := Option.some.inj he
    rfl
  · cases hi

/-- A whole instrumented block is balanced. -/
theorem Owes.balanced {M : Module} {bb : BasicBlock} {tr : List Label}
    (hbody : ∀ i ∈ bb.body, hookEvent? i.op = none)
    (h : Owes P bb (instrumentedBlock M bb).body tr) : Balanced P tr := by
  have hwalked := quiet_walked M (getBBID bb) hbody
  have hinvoke := quiet_invokeHook M bb
  by_cases hbranch : bb.term.op.isBranch = true
  · have hblock : (instrumentedBlock M bb).body =
        walked M (getBBID bb) bb.body ++ recordNodeCall (getBBID bb) :: invokeHook M bb := by
      simp [instrumentedBlock, edgeHook, hbranch]
    -- A branch: its `record_node` stands between the body and the hook of an `invoke`.
    refine ⟨h.before _ _ hbranch hblock hwalked hinvoke, h.loopFree ?_⟩
    intro i hi
    rw [hblock, List.mem_append, List.mem_cons] at hi
    rcases hi with hi | rfl | hi
    · exact .inl (hwalked i hi)
    · exact .inr rfl
    · exact .inl (hinvoke i hi).1
  · have hquiet : ∀ i ∈ (instrumentedBlock M bb).body, Quiet i := by
      intro i hi
      simp only [instrumentedBlock, List.mem_append] at hi
      rcases hi with (hi | hi) | hi
      · exact hwalked i hi
      · exact quiet_edgeHook hbranch i hi
      · exact (hinvoke i hi).1
    have hafter := h.after hquiet (fun hb => absurd hb hbranch)
    rw [due_of_not_isBranch hbranch, List.nil_append] at hafter
    -- A return or `unreachable` owes nothing, and nothing is recorded for it.
    exact ⟨hafter.symm, h.loopFree fun i hi => .inl (hquiet i hi)⟩

/-! ## Runs of the instrumented program -/

variable (P) in
/-- A place in the instrumented program: the block `bb` of `F` that block `k` of `F'` comes from. -/
structure Place (F' : Function) (k : Nat) (M : Module) (F : Function) (bb : BasicBlock) : Prop
    extends Instruments P M F F' where
  source_block : F.blocks[k]? = some bb

theorem Place.block? {F' F : Function} {k : Nat} {M : Module} {bb : BasicBlock}
    (h : Place P F' k M F bb) : P.block? F'.name k = some bb := by
  rw [h.target, name_run, Program.block?, h.source]
  exact h.source_block

/-- What a run from the start of a block records, given what it records from any of its places. -/
theorem balanced_block (hfree : HookFree P) {M : Module} {F F' : Function}
    (h : Instruments P M F F') {k : Nat} {bb' : BasicBlock} (hblock : F'.blocks[k]? = some bb')
    {tr : List Label}
    (howes : ∀ M F bb, Place P F' k M F bb → Owes P bb bb'.body tr) :
    Balanced P tr := by
  rcases h.block hblock with ⟨bb, hbb, rfl⟩
  rcases mem_of_resolve h.source with ⟨hM, hF, _⟩
  exact (howes M F bb ⟨h, hbb⟩).balanced
    (hfree M hM F hF bb (List.mem_of_getElem? hbb))

/-- The induction over runs: one case for each thing that an activation can do next. -/
theorem runs_owes (hfree : HookFree P) {F' : Function} {k : Nat} {rest : List Instr}
    {t : Terminator} {tr : List Label} {out : Outcome}
    (h : Runs P.instrumented F' k rest t tr out) :
    ∀ M F bb, Place P F' k M F bb → Owes P bb rest tr := by
  have hnil : Balanced P [] := ⟨rfl, fun _ he => by cases he⟩
  have hentered : ∀ (fn : String) (k : Nat) {tr : List Label}, Balanced P tr →
      Balanced P (.entered fn k :: tr) := fun _ _ _ h => ⟨h.ids, h.loopFree⟩
  induction h with
  | silent h hrest ih =>
      intro M F bb hplace
      exact .cons_plain (hookEvent?_eq_none h (fun _ => nofun)) hnil (ih M F bb hplace)
  | throws h hcall =>
      intro M F bb hplace
      exact .cut (hookEvent?_eq_none h (fun _ => nofun)) hnil
  | hook h hrest ih =>
      intro M F bb hplace
      exact .cons_hook (hookEvent?_eq_some h) (ih M F bb hplace)
  | @runtime F' k i rest t name tr out h hrest ih =>
      intro M F bb hplace
      have hruntime : Balanced P [.runtime name] := ⟨rfl, hnil.loopFree⟩
      exact .cons_plain (hookEvent?_eq_none h (fun _ => nofun)) hruntime (ih M F bb hplace)
  | @call F' k i rest t G bb' tr₁ tr₂ out h hentry hcall hrest ihcall ihrest =>
      intro M F bb hplace
      have hnone := hookEvent?_eq_none h (fun _ => nofun)
      rw [Program.effect, hnone] at h
      rcases enters_instrumented h with ⟨M₀, F₀, hG⟩
      -- The callee is balanced on its own.
      exact .cons_plain hnone (hentered G.name 0 (balanced_block hfree hG hentry ihcall))
        (ihrest M F bb hplace)
  | @callThrows F' k i rest t G bb' tr h hentry hcall ih =>
      intro M F bb hplace
      have hnone := hookEvent?_eq_none h (fun _ => nofun)
      rw [Program.effect, hnone] at h
      rcases enters_instrumented h with ⟨M₀, F₀, hG⟩
      exact .cut hnone (hentered G.name 0 (balanced_block hfree hG hentry ih))
  | ret h =>
      intro M F bb hplace
      exact .term hplace.block? hnil
  | leaves h =>
      intro M F bb hplace
      exact .term hplace.block? hnil
  | jump h hdest hblock hrest ih =>
      intro M F bb hplace
      exact .term hplace.block?
        (hentered _ _ (balanced_block hfree hplace.toInstruments hblock ih))
  | @jumpRuntime F' k t name k' bb' tr out h hdest hblock hrest ih =>
      intro M F bb hplace
      have hafter := balanced_block hfree hplace.toInstruments hblock ih
      exact .term hplace.block? ⟨hafter.ids, hafter.loopFree⟩
  | @invoke F' k t callee normal unwind G bb₁ bb₂ tr₁ tr₂ out ht h hentry hcall hblock hrest
      ihcall ihrest =>
      intro M F bb hplace
      rcases enters_instrumented h with ⟨M₀, F₀, hG⟩
      exact .term hplace.block? (hentered G.name 0
        ((balanced_block hfree hG hentry ihcall).append
          (hentered F'.name normal (balanced_block hfree hplace.toInstruments hblock ihrest))))
  | @invokeThrows F' k t callee normal unwind G bb₁ bb₂ tr₁ tr₂ out ht h hentry hcall hblock hrest
      ihcall ihrest =>
      intro M F bb hplace
      rcases enters_instrumented h with ⟨M₀, F₀, hG⟩
      exact .term hplace.block? (hentered G.name 0
        ((balanced_block hfree hG hentry ihcall).append
          (hentered F'.name unwind (balanced_block hfree hplace.toInstruments hblock ihrest))))

/-- An execution of an instrumented function is balanced. -/
theorem balanced_of_executes (hfree : HookFree P) {fn : String} (hfn : isRuntime fn = false)
    {tr : List Label} (h : Executes P.instrumented fn tr) : Balanced P tr := by
  rcases h with ⟨M', F', bb', tr', hresolve, hentry, hruns, rfl⟩
  rw [resolve_instrumented] at hresolve
  rcases Option.map_eq_some_iff.1 hresolve with ⟨⟨M, F⟩, hsource, heq⟩
  rcases Prod.mk.inj heq with ⟨_, rfl⟩
  rcases mem_of_resolve hsource with ⟨_, _, rfl⟩
  -- Entering the first block is neither an event nor a terminator.
  have htail := balanced_block hfree ⟨hsource, hfn, rfl⟩ hentry (runs_owes hfree hruns)
  exact ⟨htail.ids, htail.loopFree⟩

/-! ## What the final hash determines -/

/-- Distinct basic blocks have distinct ids. -/
def DistinctIds (P : Program) : Prop :=
  ∀ fn k fn' k' bb bb', P.block? fn k = some bb → P.block? fn' k' = some bb' →
    getBBID bb = getBBID bb' → (fn, k) = (fn', k')

/-- The places of a program, with the ids of their blocks. -/
def Program.blockIds (P : Program) : List ((String × Nat) × UInt64) :=
  P.functions.flatMap fun entry =>
    entry.2.blocks.zipIdx.map fun (bb, k) => ((entry.2.name, k), getBBID bb)

theorem mem_blockIds {fn : String} {k : Nat} {bb : BasicBlock} (h : P.block? fn k = some bb) :
    ((fn, k), getBBID bb) ∈ P.blockIds := by
  rcases Option.bind_eq_some_iff.1 h with ⟨⟨M, F⟩, hresolve, hblock⟩
  have hentry := List.mem_of_find?_eq_some hresolve
  rcases mem_of_resolve hresolve with ⟨_, _, rfl⟩
  exact List.mem_flatMap.2 ⟨(M, F), hentry,
    List.mem_map.2 ⟨(bb, k), List.mem_zipIdx_iff_getElem?.2 hblock, rfl⟩⟩

/-- Distinctness of ids is a matter of a finite list. -/
theorem distinctIds_of_blockIds
    (h : ∀ x ∈ P.blockIds, ∀ y ∈ P.blockIds, x.2 = y.2 → x.1 = y.1) : DistinctIds P :=
  fun _ _ _ _ _ _ hbb hbb' hid => h _ (mem_blockIds hbb) _ (mem_blockIds hbb') hid

/-- The block exists and its terminator gets a `record_node`. -/
def Program.isBranch (P : Program) (place : String × Nat) : Bool :=
  (P.block? place.1 place.2).any (·.term.op.isBranch)

/-- The blocks that were run to a branch, in the order in which their terminators were executed. -/
def branchesReached (P : Program) (tr : List Label) : List (String × Nat) :=
  (blocksReached tr).filter P.isBranch

/-- The final hash of a session over the events of an execution. -/
def finalHash {D : Type} (H : SecureWorld.Sha256 D) (ctx : SecureWorld.SessionCtx D)
    (handle : SecureWorld.Handle) (tr : List Label) : D :=
  (SecureWorld.cycleReport H ctx handle (traceEvents tr)).finalHash

theorem finalHash_of_balanced {D : Type} {H : SecureWorld.Sha256 D} {tr : List Label}
    (h : Balanced P tr) (ctx : SecureWorld.SessionCtx D) (handle : SecureWorld.Handle) :
    finalHash H ctx handle tr = chain H.digest H.zero (dueIds P tr) := by
  calc
    finalHash H ctx handle tr = chain H.digest H.zero (recordedIds tr) :=
          SecureWorld.finalHash_cycle h.loopFree ctx handle
    _ = chain H.digest H.zero (dueIds P tr) := congrArg _ h.ids

/-- The id of a block, or the place itself where there is no block. -/
def Program.key (P : Program) (place : String × Nat) : UInt64 ⊕ (String × Nat) :=
  match P.block? place.1 place.2 with
  | some bb => .inl (getBBID bb)
  | none => .inr place

theorem key_injective (hids : DistinctIds P) : Function.Injective P.key := by
  rintro ⟨fn, k⟩ ⟨fn', k'⟩ h
  simp only [Program.key] at h
  cases hbb : P.block? fn k with
  | none =>
      cases hbb' : P.block? fn' k' with
      | none => simpa [hbb, hbb'] using h
      | some bb' => simp [hbb, hbb'] at h
  | some bb =>
      cases hbb' : P.block? fn' k' with
      | none => simp [hbb, hbb'] at h
      | some bb' =>
          rw [hbb, hbb'] at h
          exact hids fn k fn' k' bb bb' hbb hbb' (Sum.inl.inj h)

/-- The ids that are due are those of the branches. -/
theorem map_dueIds (P : Program) (tr : List Label) :
    (dueIds P tr).map Sum.inl = (branchesReached P tr).map P.key := by
  rw [dueIds, branchesReached]
  induction blocksReached tr with
  | nil => rfl
  | cons place rest ih =>
      rw [List.flatMap_cons, List.map_append, ih, List.filter_cons]
      cases hbb : P.block? place.1 place.2 with
      | none => simp [Program.isBranch, hbb]
      | some bb =>
          cases hbranch : bb.term.op.isBranch <;>
            simp [Program.isBranch, BasicBlock.due, Program.key, hbb, hbranch]

theorem dueIds_eq_iff (hids : DistinctIds P) {tr₁ tr₂ : List Label} :
    dueIds P tr₁ = dueIds P tr₂ ↔ branchesReached P tr₁ = branchesReached P tr₂ := by
  have hinl : Function.Injective (List.map (Sum.inl (α := UInt64) (β := String × Nat))) :=
    List.map_injective_iff.2 fun _ _ => Sum.inl.inj
  calc
    dueIds P tr₁ = dueIds P tr₂
        ↔ (dueIds P tr₁).map Sum.inl = (dueIds P tr₂).map Sum.inl := hinl.eq_iff.symm
    _ ↔ (branchesReached P tr₁).map P.key = (branchesReached P tr₂).map P.key := by
          rw [map_dueIds, map_dueIds]
    _ ↔ branchesReached P tr₁ = branchesReached P tr₂ :=
          (List.map_injective_iff.2 (key_injective hids)).eq_iff

/-- Two executions of an instrumented function have the same final hash exactly when they have run
the same blocks to a branch, in the same order. -/
theorem same_hash_iff_same_branches {D : Type} {H : SecureWorld.Sha256 D}
    (hcf : CollisionFree H.digest H.zero) (hfree : HookFree P) (hids : DistinctIds P)
    {fn : String} (hfn : isRuntime fn = false) {tr₁ tr₂ : List Label}
    (h₁ : Measured P.instrumented fn tr₁) (h₂ : Measured P.instrumented fn tr₂)
    (c₁ c₂ : SecureWorld.SessionCtx D) (handle₁ handle₂ : SecureWorld.Handle) :
    finalHash H c₁ handle₁ tr₁ = finalHash H c₂ handle₂ tr₂ ↔
      branchesReached P tr₁ = branchesReached P tr₂ := by
  have hbalanced₁ := balanced_of_executes hfree hfn h₁.executes
  have hbalanced₂ := balanced_of_executes hfree hfn h₂.executes
  calc
    finalHash H c₁ handle₁ tr₁ = finalHash H c₂ handle₂ tr₂
        ↔ chain H.digest H.zero (dueIds P tr₁) = chain H.digest H.zero (dueIds P tr₂) := by
          rw [finalHash_of_balanced hbalanced₁, finalHash_of_balanced hbalanced₂]
    _ ↔ dueIds P tr₁ = dueIds P tr₂ := hcf.chain_injective.eq_iff
    _ ↔ branchesReached P tr₁ = branchesReached P tr₂ := dueIds_eq_iff hids

/-! ## Two ways to return -/

/-- A function that branches to one of two returns. -/
def twoReturns : Program :=
  [⟨[⟨"main", [
    ⟨[⟨16, .plain⟩], ⟨24, .condBr 1 2⟩⟩,
    ⟨[⟨32, .plain⟩], ⟨40, .ret⟩⟩,
    ⟨[⟨48, .plain⟩], ⟨56, .ret⟩⟩]⟩]⟩]

theorem hookFree_twoReturns : HookFree twoReturns := by
  simp [HookFree, twoReturns, hookEvent?]

theorem distinctIds_twoReturns : DistinctIds twoReturns := distinctIds_of_blockIds (by decide)

/-- The execution that returns from block `k`, whose id is `bbID`. -/
def returnFrom (k : Nat) (bbID : UInt64) : List Label :=
  [.entered "main" 0, .event (.recordNode 16), .reached "main" 0,
    .entered "main" k, .event (.callReturn bbID), .reached "main" k]

theorem measured_returnFrom :
    Measured twoReturns.instrumented "main" (returnFrom 1 32) ∧
      Measured twoReturns.instrumented "main" (returnFrom 2 48) := by
  refine ⟨⟨⟨_, _, _, _, rfl, rfl, ?_, rfl⟩, by simp [returnFrom]⟩,
    ⟨⟨_, _, _, _, rfl, rfl, ?_, rfl⟩, by simp [returnFrom]⟩⟩
  all_goals
    exact .silent rfl (.hook rfl (.jump rfl (by simp [TermOpcode.successors]) rfl
      (.silent rfl (.hook rfl (.ret rfl)))))

def freshSession : SecureWorld.SessionCtx (List UInt64) :=
  SecureWorld.taOpenSessionEntryPoint SecureWorld.Sha256.free

theorem same_hash_iff_same_branches_twoReturns :
    finalHash SecureWorld.Sha256.free freshSession 1 (returnFrom 1 32) =
        finalHash SecureWorld.Sha256.free freshSession 2 (returnFrom 2 48) ↔
      branchesReached twoReturns (returnFrom 1 32) =
        branchesReached twoReturns (returnFrom 2 48) :=
  same_hash_iff_same_branches collisionFree_free hookFree_twoReturns distinctIds_twoReturns
    (by decide) measured_returnFrom.1 measured_returnFrom.2 _ _ 1 2

/-- Two executions with the same final hash that have run different blocks. -/
theorem returning_blocks_not_determined :
    ¬ ∀ (D : Type) (H : SecureWorld.Sha256 D), CollisionFree H.digest H.zero →
      ∀ (P : Program), HookFree P → DistinctIds P → ∀ (fn : String), isRuntime fn = false →
        ∀ (tr₁ tr₂ : List Label), Measured P.instrumented fn tr₁ →
          Measured P.instrumented fn tr₂ →
          ∀ (ctx : SecureWorld.SessionCtx D) (handle : SecureWorld.Handle),
            finalHash H ctx handle tr₁ = finalHash H ctx handle tr₂ →
            blocksRun tr₁ = blocksRun tr₂ := by
  intro h
  have hblocks := h _ SecureWorld.Sha256.free collisionFree_free twoReturns hookFree_twoReturns
    distinctIds_twoReturns "main" (by decide) (returnFrom 1 32) (returnFrom 2 48)
    measured_returnFrom.1 measured_returnFrom.2
    freshSession 1 (by decide +kernel)
  revert hblocks
  decide

/-- A function one of whose returning blocks calls a hook itself, with the id of another block. -/
def ownHook : Program :=
  [⟨[⟨"main", [
    ⟨[⟨16, .plain⟩], ⟨24, .condBr 1 2⟩⟩,
    ⟨[⟨32, .call (.direct "__cflat_record_node") [48] false⟩], ⟨40, .ret⟩⟩,
    ⟨[⟨48, .plain⟩], ⟨56, .br 3⟩⟩,
    ⟨[⟨64, .plain⟩], ⟨72, .ret⟩⟩]⟩]⟩]

/-- Why `HookFree` is asked for: the hash does not tell a hook that the source calls from one that
the pass has inserted. -/
example :
    ¬ ∀ (P : Program), DistinctIds P → ∀ (fn : String), isRuntime fn = false →
      ∀ (tr₁ tr₂ : List Label), Measured P.instrumented fn tr₁ → Measured P.instrumented fn tr₂ →
        finalHash SecureWorld.Sha256.free freshSession 1 tr₁ =
          finalHash SecureWorld.Sha256.free freshSession 1 tr₂ →
        branchesReached P tr₁ = branchesReached P tr₂ := by
  intro h
  have hbranches := h ownHook (distinctIds_of_blockIds (by decide)) "main" (by decide)
    [.entered "main" 0, .event (.recordNode 16), .reached "main" 0,
      .entered "main" 1, .event (.recordNode 48), .event (.callReturn 32), .reached "main" 1]
    [.entered "main" 0, .event (.recordNode 16), .reached "main" 0,
      .entered "main" 2, .event (.recordNode 48), .reached "main" 2,
      .entered "main" 3, .event (.callReturn 64), .reached "main" 3]
    ⟨⟨_, _, _, _, rfl, rfl, .silent rfl (.hook rfl (.jump rfl (by simp [TermOpcode.successors]) rfl
      (.hook rfl (.hook rfl (.ret rfl))))), rfl⟩, by simp⟩
    ⟨⟨_, _, _, _, rfl, rfl, .silent rfl (.hook rfl (.jump rfl (by simp [TermOpcode.successors]) rfl
      (.silent rfl (.hook rfl (.jump rfl (by simp [TermOpcode.successors]) rfl
        (.silent rfl (.hook rfl (.ret rfl)))))))), rfl⟩, by simp⟩
    (by decide +kernel)
  revert hbranches
  decide

end Pass
end CFlat
