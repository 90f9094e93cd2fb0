import CFlat.Pass.Instrument

/-!
# WellFormed — which functions the pass leaves well formed

A hook is an ordinary call.  Where the IR lets other instructions stand between two neighbours, or
at the front of a block, a hook may stand there too; the hooks before returns and before terminators
are inserted where the IR does not.
-/

namespace CFlat
namespace Pass

/-! ## Well-formed functions -/

namespace Opcode

def isPhi : Opcode → Bool
  | .phi => true
  | _ => false

def isPad : Opcode → Bool
  | .pad => true
  | _ => false

def isCast : Opcode → Bool
  | .cast => true
  | _ => false

def isMusttail : Opcode → Bool
  | .call _ _ musttail => musttail
  | _ => false

end Opcode

namespace TermOpcode

def isCatchSwitch : TermOpcode → Bool
  | .catchSwitch _ _ => true
  | _ => false

/-- The blocks that an exception may go to: they must start with a pad. -/
def padSuccessors : TermOpcode → List Nat
  | .invoke _ _ unwind => [unwind]
  | .catchSwitch handlers unwind => handlers ++ unwind.toList
  | .cleanupRet unwind => unwind.toList
  | _ => []

end TermOpcode

namespace BasicBlock

/-- The instructions behind the leading phi nodes. -/
def nonPhis (bb : BasicBlock) : List Instr := bb.body.dropWhile fun i => i.op.isPhi

/-- The first instruction that is no phi node is a pad; a `catchswitch` is one. -/
def startsWithPad (bb : BasicBlock) : Bool :=
  match bb.nonPhis with
  | [] => bb.term.op.isCatchSwitch
  | i :: _ => i.op.isPad

/-- That a block has one terminator, as its last instruction, is in its type. -/
structure WellFormed (bb : BasicBlock) : Prop where
  phisFirst : ∀ i ∈ bb.nonPhis, i.op.isPhi = false
  padFirst : ∀ i ∈ bb.nonPhis.tail, i.op.isPad = false
  /-- Between a `musttail` call and its return only a cast of the result may stand. -/
  musttail : ∀ i post, i :: post <:+ bb.body → i.op.isMusttail = true →
    bb.term.op = .ret ∧ (post = [] ∨ ∃ c, post = [c] ∧ c.op.isCast = true)
  catchSwitch : bb.term.op.isCatchSwitch = true → bb.nonPhis = []

end BasicBlock

structure Function.WellFormed (F : Function) : Prop where
  blocks : ∀ bb ∈ F.blocks, bb.WellFormed
  pads : ∀ bb ∈ F.blocks, ∀ k ∈ bb.term.op.padSuccessors,
    F.blocks[k]?.any BasicBlock.startsWithPad = true

/-! ### Deciding it -/

/-- What stands behind a `musttail` call is its return. -/
def returnsBehind (t : Terminator) (post : List Instr) : Bool :=
  decide (t.op = .ret) && (post.isEmpty || (post.length == 1 && post.all fun c => c.op.isCast))

def musttailsReturn (t : Terminator) : List Instr → Bool
  | [] => true
  | i :: rest => (!i.op.isMusttail || returnsBehind t rest) && musttailsReturn t rest

theorem returnsBehind_iff (t : Terminator) (post : List Instr) :
    returnsBehind t post = true ↔
      t.op = .ret ∧ (post = [] ∨ ∃ c, post = [c] ∧ c.op.isCast = true) := by
  match post with
  | [] => simp [returnsBehind]
  | [c] => simp [returnsBehind]
  | c :: d :: rest => simp [returnsBehind]

theorem musttailsReturn_iff (t : Terminator) (body : List Instr) :
    musttailsReturn t body = true ↔ ∀ i post, i :: post <:+ body → i.op.isMusttail = true →
      t.op = .ret ∧ (post = [] ∨ ∃ c, post = [c] ∧ c.op.isCast = true) := by
  induction body with
  | nil => simp [musttailsReturn]
  | cons j rest ih =>
      simp only [musttailsReturn, Bool.and_eq_true, ih, Bool.or_eq_true, Bool.not_eq_true',
        returnsBehind_iff]
      constructor
      · rintro ⟨hhead, htail⟩ i post hsuffix hmusttail
        rcases List.suffix_cons_iff.1 hsuffix with h | h
        · obtain ⟨rfl, rfl⟩ := List.cons.inj h
          exact hhead.resolve_left (by simp [hmusttail])
        · exact htail i post h hmusttail
      · intro h
        refine ⟨?_, fun i post hsuffix => h i post (hsuffix.trans (List.suffix_cons j rest))⟩
        cases hj : j.op.isMusttail with
        | false => exact .inl rfl
        | true => exact .inr (h j rest (List.suffix_refl _) hj)

theorem BasicBlock.wellFormed_iff (bb : BasicBlock) :
    bb.WellFormed ↔ (∀ i ∈ bb.nonPhis, i.op.isPhi = false) ∧
      (∀ i ∈ bb.nonPhis.tail, i.op.isPad = false) ∧ musttailsReturn bb.term bb.body = true ∧
      (bb.term.op.isCatchSwitch = true → bb.nonPhis = []) := by
  rw [musttailsReturn_iff]
  exact ⟨fun h => ⟨h.phisFirst, h.padFirst, h.musttail, h.catchSwitch⟩,
    fun ⟨h₁, h₂, h₃, h₄⟩ => ⟨h₁, h₂, h₃, h₄⟩⟩

instance (bb : BasicBlock) : Decidable bb.WellFormed :=
  decidable_of_iff' _ bb.wellFormed_iff

theorem Function.wellFormed_iff (F : Function) :
    F.WellFormed ↔ (∀ bb ∈ F.blocks, bb.WellFormed) ∧
      ∀ bb ∈ F.blocks, ∀ k ∈ bb.term.op.padSuccessors,
        F.blocks[k]?.any BasicBlock.startsWithPad = true :=
  ⟨fun h => ⟨h.blocks, h.pads⟩, fun ⟨h₁, h₂⟩ => ⟨h₁, h₂⟩⟩

instance (F : Function) : Decidable F.WellFormed :=
  decidable_of_iff' _ F.wellFormed_iff

/-! ## The instructions of an instrumented block -/

section Blocks

variable {M : Module} {bb : BasicBlock} {bbID : UInt64} {body : List Instr} {i : Instr}

/-- A call that the pass creates is neither a phi node nor a pad, and no `musttail` call. -/
structure Plain (i : Instr) : Prop where
  notPhi : i.op.isPhi = false
  notPad : i.op.isPad = false
  notMusttail : i.op.isMusttail = false

theorem plain_createCall (name : String) (args : List UInt64) : Plain (createCall name args) :=
  ⟨rfl, rfl, rfl⟩

theorem plain_of_mem_edgeHook (h : i ∈ edgeHook bb) : Plain i := by
  unfold edgeHook at h
  split at h
  · rw [List.mem_singleton.1 h]
    apply plain_createCall
  · split at h
    · rw [List.mem_singleton.1 h]
      apply plain_createCall
    · simp at h

theorem plain_of_mem_invokeHook (h : i ∈ invokeHook M bb) : Plain i := by
  unfold invokeHook at h
  split at h
  · rw [List.mem_singleton.1 h]
    apply plain_createCall
  · simp at h

/-- The walk leaves the instructions of the block and adds calls of its own. -/
theorem mem_walked (h : i ∈ walked M bbID body) : i ∈ body ∨ Plain i := by
  obtain ⟨j, hj, hi⟩ := List.mem_flatMap.1 h
  split at hi
  · rcases List.mem_cons.1 hi with rfl | hi
    · exact .inr (plain_createCall _ _)
    · exact .inl (List.mem_singleton.1 hi ▸ hj)
  · exact .inl (List.mem_singleton.1 hi ▸ hj)

theorem mem_instrumentedBlock (h : i ∈ (instrumentedBlock M bb).body) : i ∈ bb.body ∨ Plain i := by
  rcases List.mem_append.1 h with h | h
  · rcases List.mem_append.1 h with h | h
    · exact mem_walked h
    · exact .inr (plain_of_mem_edgeHook h)
  · exact .inr (plain_of_mem_invokeHook h)

theorem walked_cons (M : Module) (bbID : UInt64) (i : Instr) (rest : List Instr) :
    walked M bbID (i :: rest) =
      (if isInstrumentedCall M i.op.calledFunction then [callEnterCall i.addr bbID, i] else [i]) ++
        walked M bbID rest := rfl

/-- Only calls get a hook. -/
theorem not_instrumented_of_not_isCall (M : Module) {op : Opcode}
    (h : op.isPhi = true ∨ op.isPad = true) : isInstrumentedCall M op.calledFunction = false := by
  cases op with
  | phi => rfl
  | pad => rfl
  | cast => simp [Opcode.isPhi, Opcode.isPad] at h
  | call callee args musttail => simp [Opcode.isPhi, Opcode.isPad] at h
  | plain => simp [Opcode.isPhi, Opcode.isPad] at h

theorem walked_cons_of_not_isCall (h : i.op.isPhi = true ∨ i.op.isPad = true)
    (rest : List Instr) : walked M bbID (i :: rest) = i :: walked M bbID rest := by
  rw [walked_cons, not_instrumented_of_not_isCall M h]
  rfl

theorem dropWhile_of_not {p : Instr → Bool} {l : List Instr} (h : ∀ i ∈ l, p i = false) :
    l.dropWhile p = l := by
  cases l with
  | nil => rfl
  | cons i rest => simp [h i List.mem_cons_self]

/-- Behind the phi nodes of an instrumented block stand the other instructions with their hooks. -/
theorem nonPhis_instrumentedBlock (M : Module) (bb : BasicBlock) :
    (instrumentedBlock M bb).nonPhis =
      walked M (getBBID bb) bb.nonPhis ++ (edgeHook bb ++ invokeHook M bb) := by
  have hhooks : ∀ i ∈ edgeHook bb ++ invokeHook M bb, i.op.isPhi = false := by
    intro i hi
    rcases List.mem_append.1 hi with h | h
    · exact (plain_of_mem_edgeHook h).notPhi
    · exact (plain_of_mem_invokeHook h).notPhi
  simp only [BasicBlock.nonPhis, instrumentedBlock, List.append_assoc]
  generalize edgeHook bb ++ invokeHook M bb = hooks at hhooks ⊢
  generalize getBBID bb = bbID
  induction bb.body with
  | nil => exact dropWhile_of_not hhooks
  | cons i rest ih =>
      by_cases hphi : i.op.isPhi = true
      · rw [walked_cons_of_not_isCall (.inl hphi)]
        simpa [hphi] using ih
      · by_cases hcall : isInstrumentedCall M i.op.calledFunction = true
        · have hhook : (callEnterCall i.addr bbID).op.isPhi = false := rfl
          simp [walked_cons, hcall, hphi, hhook]
        · simp [walked_cons, hcall, hphi]

/-! ## What the pass keeps -/

/-- What the hooks break: a `musttail` call wants its return behind it, and a `catchswitch` nothing
before it. -/
def BasicBlock.Apart (bb : BasicBlock) : Prop :=
  (∀ i ∈ bb.body, i.op.isMusttail = false) ∧ bb.term.op.isCatchSwitch = false

instance (bb : BasicBlock) : Decidable bb.Apart := inferInstanceAs (Decidable (_ ∧ _))

theorem plain_of_mem_hooks (h : i ∈ edgeHook bb ++ invokeHook M bb) : Plain i := by
  rcases List.mem_append.1 h with h | h
  · exact plain_of_mem_edgeHook h
  · exact plain_of_mem_invokeHook h

theorem phisFirst_instrumentedBlock (hbb : bb.WellFormed) :
    ∀ i ∈ (instrumentedBlock M bb).nonPhis, i.op.isPhi = false := by
  intro i hi
  rw [nonPhis_instrumentedBlock] at hi
  rcases List.mem_append.1 hi with h | h
  · rcases mem_walked h with h | h
    · exact hbb.phisFirst i h
    · exact h.notPhi
  · exact (plain_of_mem_hooks h).notPhi

/-- A pad gets no hook, so it stays in front. -/
theorem padFirst_instrumentedBlock (hbb : bb.WellFormed) :
    ∀ i ∈ (instrumentedBlock M bb).nonPhis.tail, i.op.isPad = false := by
  have hpads := hbb.padFirst
  rw [nonPhis_instrumentedBlock]
  cases hnonPhis : bb.nonPhis with
  | nil =>
      intro i hi
      exact (plain_of_mem_hooks (List.mem_of_mem_tail hi)).notPad
  | cons j rest =>
      rw [hnonPhis, List.tail_cons] at hpads
      by_cases hj : j.op.isPad = true
      · rw [walked_cons_of_not_isCall (.inr hj), List.cons_append, List.tail_cons]
        intro i hi
        rcases List.mem_append.1 hi with h | h
        · rcases mem_walked h with h | h
          · exact hpads i h
          · exact h.notPad
        · exact (plain_of_mem_hooks h).notPad
      · intro i hi
        rcases List.mem_append.1 (List.mem_of_mem_tail hi) with h | h
        · rcases mem_walked h with h | h
          · rcases List.mem_cons.1 h with rfl | h
            · simpa using hj
            · exact hpads i h
          · exact h.notPad
        · exact (plain_of_mem_hooks h).notPad

theorem wellFormed_instrumentedBlock (hbb : bb.WellFormed) (hapart : bb.Apart) :
    (instrumentedBlock M bb).WellFormed where
  phisFirst := phisFirst_instrumentedBlock hbb
  padFirst := padFirst_instrumentedBlock hbb
  musttail := by
    intro i post hsuffix hmusttail
    rcases mem_instrumentedBlock (hsuffix.subset List.mem_cons_self) with h | h
    · simp [hapart.1 i h] at hmusttail
    · simp [h.notMusttail] at hmusttail
  catchSwitch := by
    intro hcatch
    have hterm : bb.term.op.isCatchSwitch = true := hcatch
    simp [hapart.2] at hterm

theorem startsWithPad_instrumentedBlock (hapart : bb.Apart) (h : bb.startsWithPad = true) :
    (instrumentedBlock M bb).startsWithPad = true := by
  unfold BasicBlock.startsWithPad at h ⊢
  rw [nonPhis_instrumentedBlock]
  cases hnonPhis : bb.nonPhis with
  | nil =>
      rw [hnonPhis] at h
      simp [hapart.2] at h
  | cons j rest =>
      have hj : j.op.isPad = true := by simpa [hnonPhis] using h
      rw [walked_cons_of_not_isCall (.inr hj)]
      exact hj

/-! ## What the pass breaks -/

/-- Behind every instruction of a returning block there is the hook of its return. -/
theorem suffix_instrumentedBlock {post : List Instr} (hret : bb.term.op = .ret)
    (h : i :: post <:+ bb.body) :
    ∃ post', i :: (post' ++ [callReturnCall (getBBID bb)]) <:+ (instrumentedBlock M bb).body := by
  obtain ⟨pre, hpre⟩ := h
  have hbody : (instrumentedBlock M bb).body =
      walked M (getBBID bb) bb.body ++ [callReturnCall (getBBID bb)] := by
    simp [instrumentedBlock, edgeHook, invokeHook, TermOpcode.isBranch, hret,
      TermOpcode.calledFunction]
  have hwalked : walked M (getBBID bb) bb.body =
      walked M (getBBID bb) pre ++ walked M (getBBID bb) (i :: post) := by
    rw [← hpre]
    exact List.flatMap_append
  refine ⟨walked M (getBBID bb) post, ?_⟩
  rw [hbody, hwalked, walked_cons]
  split
  · exact ⟨walked M (getBBID bb) pre ++ [callEnterCall i.addr (getBBID bb)], by simp⟩
  · exact ⟨walked M (getBBID bb) pre, by simp⟩

theorem not_musttail_of_wellFormed (hbb : bb.WellFormed)
    (hout : (instrumentedBlock M bb).WellFormed) : ∀ i ∈ bb.body, i.op.isMusttail = false := by
  intro i hi
  rw [← Bool.not_eq_true]
  intro hmusttail
  obtain ⟨pre, post, hsplit⟩ := List.append_of_mem hi
  have hsuffix : i :: post <:+ bb.body := ⟨pre, hsplit.symm⟩
  have hret := (hbb.musttail i post hsuffix hmusttail).1
  obtain ⟨post', hsuffix'⟩ := suffix_instrumentedBlock (M := M) hret hsuffix
  rcases (hout.musttail i _ hsuffix' hmusttail).2 with hnil | ⟨c, hc, hcast⟩
  · simp at hnil
  · -- The hook would have to be the cast.
    have hmem : callReturnCall (getBBID bb) ∈ [c] := by
      rw [← hc]
      exact List.mem_append_right _ List.mem_cons_self
    rw [← List.mem_singleton.1 hmem] at hcast
    simp [callReturnCall, createCall, Opcode.isCast] at hcast

theorem not_catchSwitch_of_wellFormed (hout : (instrumentedBlock M bb).WellFormed) :
    bb.term.op.isCatchSwitch = false := by
  rw [← Bool.not_eq_true]
  intro hcatch
  have hnil := hout.catchSwitch hcatch
  rw [nonPhis_instrumentedBlock] at hnil
  have hbranch : bb.term.op.isBranch = true := by
    cases hop : bb.term.op <;> simp [hop, TermOpcode.isCatchSwitch] at hcatch
    rfl
  simp [edgeHook, hbranch] at hnil

theorem wellFormed_instrumentedBlock_iff (hbb : bb.WellFormed) :
    (instrumentedBlock M bb).WellFormed ↔ bb.Apart :=
  ⟨fun hout => ⟨not_musttail_of_wellFormed hbb hout, not_catchSwitch_of_wellFormed hout⟩,
    wellFormed_instrumentedBlock hbb⟩

end Blocks

/-! ## The pass -/

variable {F : Function}

theorem wellFormed_run (M : Module) (hF : F.WellFormed) (hname : isRuntime F.name = false)
    (hapart : ∀ bb ∈ F.blocks, bb.Apart) : (run M F).1.WellFormed := by
  rw [run_fst M hname]
  refine ⟨?_, ?_⟩
  · intro out hout
    obtain ⟨bb, hbb, rfl⟩ := List.mem_map.1 hout
    exact wellFormed_instrumentedBlock (hF.blocks bb hbb) (hapart bb hbb)
  · intro out hout k hk
    obtain ⟨bb, hbb, rfl⟩ := List.mem_map.1 hout
    obtain ⟨dest, hdest, hpad⟩ := (Option.any_eq_true _ _).1 (hF.pads bb hbb k hk)
    have hdest' : (F.blocks.map (instrumentedBlock M))[k]? = some (instrumentedBlock M dest) := by
      rw [List.getElem?_map, hdest]
      rfl
    rw [hdest']
    exact startsWithPad_instrumentedBlock (hapart dest (List.mem_of_getElem? hdest)) hpad

/-- The pass leaves a well-formed function well formed exactly when it skips it or no block has a
`musttail` call or ends in a `catchswitch`. -/
theorem run_wellFormed_iff (M : Module) (F : Function) (hF : F.WellFormed) :
    (run M F).1.WellFormed ↔ isRuntime F.name = true ∨ ∀ bb ∈ F.blocks, bb.Apart := by
  cases hname : isRuntime F.name with
  | true =>
      have hskip : (run M F).1 = F := by
        simp only [run, hname]
        split
        · rfl
        · rfl
      rw [hskip]
      exact ⟨fun _ => .inl rfl, fun _ => hF⟩
  | false =>
      constructor
      · intro hout
        rw [run_fst M hname] at hout
        refine .inr fun bb hbb => ?_
        have hblock := hout.blocks _ (List.mem_map_of_mem hbb)
        exact (wellFormed_instrumentedBlock_iff (hF.blocks bb hbb)).1 hblock
      · rintro (h | hapart)
        · simp at h
        · exact wellFormed_run M hF hname hapart

/-- A function that ends in a `musttail` call. -/
def tailCaller : Function := ⟨"main", [⟨[⟨10, .call .indirect [] true⟩], ⟨11, .ret⟩⟩]⟩

/-- A function with an exception handler: its blocks are an `invoke`, a return, the `catchswitch`
and the handler. -/
def catcher : Function :=
  ⟨"main", [⟨[], ⟨10, .invoke .indirect 1 2⟩⟩, ⟨[], ⟨20, .ret⟩⟩, ⟨[], ⟨30, .catchSwitch [3] none⟩⟩,
    ⟨[⟨40, .pad⟩], ⟨41, .catchRet 1⟩⟩]⟩

/-- The hook of the return comes between the `musttail` call and its return, and the hook of the
`catchswitch` into its block. -/
theorem run_breaks_wellFormed :
    (tailCaller.WellFormed ∧ ¬ (run ⟨[tailCaller]⟩ tailCaller).1.WellFormed) ∧
      catcher.WellFormed ∧ ¬ (run ⟨[catcher]⟩ catcher).1.WellFormed := by
  decide

/-- A function with a phi node, a call and a landing pad. -/
def unwinder : Function :=
  ⟨"main", [⟨[], ⟨10, .invoke (.direct "main") 1 2⟩⟩,
    ⟨[⟨20, .phi⟩, ⟨21, .call (.direct "main") [] false⟩], ⟨22, .condBr 1 3⟩⟩,
    ⟨[⟨30, .phi⟩, ⟨31, .pad⟩], ⟨32, .resume⟩⟩, ⟨[], ⟨40, .ret⟩⟩]⟩

theorem run_wellFormed_unwinder : (run ⟨[unwinder]⟩ unwinder).1.WellFormed :=
  (run_wellFormed_iff ⟨[unwinder]⟩ unwinder (by decide)).2 (.inr (by decide))

end Pass
end CFlat
