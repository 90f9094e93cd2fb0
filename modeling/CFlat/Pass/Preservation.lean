import CFlat.Pass.Activations
import CFlat.Pass.Unfinished
import CFlat.Pass.WellFormed

/-!
# Preservation — instrumentation keeps the control flow of a program

A program without its hook calls does what the program does, less the events: this holds of every
program, and of every run, finished or not.  The pass inserts hook calls and nothing else, so taking
the hook calls out of an instrumented program gives the source back, and the two have the same runs.
All this is about programs whose functions stay well formed (`Instrumentable`).
-/

namespace CFlat
namespace Pass

variable {P : Program}

/-! ## Programs without their hook calls -/

/-- The instruction calls a hook. -/
def Instr.isHook (i : Instr) : Bool := (hookEvent? i.op).isSome

def unhookedBody (body : List Instr) : List Instr := body.filter fun i => !i.isHook

def BasicBlock.unhooked (bb : BasicBlock) : BasicBlock := { bb with body := unhookedBody bb.body }

def Function.unhooked (F : Function) : Function :=
  { F with blocks := F.blocks.map BasicBlock.unhooked }

def Module.unhooked (M : Module) : Module := ⟨M.functions.map Function.unhooked⟩

def Program.unhooked (P : Program) : Program := P.map Module.unhooked

def Effect.unhooked : Effect → Effect
  | .enters G => .enters G.unhooked
  | effect => effect

def unhookedEntry (entry : Module × Function) : Module × Function :=
  (entry.1.unhooked, entry.2.unhooked)

@[simp] theorem unhookedBody_append (body body' : List Instr) :
    unhookedBody (body ++ body') = unhookedBody body ++ unhookedBody body' :=
  List.filter_append _ _

theorem isHook_of_event {i : Instr} {e : Event} (h : hookEvent? i.op = some e) :
    i.isHook = true := by
  simp [Instr.isHook, h]

theorem not_isHook {i : Instr} (h : hookEvent? i.op = none) : i.isHook = false := by
  simp [Instr.isHook, h]

theorem event_of_isHook {i : Instr} (h : i.isHook = true) : ∃ e, hookEvent? i.op = some e :=
  Option.isSome_iff_exists.1 h

theorem unhookedBody_cons_hook {i : Instr} (h : i.isHook = true) (rest : List Instr) :
    unhookedBody (i :: rest) = unhookedBody rest := by
  simp [unhookedBody, h]

theorem unhookedBody_cons {i : Instr} (h : i.isHook = false) (rest : List Instr) :
    unhookedBody (i :: rest) = i :: unhookedBody rest := by
  simp [unhookedBody, h]

/-- The first instruction that is left, with the hook calls in front of it. -/
theorem unhookedBody_eq_cons {body rest : List Instr} {i : Instr}
    (h : unhookedBody body = i :: rest) :
    ∃ hooks behind, body = hooks ++ i :: behind ∧ (∀ j ∈ hooks, j.isHook = true) ∧
      i.isHook = false ∧ unhookedBody behind = rest := by
  rcases List.filter_eq_cons_iff.1 h with ⟨hooks, behind, hbody, hhooks, hi, hrest⟩
  exact ⟨hooks, behind, hbody, by simpa using hhooks, by simpa using hi, hrest⟩

theorem unhookedBody_eq_nil {body : List Instr} (h : unhookedBody body = []) :
    ∀ i ∈ body, i.isHook = true := by
  simpa [unhookedBody] using h

theorem name_unhooked (F : Function) : F.unhooked.name = F.name := rfl

theorem isDeclaration_unhooked (F : Function) : F.unhooked.isDeclaration = F.isDeclaration := by
  simp [Function.isDeclaration, Function.unhooked]

/-- A block of a function without its hook calls. -/
theorem getElem?_unhooked {F : Function} {k : Nat} {bb : BasicBlock} (h : F.blocks[k]? = some bb) :
    F.unhooked.blocks[k]? = some bb.unhooked := by
  simp [Function.unhooked, h]

theorem of_getElem?_unhooked {F : Function} {k : Nat} {bb : BasicBlock}
    (h : F.unhooked.blocks[k]? = some bb) : ∃ bb', F.blocks[k]? = some bb' ∧ bb = bb'.unhooked := by
  rw [Function.unhooked, List.getElem?_map] at h
  rcases Option.map_eq_some_iff.1 h with ⟨bb', hbb', rfl⟩
  exact ⟨bb', hbb', rfl⟩

theorem resolve_unhooked (P : Program) (name : String) :
    P.unhooked.resolve name = (P.resolve name).map unhookedEntry := by
  have hfunctions : P.unhooked.functions = P.functions.map unhookedEntry := by
    simp [Program.functions, Program.unhooked, List.flatMap_map, List.map_flatMap, Module.unhooked,
      unhookedEntry, Function.comp_def]
  -- A function keeps its name and its blocks, so the search finds the same one.
  have hdefines : Program.defines name ∘ unhookedEntry = Program.defines name := by
    funext entry
    simp [Program.defines, unhookedEntry, isDeclaration_unhooked, name_unhooked]
  rw [Program.resolve, hfunctions, List.find?_map, hdefines]
  rfl

theorem calls_unhooked (P : Program) (callee : Option String) :
    P.unhooked.calls callee = (P.calls callee).unhooked := by
  cases callee with
  | none => rfl
  | some name =>
      simp only [Program.calls]
      split
      · rfl
      · rw [resolve_unhooked]
        cases P.resolve name <;> rfl

theorem effect_unhooked (P : Program) (i : Instr) :
    P.unhooked.effect i = (P.effect i).unhooked := by
  rw [Program.effect, Program.effect]
  cases hookEvent? i.op with
  | none => exact calls_unhooked P _
  | some e => rfl

theorem effect_unhooked_enters {i : Instr} {G : Function} (h : P.effect i = .enters G) :
    P.unhooked.effect i = .enters G.unhooked := by
  rw [effect_unhooked, h]
  rfl

theorem calls_unhooked_enters {callee : Option String} {G : Function}
    (h : P.calls callee = .enters G) : P.unhooked.calls callee = .enters G.unhooked := by
  rw [calls_unhooked, h]
  rfl

/-! ## Effects -/

theorem Effect.unhooked_eq {x y : Effect} (h : x.unhooked = y) (hy : ∀ G, y ≠ .enters G) :
    x = y := by
  cases x with
  | enters G' => exact absurd h.symm (hy _)
  | _ => exact h

theorem isHook_of_effect {i : Instr} {e : Event} (h : P.effect i = .hook e) : i.isHook = true :=
  isHook_of_event (hookEvent?_eq_some h)

theorem effect_of_isHook {i : Instr} {e : Event} (h : hookEvent? i.op = some e) :
    P.effect i = .hook e := by
  simp [Program.effect, h]

theorem not_isHook_of_effect {i : Instr} {x : Effect} (h : P.effect i = x)
    (hx : ∀ e, x ≠ .hook e) : i.isHook = false :=
  not_isHook (hookEvent?_eq_none h hx)

/-! ## Runs -/

def Label.isEvent : Label → Bool
  | .event _ => true
  | _ => false

def withoutEvents (tr : List Label) : List Label := tr.filter fun l => !l.isEvent

@[simp] theorem withoutEvents_nil : withoutEvents [] = [] := rfl

@[simp] theorem withoutEvents_append (tr tr' : List Label) :
    withoutEvents (tr ++ tr') = withoutEvents tr ++ withoutEvents tr' := List.filter_append _ _

@[simp] theorem withoutEvents_event (e : Event) (tr : List Label) :
    withoutEvents (.event e :: tr) = withoutEvents tr := rfl

@[simp] theorem withoutEvents_runtime (name : String) (tr : List Label) :
    withoutEvents (.runtime name :: tr) = .runtime name :: withoutEvents tr := rfl

@[simp] theorem withoutEvents_entered (fn : String) (k : Nat) (tr : List Label) :
    withoutEvents (.entered fn k :: tr) = .entered fn k :: withoutEvents tr := rfl

@[simp] theorem withoutEvents_reached (fn : String) (k : Nat) (tr : List Label) :
    withoutEvents (.reached fn k :: tr) = .reached fn k :: withoutEvents tr := rfl

/-- A run, without the events, is a run of the program without its hook calls. -/
theorem Runs.unhooked {F : Function} {k : Nat} {rest : List Instr} {t : Terminator}
    {tr : List Label} {out : Outcome} (h : Runs P F k rest t tr out) :
    Runs P.unhooked F.unhooked k (unhookedBody rest) t (withoutEvents tr) out := by
  induction h with
  | silent h hrest ih =>
      rw [unhookedBody_cons (not_isHook_of_effect h (by simp))]
      exact .silent (by rw [effect_unhooked, h]; rfl) ih
  | throws h hcall =>
      rw [unhookedBody_cons (not_isHook_of_effect h (by simp))]
      exact .throws (by rw [effect_unhooked, h]; rfl) hcall
  | hook h hrest ih =>
      -- A hook leaves the code and its event leaves the trace.
      rw [unhookedBody_cons_hook (isHook_of_effect h)]
      exact ih
  | runtime h hrest ih =>
      rw [unhookedBody_cons (not_isHook_of_effect h (by simp))]
      exact .runtime (by rw [effect_unhooked, h]; rfl) ih
  | @call _ _ _ _ _ G _ _ _ _ h hentry hcall hrest ihcall ihrest =>
      rw [unhookedBody_cons (not_isHook_of_effect h (by simp)), withoutEvents_entered,
        withoutEvents_append]
      exact .call (G := G.unhooked) (effect_unhooked_enters h) (getElem?_unhooked hentry) ihcall
        ihrest
  | @callThrows _ _ _ _ _ G _ _ h hentry hcall ih =>
      rw [unhookedBody_cons (not_isHook_of_effect h (by simp)), withoutEvents_entered]
      exact .callThrows (G := G.unhooked) (effect_unhooked_enters h) (getElem?_unhooked hentry) ih
  | ret h => exact .ret h
  | leaves h => exact .leaves h
  | jump h hdest hblock hrest ih =>
      exact .jump (by rw [calls_unhooked, h]; rfl) hdest (getElem?_unhooked hblock) ih
  | jumpRuntime h hdest hblock hrest ih =>
      exact .jumpRuntime (by rw [calls_unhooked, h]; rfl) hdest (getElem?_unhooked hblock) ih
  | @invoke _ _ _ _ _ _ G _ _ _ _ _ ht h hentry hcall hblock hrest ihcall ihrest =>
      rw [withoutEvents_reached, withoutEvents_entered, withoutEvents_append,
        withoutEvents_entered]
      exact .invoke (G := G.unhooked) ht (calls_unhooked_enters h) (getElem?_unhooked hentry) ihcall
        (getElem?_unhooked hblock) ihrest
  | @invokeThrows _ _ _ _ _ _ G _ _ _ _ _ ht h hentry hcall hblock hrest ihcall ihrest =>
      rw [withoutEvents_reached, withoutEvents_entered, withoutEvents_append,
        withoutEvents_entered]
      exact .invokeThrows (G := G.unhooked) ht (calls_unhooked_enters h) (getElem?_unhooked hentry)
        ihcall (getElem?_unhooked hblock) ihrest

/-- The same of a run that is seen up to some point. -/
theorem Begins.unhooked {F : Function} {k : Nat} {rest : List Instr} {t : Terminator}
    {tr : List Label} (h : Begins P F k rest t tr) :
    Begins P.unhooked F.unhooked k (unhookedBody rest) t (withoutEvents tr) := by
  induction h with
  | stops => exact .stops
  | ends h => exact .ends h.unhooked
  | silent h hrest ih =>
      rw [unhookedBody_cons (not_isHook_of_effect h (by simp))]
      exact .silent (by rw [effect_unhooked, h]; rfl) ih
  | hook h hrest ih =>
      rw [unhookedBody_cons_hook (isHook_of_effect h)]
      exact ih
  | runtime h hrest ih =>
      rw [unhookedBody_cons (not_isHook_of_effect h (by simp))]
      exact .runtime (by rw [effect_unhooked, h]; rfl) ih
  | @call _ _ _ _ _ G _ _ _ h hentry hcall hrest ih =>
      rw [unhookedBody_cons (not_isHook_of_effect h (by simp)), withoutEvents_entered,
        withoutEvents_append]
      exact .call (G := G.unhooked) (effect_unhooked_enters h) (getElem?_unhooked hentry)
        hcall.unhooked ih
  | @inside _ _ _ _ _ G _ _ h hentry hcall ih =>
      rw [unhookedBody_cons (not_isHook_of_effect h (by simp)), withoutEvents_entered]
      exact .inside (G := G.unhooked) (effect_unhooked_enters h) (getElem?_unhooked hentry) ih
  | jump h hdest hblock hrest ih =>
      exact .jump (by rw [calls_unhooked, h]; rfl) hdest (getElem?_unhooked hblock) ih
  | jumpRuntime h hdest hblock hrest ih =>
      exact .jumpRuntime (by rw [calls_unhooked, h]; rfl) hdest (getElem?_unhooked hblock) ih
  | @invoke _ _ _ _ _ _ G _ _ _ _ ht h hentry hcall hblock hrest ih =>
      rw [withoutEvents_reached, withoutEvents_entered, withoutEvents_append,
        withoutEvents_entered]
      exact .invoke (G := G.unhooked) ht (calls_unhooked_enters h) (getElem?_unhooked hentry)
        hcall.unhooked (getElem?_unhooked hblock) ih
  | @invokeThrows _ _ _ _ _ _ G _ _ _ _ ht h hentry hcall hblock hrest ih =>
      rw [withoutEvents_reached, withoutEvents_entered, withoutEvents_append,
        withoutEvents_entered]
      exact .invokeThrows (G := G.unhooked) ht (calls_unhooked_enters h) (getElem?_unhooked hentry)
        hcall.unhooked (getElem?_unhooked hblock) ih
  | @invokeInside _ _ _ _ _ _ G _ _ ht h hentry hcall ih =>
      exact .invokeInside (G := G.unhooked) ht (calls_unhooked_enters h)
        (getElem?_unhooked hentry) ih

section Hookable

variable {R : Function → List Instr → List Label → Prop}

variable (P) in
/-- What can be run from a position (`R`) can be run from in front of a hook call, with its event
in addition. -/
def RunsHooks (R : Function → List Instr → List Label → Prop) : Prop :=
  ∀ {F : Function} {i : Instr} {rest : List Instr} {e : Event} {tr : List Label},
    P.effect i = .hook e → R F rest tr → R F (i :: rest) (.event e :: tr)

/-- Hook calls in front of a run add events and nothing else. -/
theorem RunsHooks.after_hooks (hR : RunsHooks P R) {F : Function} {rest : List Instr}
    {tr : List Label} (h : R F rest tr) {hooks : List Instr}
    (hhooks : ∀ i ∈ hooks, i.isHook = true) :
    ∃ tr', R F (hooks ++ rest) tr' ∧ withoutEvents tr' = withoutEvents tr := by
  induction hooks with
  | nil => exact ⟨tr, h, rfl⟩
  | cons i hooks ih =>
      rcases ih fun j hj => hhooks j (by simp [hj]) with ⟨tr', hruns, htr'⟩
      rcases event_of_isHook (hhooks i (by simp)) with ⟨e, he⟩
      exact ⟨.event e :: tr', hR (effect_of_isHook he) hruns, htr'⟩

/-- What the program without its hook calls does from a position can be done with them too, up to
the events. -/
def Hookable (R : Function → List Instr → List Label → Prop) (F₀ : Function) (rest₀ : List Instr)
    (tr₀ : List Label) : Prop :=
  ∀ F rest, F.unhooked = F₀ → unhookedBody rest = rest₀ →
    ∃ tr, R F rest tr ∧ withoutEvents tr = tr₀

/-- From the entry of a block. -/
theorem Hookable.block {F : Function} {k : Nat} {bb : BasicBlock} {tr : List Label}
    (h : Hookable R F.unhooked bb.body tr) (hblock : F.unhooked.blocks[k]? = some bb) :
    ∃ bb' tr', F.blocks[k]? = some bb' ∧ bb = bb'.unhooked ∧ R F bb'.body tr' ∧
      withoutEvents tr' = tr := by
  rcases of_getElem?_unhooked hblock with ⟨bb', hbb', rfl⟩
  rcases h F bb'.body rfl rfl with ⟨tr', hruns, htr'⟩
  exact ⟨bb', tr', hbb', rfl, hruns, htr'⟩

/-- An instruction that is left, when the rest of its block can be run. -/
theorem Hookable.cons (hR : RunsHooks P R) {F₀ : Function} {i : Instr} {rest₀ : List Instr}
    {tr₀ : List Label}
    (h : ∀ F rest, F.unhooked = F₀ → unhookedBody rest = rest₀ → i.isHook = false →
      ∃ tr, R F (i :: rest) tr ∧ withoutEvents tr = tr₀) :
    Hookable R F₀ (i :: rest₀) tr₀ := by
  intro F rest hF hrest
  -- The hook calls in front of the instruction are run first.
  rcases unhookedBody_eq_cons hrest with ⟨hooks, behind, rfl, hhooks, hi, hbehind⟩
  rcases h F behind hF hbehind hi with ⟨tr, hruns, htr⟩
  rcases hR.after_hooks hruns hhooks with ⟨tr', hruns', htr'⟩
  exact ⟨tr', hruns', htr'.trans htr⟩

/-- A terminator, with the hook calls in front of it. -/
theorem Hookable.nil (hR : RunsHooks P R) {F₀ : Function} {tr₀ : List Label}
    (h : ∀ F, F.unhooked = F₀ → ∃ tr, R F [] tr ∧ withoutEvents tr = tr₀) :
    Hookable R F₀ [] tr₀ := by
  intro F rest hF hrest
  rcases h F hF with ⟨tr, hruns, htr⟩
  rcases hR.after_hooks hruns (unhookedBody_eq_nil hrest) with ⟨tr', hruns', htr'⟩
  rw [List.append_nil] at hruns'
  exact ⟨tr', hruns', htr'.trans htr⟩

end Hookable

theorem calls_of_unhooked {callee : Option String} {x : Effect} (h : P.unhooked.calls callee = x)
    (hx : ∀ G, x ≠ .enters G) : P.calls callee = x :=
  Effect.unhooked_eq ((calls_unhooked P callee).symm.trans h) hx

section Activations

variable {M : Module}

def Mark.isEvent : Mark → Bool
  | .event _ => true
  | _ => false

def withoutMarkedEvents (tr : List Mark) : List Mark := tr.filter fun m => !m.isEvent

@[simp] theorem withoutMarkedEvents_nil : withoutMarkedEvents [] = [] := rfl

@[simp] theorem withoutMarkedEvents_append (tr tr' : List Mark) :
    withoutMarkedEvents (tr ++ tr') = withoutMarkedEvents tr ++ withoutMarkedEvents tr' :=
  List.filter_append _ _

@[simp] theorem withoutMarkedEvents_event (e : Event) (tr : List Mark) :
    withoutMarkedEvents (.event e :: tr) = withoutMarkedEvents tr := rfl

@[simp] theorem withoutMarkedEvents_runtime (name : String) (tr : List Mark) :
    withoutMarkedEvents (.runtime name :: tr) = .runtime name :: withoutMarkedEvents tr := rfl

@[simp] theorem withoutMarkedEvents_transfers (how : Transfer) (fn : String) (tr : List Mark) :
    withoutMarkedEvents (.transfers how fn :: tr) =
      .transfers how fn :: withoutMarkedEvents tr := rfl

@[simp] theorem withoutMarkedEvents_returns (fn : String) (tr : List Mark) :
    withoutMarkedEvents (.returns fn :: tr) = .returns fn :: withoutMarkedEvents tr := rfl

def Position.unhooked : Position → Position
  | .before F rest t => .before F.unhooked (unhookedBody rest) t
  | .call callee => .call callee

theorem isDeclaration_unhooked_module (M : Module) (name : String) :
    M.unhooked.isDeclaration name = M.isDeclaration name := by
  simp [Module.isDeclaration, Module.unhooked, List.any_map, Function.comp_def, name_unhooked,
    isDeclaration_unhooked]

theorem transfer_unhooked (M : Module) (name : String) :
    M.unhooked.transfer name = M.transfer name := by
  rw [Module.transfer, isDeclaration_unhooked_module]
  rfl

theorem resolve_unhooked_some {name : String} {M : Module} {G : Function}
    (h : P.resolve name = some (M, G)) :
    P.unhooked.resolve name = some (M.unhooked, G.unhooked) := by
  rw [resolve_unhooked, h]
  rfl

theorem of_resolve_unhooked {name : String} {M₀ : Module} {G₀ : Function}
    (h : P.unhooked.resolve name = some (M₀, G₀)) :
    ∃ M G, P.resolve name = some (M, G) ∧ M₀ = M.unhooked ∧ G₀ = G.unhooked := by
  rw [resolve_unhooked] at h
  rcases Option.map_eq_some_iff.1 h with ⟨⟨M, G⟩, hresolve, heq⟩
  rcases Prod.mk.inj heq with ⟨rfl, rfl⟩
  exact ⟨M, G, hresolve, rfl, rfl⟩

theorem Reaches.unhooked {callee : Callee} {how : Transfer} {M' : Module} {G : Function}
    (h : Reaches P M callee how M' G) :
    Reaches P.unhooked M.unhooked callee how M'.unhooked G.unhooked := by
  cases h with
  | @direct name M' G hname h =>
      rw [← transfer_unhooked]
      exact .direct hname (resolve_unhooked_some h)
  | pointer h => exact .pointer (resolve_unhooked_some h)
  | callback houtside h =>
      exact .callback (by rw [calls_unhooked, houtside]; rfl) (resolve_unhooked_some h)

theorem Reaches.of_unhooked {callee : Callee} {how : Transfer} {M₀ : Module} {G₀ : Function}
    (h : Reaches P.unhooked M.unhooked callee how M₀ G₀) :
    ∃ M' G, Reaches P M callee how M' G ∧ M₀ = M'.unhooked ∧ G₀ = G.unhooked := by
  cases h with
  | @direct name M₀ G₀ hname h =>
      rcases of_resolve_unhooked h with ⟨M', G, hresolve, rfl, rfl⟩
      rw [transfer_unhooked]
      exact ⟨M', G, .direct hname hresolve, rfl, rfl⟩
  | pointer h =>
      rcases of_resolve_unhooked h with ⟨M', G, hresolve, rfl, rfl⟩
      exact ⟨M', G, .pointer hresolve, rfl, rfl⟩
  | callback houtside h =>
      rcases of_resolve_unhooked h with ⟨M', G, hresolve, rfl, rfl⟩
      exact ⟨M', G, .callback (calls_of_unhooked houtside (by simp)) hresolve, rfl, rfl⟩

theorem Acts.unhooked {pos : Position} {tr : List Mark} {ending : Ending}
    (h : Acts P M pos tr ending) :
    Acts P.unhooked M.unhooked pos.unhooked (withoutMarkedEvents tr) ending := by
  -- Only calls are hooks.
  have hplain : ∀ {i : Instr}, i.op.callee? = none → i.isHook = false := by
    intro i hi
    refine not_isHook ?_
    cases hop : i.op with
    | call callee args musttail => simp [hop, Opcode.callee?] at hi
    | _ => rfl
  induction h with
  | stops => exact .stops
  | outside h => exact .outside (by rw [calls_unhooked, h]; rfl)
  | runtime h => exact .runtime (by rw [calls_unhooked, h]; rfl)
  | @enters _ _ _ _ G _ _ h hhow hentry hcall ih =>
      rw [withoutMarkedEvents_transfers, withoutMarkedEvents_append]
      exact .enters (G := G.unhooked) h.unhooked hhow (getElem?_unhooked hentry) ih
  | @entersCut _ _ _ _ G _ _ h hentry hcall ih =>
      exact .entersCut (G := G.unhooked) h.unhooked (getElem?_unhooked hentry) ih
  | @callback _ _ _ G _ _ _ _ h hentry hcall hrest ihcall ihrest =>
      rw [withoutMarkedEvents_transfers, withoutMarkedEvents_append, withoutMarkedEvents_returns]
      exact .callback (G := G.unhooked) h.unhooked (getElem?_unhooked hentry) ihcall ihrest
  | plain h hrest ih =>
      rw [Position.unhooked, unhookedBody_cons (hplain h)]
      exact .plain h ih
  | hook h hrest ih =>
      rw [Position.unhooked, unhookedBody_cons_hook (isHook_of_event h)]
      exact ih
  | call h hnone hcall hrest ihcall ihrest =>
      rw [Position.unhooked, unhookedBody_cons (not_isHook hnone), withoutMarkedEvents_append]
      exact .call h hnone ihcall ihrest
  | callCut h hnone hcall ih =>
      rw [Position.unhooked, unhookedBody_cons (not_isHook hnone)]
      exact .callCut h hnone ih
  | ret h => exact .ret h
  | jump h hdest hblock hrest ih => exact .jump h hdest (getElem?_unhooked hblock) ih
  | invoke h hcall hblock hrest ihcall ihrest =>
      rw [withoutMarkedEvents_append]
      exact .invoke h ihcall (getElem?_unhooked hblock) ihrest
  | invokeCut h hcall ih => exact .invokeCut h ih

theorem Acts.after_hooks {F : Function} {rest : List Instr} {t : Terminator} {tr : List Mark}
    {ending : Ending} (h : Acts P M (.before F rest t) tr ending) {hooks : List Instr}
    (hhooks : ∀ i ∈ hooks, i.isHook = true) :
    ∃ tr', Acts P M (.before F (hooks ++ rest) t) tr' ending ∧
      withoutMarkedEvents tr' = withoutMarkedEvents tr := by
  induction hooks with
  | nil => exact ⟨tr, h, rfl⟩
  | cons i hooks ih =>
      rcases ih fun j hj => hhooks j (by simp [hj]) with ⟨tr', hacts, htr'⟩
      rcases event_of_isHook (hhooks i (by simp)) with ⟨e, he⟩
      exact ⟨.event e :: tr', .hook he hacts, htr'⟩

variable (P) in
/-- The same of an activation. -/
def Reenacts (M₀ : Module) (pos₀ : Position) (tr₀ : List Mark) (ending : Ending) : Prop :=
  ∀ M pos, M.unhooked = M₀ → pos.unhooked = pos₀ →
    ∃ tr, Acts P M pos tr ending ∧ withoutMarkedEvents tr = tr₀

theorem Reenacts.block {F : Function} {k : Nat} {bb : BasicBlock} {tr : List Mark}
    {ending : Ending} (h : Reenacts P M.unhooked (.before F.unhooked bb.body bb.term) tr ending)
    (hblock : F.unhooked.blocks[k]? = some bb) :
    ∃ bb' tr', F.blocks[k]? = some bb' ∧ Acts P M (.before F bb'.body bb'.term) tr' ending ∧
      withoutMarkedEvents tr' = tr := by
  rcases of_getElem?_unhooked hblock with ⟨bb', hbb', rfl⟩
  rcases h M (.before F bb'.body bb'.term) rfl rfl with ⟨tr', hacts, htr'⟩
  exact ⟨bb', tr', hbb', hacts, htr'⟩

theorem Reenacts.cons {M₀ : Module} {F₀ : Function} {i : Instr} {rest₀ : List Instr}
    {t : Terminator} {tr₀ : List Mark} {ending : Ending}
    (h : ∀ M F rest, M.unhooked = M₀ → F.unhooked = F₀ → unhookedBody rest = rest₀ →
      i.isHook = false →
        ∃ tr, Acts P M (.before F (i :: rest) t) tr ending ∧ withoutMarkedEvents tr = tr₀) :
    Reenacts P M₀ (.before F₀ (i :: rest₀) t) tr₀ ending := by
  intro M pos hM hpos
  cases pos with
  | call callee => cases hpos
  | before F rest t' =>
      rcases Position.before.inj hpos with ⟨hF, hrest, rfl⟩
      rcases unhookedBody_eq_cons hrest with ⟨hooks, behind, rfl, hhooks, hi, hbehind⟩
      rcases h M F behind hM hF hbehind hi with ⟨tr, hacts, htr⟩
      rcases hacts.after_hooks hhooks with ⟨tr', hacts', htr'⟩
      exact ⟨tr', hacts', htr'.trans htr⟩

theorem Reenacts.nil {M₀ : Module} {F₀ : Function} {t : Terminator} {tr₀ : List Mark}
    {ending : Ending}
    (h : ∀ M F, M.unhooked = M₀ → F.unhooked = F₀ →
      ∃ tr, Acts P M (.before F [] t) tr ending ∧ withoutMarkedEvents tr = tr₀) :
    Reenacts P M₀ (.before F₀ [] t) tr₀ ending := by
  intro M pos hM hpos
  cases pos with
  | call callee => cases hpos
  | before F rest t' =>
      rcases Position.before.inj hpos with ⟨hF, hrest, rfl⟩
      rcases h M F hM hF with ⟨tr, hacts, htr⟩
      rcases hacts.after_hooks (unhookedBody_eq_nil hrest) with ⟨tr', hacts', htr'⟩
      rw [List.append_nil] at hacts'
      exact ⟨tr', hacts', htr'.trans htr⟩

/-- At a call there is no hook call to put back. -/
theorem Reenacts.call {M₀ : Module} {callee : Callee} {tr₀ : List Mark} {ending : Ending}
    (h : ∀ M, M.unhooked = M₀ →
      ∃ tr, Acts P M (.call callee) tr ending ∧ withoutMarkedEvents tr = tr₀) :
    Reenacts P M₀ (.call callee) tr₀ ending := by
  intro M pos hM hpos
  cases pos with
  | before F rest t => cases hpos
  | call callee' =>
      obtain rfl : callee' = callee := Position.call.inj hpos
      exact h M hM

theorem Reenacts.at_call {callee : Callee} {tr₀ : List Mark} {ending : Ending}
    (h : Reenacts P M.unhooked (.call callee) tr₀ ending) :
    ∃ tr, Acts P M (.call callee) tr ending ∧ withoutMarkedEvents tr = tr₀ :=
  h M (.call callee) rfl rfl

/-- The induction over activations of the program without its hook calls. -/
theorem Acts.reenacts {M₀ : Module} {pos₀ : Position} {tr₀ : List Mark} {ending : Ending}
    (h : Acts P.unhooked M₀ pos₀ tr₀ ending) : Reenacts P M₀ pos₀ tr₀ ending := by
  induction h with
  | stops => exact fun _ _ _ _ => ⟨[], .stops, rfl⟩
  | outside h =>
      exact .call fun _ _ => ⟨[], .outside (calls_of_unhooked h (by simp)), rfl⟩
  | @runtime _ _ name h =>
      exact .call fun _ _ => ⟨[.runtime name], .runtime (calls_of_unhooked h (by simp)), rfl⟩
  | enters h hhow hentry hcall ih =>
      refine .call fun M hM => ?_
      subst hM
      rcases h.of_unhooked with ⟨M', G, hreaches, rfl, rfl⟩
      rcases ih.block hentry with ⟨bb, tr, hbb, hacts, rfl⟩
      refine ⟨_, .enters hreaches hhow hbb hacts, ?_⟩
      simp [name_unhooked]
  | entersCut h hentry hcall ih =>
      refine .call fun M hM => ?_
      subst hM
      rcases h.of_unhooked with ⟨M', G, hreaches, rfl, rfl⟩
      rcases ih.block hentry with ⟨bb, tr, hbb, hacts, rfl⟩
      exact ⟨_, .entersCut hreaches hbb hacts, rfl⟩
  | callback h hentry hcall hrest ihcall ihrest =>
      refine .call fun M hM => ?_
      subst hM
      rcases h.of_unhooked with ⟨M', G, hreaches, rfl, rfl⟩
      rcases ihcall.block hentry with ⟨bb, tr₁, hbb, hacts₁, rfl⟩
      rcases ihrest.at_call with ⟨tr₂, hacts₂, rfl⟩
      refine ⟨_, .callback hreaches hbb hacts₁ hacts₂, ?_⟩
      simp [name_unhooked]
  | plain h hrest ih =>
      refine .cons fun M F rest hM hF hrest' _ => ?_
      rcases ih M (.before F rest _) hM (by rw [Position.unhooked, hF, hrest']) with
        ⟨tr, hacts, rfl⟩
      exact ⟨tr, .plain h hacts, rfl⟩
  | hook h hrest ih =>
      refine .cons fun M F rest _ _ _ hi => ?_
      rw [isHook_of_event h] at hi
      cases hi
  | call h hnone hcall hrest ihcall ihrest =>
      refine .cons fun M F rest hM hF hrest' _ => ?_
      subst hM
      rcases ihcall.at_call with ⟨tr₁, hacts₁, rfl⟩
      rcases ihrest M (.before F rest _) rfl (by rw [Position.unhooked, hF, hrest']) with
        ⟨tr₂, hacts₂, rfl⟩
      exact ⟨tr₁ ++ tr₂, .call h hnone hacts₁ hacts₂, withoutMarkedEvents_append _ _⟩
  | callCut h hnone hcall ih =>
      refine .cons fun M F rest hM hF hrest' _ => ?_
      subst hM
      rcases ih.at_call with ⟨tr, hacts, rfl⟩
      exact ⟨tr, .callCut h hnone hacts, rfl⟩
  | ret h => exact .nil fun M F _ _ => ⟨[], .ret h, rfl⟩
  | jump h hdest hblock hrest ih =>
      refine .nil fun M F hM hF => ?_
      subst hM hF
      rcases ih.block hblock with ⟨bb, tr, hbb, hacts, rfl⟩
      exact ⟨tr, .jump h hdest hbb hacts, rfl⟩
  | invoke h hcall hblock hrest ihcall ihrest =>
      refine .nil fun M F hM hF => ?_
      subst hM hF
      rcases ihcall.at_call with ⟨tr₁, hacts₁, rfl⟩
      rcases ihrest.block hblock with ⟨bb, tr₂, hbb, hacts₂, rfl⟩
      exact ⟨tr₁ ++ tr₂, .invoke h hacts₁ hbb hacts₂, withoutMarkedEvents_append _ _⟩
  | invokeCut h hcall ih =>
      refine .nil fun M F hM hF => ?_
      subst hM
      rcases ih.at_call with ⟨tr, hacts, rfl⟩
      exact ⟨tr, .invokeCut h hacts, rfl⟩

end Activations

/-! ## Instrumented programs -/

section Instrumented

variable {M : Module} {bb : BasicBlock} {F : Function}

theorem unhookedBody_eq_self {body : List Instr} (h : ∀ i ∈ body, hookEvent? i.op = none) :
    unhookedBody body = body := by
  rw [unhookedBody, List.filter_eq_self]
  intro i hi
  simp [not_isHook (h i hi)]

theorem unhooked_eq_self (h : ∀ bb ∈ F.blocks, ∀ i ∈ bb.body, hookEvent? i.op = none) :
    F.unhooked = F := by
  have hblocks : F.blocks.map BasicBlock.unhooked = F.blocks.map id :=
    List.map_congr_left fun bb hbb => congrArg (BasicBlock.mk · bb.term)
      (unhookedBody_eq_self (h bb hbb))
  rw [Function.unhooked, hblocks, List.map_id]

theorem unhookedBody_walked (M : Module) (bbID : UInt64) {body : List Instr}
    (h : ∀ i ∈ body, hookEvent? i.op = none) : unhookedBody (walked M bbID body) = body := by
  induction body with
  | nil => rfl
  | cons i rest ih =>
      have hi : i.isHook = false := not_isHook (h i (by simp))
      have hrest := ih fun j hj => h j (by simp [hj])
      rw [walked, List.flatMap_cons, ← walked, unhookedBody_append, hrest]
      split
      · rw [unhookedBody_cons_hook rfl, unhookedBody_cons hi]
        rfl
      · rw [unhookedBody_cons hi]
        rfl

theorem unhookedBody_edgeHook (bb : BasicBlock) : unhookedBody (edgeHook bb) = [] := by
  unfold edgeHook
  split
  · rfl
  · split <;> rfl

theorem unhookedBody_invokeHook (M : Module) (bb : BasicBlock) :
    unhookedBody (invokeHook M bb) = [] := by
  unfold invokeHook
  split <;> rfl

theorem unhooked_instrumentedBlock (h : ∀ i ∈ bb.body, hookEvent? i.op = none) :
    (instrumentedBlock M bb).unhooked = bb := by
  rw [BasicBlock.unhooked, instrumentedBlock, unhookedBody_append, unhookedBody_append,
    unhookedBody_walked M _ h, unhookedBody_edgeHook, unhookedBody_invokeHook, List.append_nil,
    List.append_nil]

theorem unhooked_run (h : ∀ bb ∈ F.blocks, ∀ i ∈ bb.body, hookEvent? i.op = none) :
    (run M F).1.unhooked = F := by
  cases hname : isRuntime F.name with
  | false =>
      have hblocks : F.blocks.map (BasicBlock.unhooked ∘ instrumentedBlock M) = F.blocks.map id :=
        List.map_congr_left fun bb hbb => unhooked_instrumentedBlock (h bb hbb)
      rw [run_fst M hname, Function.unhooked, List.map_map, hblocks, List.map_id]
  | true =>
      -- The pass does not touch the function.
      have hrun : (run M F).1 = F := by
        rw [run, hname]
        split <;> rfl
      rw [hrun, unhooked_eq_self h]

/-- Taking the hook calls out of the instrumented program gives the source back. -/
theorem unhooked_instrumented (hfree : HookFree P) : P.instrumented.unhooked = P := by
  have hmodule : ∀ M ∈ P, (runModule M).unhooked = M := by
    intro M hM
    have hfunctions : M.functions.map (Function.unhooked ∘ fun F => (run M F).1) =
        M.functions.map id :=
      List.map_congr_left fun F hF => unhooked_run (hfree M hM F hF)
    rw [Module.unhooked, runModule, List.map_map, hfunctions, List.map_id]
  -- Module by module, and in each function by function and block by block.
  have hmodules : P.map (Module.unhooked ∘ runModule) = P.map id := List.map_congr_left hmodule
  rw [Program.instrumented, Program.unhooked, List.map_map, hmodules, List.map_id]

end Instrumented

/-- A finished run of a defined function from its entry. -/
def Finishes (P : Program) (fn : String) (out : Outcome) (tr : List Label) : Prop :=
  ∃ M F bb tr', P.resolve fn = some (M, F) ∧ F.blocks[0]? = some bb ∧
    Runs P F 0 bb.body bb.term tr' out ∧ tr = .entered fn 0 :: tr'

theorem Finishes.starts {fn : String} {out : Outcome} {tr : List Label}
    (h : Finishes P fn out tr) : Starts P fn tr := by
  rcases h with ⟨M, F, bb, tr', hresolve, hentry, hruns, rfl⟩
  exact ⟨M, F, bb, tr', hresolve, hentry, .ends hruns, rfl⟩

theorem activation_unhooked_iff {fn : String} {ending : Ending} {tr₀ : List Mark} :
    Activation P.unhooked fn tr₀ ending ↔
      ∃ tr, Activation P fn tr ending ∧ withoutMarkedEvents tr = tr₀ := by
  constructor
  · rintro ⟨M₀, F₀, bb₀, hresolve, hentry, hacts⟩
    rcases of_resolve_unhooked hresolve with ⟨M, F, hresolve', rfl, rfl⟩
    rcases hacts.reenacts.block hentry with ⟨bb, tr, hbb, hacts', rfl⟩
    exact ⟨tr, ⟨M, F, bb, hresolve', hbb, hacts'⟩, rfl⟩
  · rintro ⟨tr, ⟨M, F, bb, hresolve, hentry, hacts⟩, rfl⟩
    exact ⟨_, _, _, resolve_unhooked_some hresolve, getElem?_unhooked hentry, hacts.unhooked⟩

def Program.WellFormed (P : Program) : Prop := ∀ M ∈ P, ∀ F ∈ M.functions, F.WellFormed

instance (P : Program) : Decidable P.WellFormed :=
  inferInstanceAs (Decidable (∀ M ∈ P, ∀ F ∈ M.functions, F.WellFormed))

/-- What the pass needs of a program: its functions are well formed, they call no hook, and unless
the pass skips them they have neither a `musttail` call nor a `catchswitch`. -/
structure Instrumentable (P : Program) : Prop where
  wellFormed : P.WellFormed
  hookFree : HookFree P
  apart : ∀ M ∈ P, ∀ F ∈ M.functions, isRuntime F.name = true ∨ ∀ bb ∈ F.blocks, bb.Apart

theorem Instrumentable.wellFormed_run (h : Instrumentable P) {M : Module} (hM : M ∈ P)
    {F : Function} (hF : F ∈ M.functions) : (run M F).1.WellFormed :=
  (run_wellFormed_iff M F (h.wellFormed M hM F hF)).2 (h.apart M hM F hF)

theorem Instrumentable.wellFormed_instrumented (h : Instrumentable P) :
    P.instrumented.WellFormed := by
  intro N hN G hG
  rcases List.mem_map.1 hN with ⟨M, hM, rfl⟩
  rcases List.mem_map.1 hG with ⟨F, hF, rfl⟩
  exact h.wellFormed_run hM hF

/-- Of runs that need not finish: the instrumented program hands control over and takes it back in
the ways in which the source does, and its runs can be cut at the same points. -/
theorem instrumented_activation_iff (h : Instrumentable P) :
    P.instrumented.WellFormed ∧ ∀ (fn : String) (ending : Ending) (tr₀ : List Mark),
      Activation P fn tr₀ ending ↔
        ∃ tr, Activation P.instrumented fn tr ending ∧ withoutMarkedEvents tr = tr₀ := by
  refine ⟨h.wellFormed_instrumented, fun fn ending tr₀ => ?_⟩
  have hunhooked := @activation_unhooked_iff P.instrumented fn ending tr₀
  rwa [unhooked_instrumented h.hookFree] at hunhooked

theorem instrumentable_twoReturns : Instrumentable twoReturns where
  wellFormed := by decide
  hookFree := hookFree_twoReturns
  apart := by decide

/-- The run that returns from block 1. -/
theorem instrumented_activation_iff_twoReturns :
    ∃ tr, Activation twoReturns.instrumented "main" tr .returned ∧ withoutMarkedEvents tr = [] :=
  ((instrumented_activation_iff instrumentable_twoReturns).2 "main" .returned []).1
    ⟨_, _, _, rfl, rfl, .plain rfl (.jump (k := 1) rfl (by simp [TermOpcode.successors]) rfl
      (.plain rfl (.ret rfl)))⟩

end Pass
end CFlat
