import CFlat.SecureWorld.Commands

/-!
# Dispatch — raw parameters and the command dispatcher

`TA_InvokeCommandEntryPoint` as the trusted application receives it: a command id, a word of
parameter types and four parameters.  A 64-bit id travels as two 32-bit values; `joinId_split`
says that the dispatcher puts together what the client took apart, and `dispatch_eventOperation`
that a marshalled event reaches its handler unchanged.  Under raw calls a session goes through the
states of the commands that they decode to (`run_invoke`).
-/

namespace CFlat
namespace SecureWorld

open Lib

/-! ## Parameters -/

/-- One parameter; `a` and `b` are read when its type is a value, `memref` when it is a memory
reference. -/
structure Param where
  a : UInt32
  b : UInt32
  memref : Memref
  deriving DecidableEq, Repr

def Param.none : Param := ⟨0, 0, ⟨[], 0⟩⟩

/-- The parameters of a call, with their types (`TEEC_Operation`). -/
structure Operation where
  paramTypes : UInt32
  params : Vector Param 4
  deriving DecidableEq, Repr

def paramTypeNone : UInt32 := 0
def paramTypeValueInput : UInt32 := 1
def paramTypeMemrefOutput : UInt32 := 6

/-- `TEEC_PARAM_TYPES`. -/
def paramTypesOf (t₀ t₁ t₂ t₃ : UInt32) : UInt32 :=
  t₀ ||| (t₁ <<< 4) ||| (t₂ <<< 8) ||| (t₃ <<< 12)

/-- `TEE_PARAM_TYPE_GET`. -/
def teeParamTypeGet (paramTypes : UInt32) (i : UInt32) : UInt32 := (paramTypes >>> (i * 4)) &&& 0xF

/-- The two halves of an id, as the client sends them. -/
def lowWord (id : UInt64) : UInt32 := (id &&& 0xFFFFFFFF).toUInt32

def highWord (id : UInt64) : UInt32 := (id >>> 32).toUInt32

/-- An id from its two halves, as the dispatcher reads it. -/
def joinId (p : Param) : UInt64 := p.a.toUInt64 ||| (p.b.toUInt64 <<< 32)

def Param.value (id : UInt64) : Param := { Param.none with a := lowWord id, b := highWord id }

/-- A word is its low half below its high half.  The bits are compared one by one. -/
theorem nat_split_lor {n : Nat} (h : n < 2 ^ 64) :
    n % 2 ^ 32 &&& 0xFFFFFFFF ||| ((n >>> 32) % 2 ^ 32) <<< 32 % 2 ^ 64 = n := by
  have hmask : 0xFFFFFFFF = 2 ^ 32 - 1 := rfl
  apply Nat.eq_of_testBit_eq
  intro i
  rw [hmask]
  simp only [Nat.testBit_or, Nat.testBit_mod_two_pow, Nat.testBit_and, Nat.testBit_shiftLeft,
    Nat.testBit_shiftRight, Nat.testBit_two_pow_sub_one]
  by_cases hlow : i < 32
  · simp [hlow, Nat.not_le.2 hlow]
  · by_cases hhigh : i < 64
    · have hi : 32 + (i - 32) = i := by omega
      have hi' : i - 32 < 32 := by omega
      simp [hlow, hhigh, hi, hi', Nat.not_lt.1 hlow]
    · have hzero : n.testBit i = false :=
        Nat.testBit_lt_two_pow (Nat.lt_of_lt_of_le h (Nat.pow_le_pow_right (by decide) (by omega)))
      simp [hlow, hhigh, hzero]

@[simp] theorem joinId_split (id : UInt64) : joinId (.value id) = id := by
  apply UInt64.toNat_inj.1
  have hsplit := nat_split_lor id.toNat_lt
  simpa [joinId, Param.value, lowWord, highWord] using hsplit

/-! ## The dispatcher -/

def commandInit : UInt32 := 0
def commandRecordNode : UInt32 := 1
def commandLoopEnter : UInt32 := 2
def commandLoopExit : UInt32 := 3
def commandLoopIteration : UInt32 := 4
def commandCallEnter : UInt32 := 5
def commandCallReturn : UInt32 := 6
def commandFinalize : UInt32 := 7
def commandGetAuth : UInt32 := 8
def commandGetLog : UInt32 := 9

variable {D : Type} (H : Sha256 D)

/-- `TA_InvokeCommandEntryPoint`: the result, the parameters as the call leaves them and the
session context.  `alloc` is what `TEE_AllocateOperation` does, should it be called. -/
def taInvokeCommandEntryPoint (alloc : AllocOutcome) (ctx : SessionCtx D) (cmdId : UInt32)
    (op : Operation) : (TeeResult × Vector Param 4) × SessionCtx D :=
  let isValue (i : UInt32) : Bool := teeParamTypeGet op.paramTypes i == paramTypeValueInput
  let isMemref (i : UInt32) : Bool := teeParamTypeGet op.paramTypes i == paramTypeMemrefOutput
  let refuse := ((TeeResult.badParameters, op.params), ctx)
  let plain (out : TeeResult × SessionCtx D) := ((out.1, op.params), out.2)
  let withMemref (out : TeeResult × Memref) :=
    ((out.1, op.params.set 0 { op.params[0] with memref := out.2 }), ctx)
  if cmdId = commandInit then plain (cmdInit H alloc ctx)
  else if cmdId = commandRecordNode then
    if !isValue 0 then refuse else plain (cmdRecordNode H ctx (joinId op.params[0]))
  else if cmdId = commandLoopEnter then
    if !isValue 0 then refuse else plain (cmdLoopEnter H ctx (joinId op.params[0]))
  else if cmdId = commandLoopExit then
    if !isValue 0 then refuse else plain (cmdLoopExit ctx (joinId op.params[0]))
  else if cmdId = commandLoopIteration then
    if !isValue 0 then refuse else plain (cmdLoopIteration ctx (joinId op.params[0]))
  else if cmdId = commandCallEnter then
    -- Both ids travel in value parameters.
    if !isValue 0 || !isValue 1 then refuse
    else plain (cmdCallEnter ctx (joinId op.params[0]) (joinId op.params[1]))
  else if cmdId = commandCallReturn then
    if !isValue 0 then refuse else plain (cmdCallReturn ctx (joinId op.params[0]))
  else if cmdId = commandFinalize then plain (cmdFinalize H ctx)
  else if cmdId = commandGetAuth then
    if !isMemref 0 then refuse else withMemref (cmdGetAuth ctx op.params[0].memref)
  else if cmdId = commandGetLog then
    if !isMemref 0 then refuse else withMemref (cmdGetLog ctx op.params[0].memref)
  -- An unknown command id.
  else refuse

/-- The buffer of the first parameter. -/
def firstMemref (params : Vector Param 4) : Memref := params[0].memref

/-! ## Marshalled commands -/

/-- No parameters. -/
def emptyOperation : Operation where
  paramTypes := paramTypesOf paramTypeNone paramTypeNone paramTypeNone paramTypeNone
  params := Vector.replicate 4 .none

/-- One id in the first parameter. -/
def idOperation (id : UInt64) : Operation where
  paramTypes := paramTypesOf paramTypeValueInput paramTypeNone paramTypeNone paramTypeNone
  params := #v[.value id, .none, .none, .none]

/-- Two ids in the first two parameters. -/
def idPairOperation (id₀ id₁ : UInt64) : Operation where
  paramTypes := paramTypesOf paramTypeValueInput paramTypeValueInput paramTypeNone paramTypeNone
  params := #v[.value id₀, .value id₁, .none, .none]

/-- A buffer for the reply in the first parameter. -/
def memrefOperation (out : Memref) : Operation where
  paramTypes := paramTypesOf paramTypeMemrefOutput paramTypeNone paramTypeNone paramTypeNone
  params := #v[{ Param.none with memref := out }, .none, .none, .none]

/-- The command id of an event. -/
def eventCommand : Event → UInt32
  | .recordNode _ => commandRecordNode
  | .loopEnter _ => commandLoopEnter
  | .loopExit _ => commandLoopExit
  | .loopIteration _ => commandLoopIteration
  | .callEnter _ _ => commandCallEnter
  | .callReturn _ => commandCallReturn

/-- The parameters of an event. -/
def eventOperation : Event → Operation
  | .recordNode nodeId => idOperation nodeId
  | .loopEnter loopId => idOperation loopId
  | .loopExit loopId => idOperation loopId
  | .loopIteration loopId => idOperation loopId
  | .callEnter callId caller => idPairOperation callId caller
  | .callReturn callId => idOperation callId

variable {H}

theorem dispatch_init (alloc : AllocOutcome) (ctx : SessionCtx D) (op : Operation) :
    taInvokeCommandEntryPoint H alloc ctx commandInit op =
      (((cmdInit H alloc ctx).1, op.params), (cmdInit H alloc ctx).2) := rfl

theorem dispatch_finalize (alloc : AllocOutcome) (ctx : SessionCtx D) (op : Operation) :
    taInvokeCommandEntryPoint H alloc ctx commandFinalize op =
      (((cmdFinalize H ctx).1, op.params), (cmdFinalize H ctx).2) := rfl

theorem dispatch_getAuth (alloc : AllocOutcome) (ctx : SessionCtx D) (out : Memref) :
    taInvokeCommandEntryPoint H alloc ctx commandGetAuth (memrefOperation out) =
      (((cmdGetAuth ctx out).1,
        #v[{ Param.none with memref := (cmdGetAuth ctx out).2 }, .none, .none, .none]), ctx) := by
  have htype : teeParamTypeGet (memrefOperation out).paramTypes 0 = paramTypeMemrefOutput := by
    simp only [memrefOperation]
    decide
  simp [taInvokeCommandEntryPoint, commandGetAuth, commandInit, commandRecordNode,
    commandLoopEnter, commandLoopExit, commandLoopIteration, commandCallEnter, commandCallReturn,
    commandFinalize, htype]
  exact ⟨rfl, rfl⟩

theorem dispatch_getLog (alloc : AllocOutcome) (ctx : SessionCtx D) (out : Memref) :
    taInvokeCommandEntryPoint H alloc ctx commandGetLog (memrefOperation out) =
      (((cmdGetLog ctx out).1,
        #v[{ Param.none with memref := (cmdGetLog ctx out).2 }, .none, .none, .none]), ctx) := by
  have htype : teeParamTypeGet (memrefOperation out).paramTypes 0 = paramTypeMemrefOutput := by
    simp only [memrefOperation]
    decide
  simp [taInvokeCommandEntryPoint, commandGetLog, commandGetAuth, commandInit, commandRecordNode,
    commandLoopEnter, commandLoopExit, commandLoopIteration, commandCallEnter, commandCallReturn,
    commandFinalize, htype]
  exact ⟨rfl, rfl⟩

theorem paramTypeGet_idOperation (id : UInt64) :
    teeParamTypeGet (idOperation id).paramTypes 0 = paramTypeValueInput := by
  simp only [idOperation]
  decide

theorem paramTypeGet_idPairOperation (id₀ id₁ : UInt64) :
    teeParamTypeGet (idPairOperation id₀ id₁).paramTypes 0 = paramTypeValueInput ∧
      teeParamTypeGet (idPairOperation id₀ id₁).paramTypes 1 = paramTypeValueInput := by
  simp only [idPairOperation]
  decide

theorem params_idOperation (id : UInt64) : (idOperation id).params[0] = .value id := rfl

theorem params_idPairOperation (id₀ id₁ : UInt64) :
    (idPairOperation id₀ id₁).params[0] = .value id₀ ∧
      (idPairOperation id₀ id₁).params[1] = .value id₁ := ⟨rfl, rfl⟩

/-! ## Decoding -/

/-- The command that a raw call asks for, if its id and its parameter types are accepted. -/
def decode (alloc : AllocOutcome) (cmdId : UInt32) (op : Operation) : Option Cmd :=
  let isValue (i : UInt32) : Bool := teeParamTypeGet op.paramTypes i == paramTypeValueInput
  let isMemref (i : UInt32) : Bool := teeParamTypeGet op.paramTypes i == paramTypeMemrefOutput
  if cmdId = commandInit then some (.init alloc)
  else if cmdId = commandRecordNode then
    if !isValue 0 then none else some (.event (.recordNode (joinId op.params[0])))
  else if cmdId = commandLoopEnter then
    if !isValue 0 then none else some (.event (.loopEnter (joinId op.params[0])))
  else if cmdId = commandLoopExit then
    if !isValue 0 then none else some (.event (.loopExit (joinId op.params[0])))
  else if cmdId = commandLoopIteration then
    if !isValue 0 then none else some (.event (.loopIteration (joinId op.params[0])))
  else if cmdId = commandCallEnter then
    if !isValue 0 || !isValue 1 then none
    else some (.event (.callEnter (joinId op.params[0]) (joinId op.params[1])))
  else if cmdId = commandCallReturn then
    if !isValue 0 then none else some (.event (.callReturn (joinId op.params[0])))
  else if cmdId = commandFinalize then some .finalize
  else if cmdId = commandGetAuth then
    if !isMemref 0 then none else some (.getAuth op.params[0].memref)
  else if cmdId = commandGetLog then
    if !isMemref 0 then none else some (.getLog op.params[0].memref)
  else none

/-- The parameters after a command: a getter's reply goes into the first one. -/
def returned (op : Operation) : Option Memref → Vector Param 4
  | none => op.params
  | some out => op.params.set 0 { op.params[0] with memref := out }

/-- A decoded command as the dispatcher serves it. -/
def serve (H : Sha256 D) (ctx : SessionCtx D) (op : Operation) :
    Option Cmd → (TeeResult × Vector Param 4) × SessionCtx D
  | none => ((.badParameters, op.params), ctx)
  | some cmd =>
      (((exec H ctx cmd).1.result, returned op (exec H ctx cmd).1.out), (exec H ctx cmd).2)

/-- The dispatcher serves the command that it decodes. -/
theorem dispatch_eq (alloc : AllocOutcome) (ctx : SessionCtx D) (cmdId : UInt32) (op : Operation) :
    taInvokeCommandEntryPoint H alloc ctx cmdId op = serve H ctx op (decode alloc cmdId op) := by
  simp only [taInvokeCommandEntryPoint, decode, apply_ite (serve H ctx op)]
  rfl

/-- What becomes of a decoded command. -/
def execDecoded (H : Sha256 D) (ctx : SessionCtx D) : Option Cmd → TeeResult × SessionCtx D
  | none => (.badParameters, ctx)
  | some cmd => ((exec H ctx cmd).1.result, (exec H ctx cmd).2)

/-- The result of a call and the context it leaves. -/
def outcome (out : (TeeResult × Vector Param 4) × SessionCtx D) : TeeResult × SessionCtx D :=
  (out.1.1, out.2)

/-- The dispatcher executes the command that it decodes, and refuses what it cannot decode. -/
theorem dispatch_decode (alloc : AllocOutcome) (ctx : SessionCtx D) (cmdId : UInt32)
    (op : Operation) :
    outcome (taInvokeCommandEntryPoint H alloc ctx cmdId op) =
      execDecoded H ctx (decode alloc cmdId op) := by
  rw [dispatch_eq]
  cases decode alloc cmdId op with
  | none => rfl
  | some cmd => rfl

/-- A command that carries one id decodes to the event of that id. -/
theorem decode_idOperation {alloc : AllocOutcome} {cmdId : UInt32} {f : UInt64 → Event}
    (h : ∀ op, decode alloc cmdId op =
      if !(teeParamTypeGet op.paramTypes 0 == paramTypeValueInput) then none
      else some (.event (f (joinId op.params[0]))))
    (id : UInt64) : decode alloc cmdId (idOperation id) = some (.event (f id)) := by
  rw [h, paramTypeGet_idOperation, params_idOperation, joinId_split]
  rfl

theorem decode_callEnter (alloc : AllocOutcome) (op : Operation) :
    decode alloc commandCallEnter op =
      if !(teeParamTypeGet op.paramTypes 0 == paramTypeValueInput) ||
          !(teeParamTypeGet op.paramTypes 1 == paramTypeValueInput) then none
      else some (.event (.callEnter (joinId op.params[0]) (joinId op.params[1]))) := rfl

/-- A marshalled event decodes to itself. -/
@[simp] theorem decode_eventOperation (alloc : AllocOutcome) (e : Event) :
    decode alloc (eventCommand e) (eventOperation e) = some (.event e) := by
  cases e with
  | recordNode nodeId => exact decode_idOperation (fun _ => rfl) nodeId
  | loopEnter loopId => exact decode_idOperation (fun _ => rfl) loopId
  | loopExit loopId => exact decode_idOperation (fun _ => rfl) loopId
  | loopIteration loopId => exact decode_idOperation (fun _ => rfl) loopId
  | callReturn callId => exact decode_idOperation (fun _ => rfl) callId
  | callEnter callId caller =>
      rcases paramTypeGet_idPairOperation callId caller with ⟨htype₀, htype₁⟩
      rcases params_idPairOperation callId caller with ⟨hparam₀, hparam₁⟩
      rw [eventCommand, eventOperation, decode_callEnter, htype₀, htype₁, hparam₀, hparam₁,
        joinId_split, joinId_split]
      rfl

/-- A marshalled event reaches its handler with its ids. -/
theorem dispatch_eventOperation (alloc : AllocOutcome) (ctx : SessionCtx D) (e : Event) :
    taInvokeCommandEntryPoint H alloc ctx (eventCommand e) (eventOperation e) =
      (((handle H ctx e).1, (eventOperation e).params), (handle H ctx e).2) := by
  rw [dispatch_eq, decode_eventOperation]
  rfl

/-- What a call can decode to, by its command id. -/
inductive DecodeCase (alloc : AllocOutcome) (cmdId : UInt32) (op : Operation) : Cmd → Prop
  | init (h : cmdId = commandInit) : DecodeCase alloc cmdId op (.init alloc)
  | event (e : Event) : DecodeCase alloc cmdId op (.event e)
  | finalize (h : cmdId = commandFinalize) : DecodeCase alloc cmdId op .finalize
  | getAuth (h : cmdId = commandGetAuth) :
      DecodeCase alloc cmdId op (.getAuth (firstMemref op.params))
  | getLog (h : cmdId = commandGetLog) :
      DecodeCase alloc cmdId op (.getLog (firstMemref op.params))

theorem decode_case {alloc : AllocOutcome} {cmdId : UInt32} {op : Operation} {cmd : Cmd}
    (h : decode alloc cmdId op = some cmd) : DecodeCase alloc cmdId op cmd := by
  simp only [decode, ite_eq_iff, reduceCtorEq, and_false, false_or, or_false,
    Option.some.injEq] at h
  -- One alternative for each command id, in the order of the dispatcher.
  rcases h with ⟨hid, rfl⟩ | ⟨-, ⟨-, -, rfl⟩ | ⟨-, ⟨-, -, rfl⟩ | ⟨-, ⟨-, -, rfl⟩ | ⟨-, ⟨-, -, rfl⟩ |
    ⟨-, ⟨-, -, rfl⟩ | ⟨-, ⟨-, -, rfl⟩ | ⟨-, ⟨hid, rfl⟩ | ⟨-, ⟨hid, -, rfl⟩ |
      ⟨-, hid, -, rfl⟩⟩⟩⟩⟩⟩⟩⟩⟩
  · exact .init hid
  · exact .event _
  · exact .event _
  · exact .event _
  · exact .event _
  · exact .event _
  · exact .event _
  · exact .finalize hid
  · exact .getAuth hid
  · exact .getLog hid

theorem decode_init_iff {alloc alloc' : AllocOutcome} {cmdId : UInt32} {op : Operation} :
    decode alloc cmdId op = some (.init alloc') ↔ cmdId = commandInit ∧ alloc' = alloc := by
  constructor
  · intro h
    cases decode_case h with
    | init hid => exact ⟨hid, rfl⟩
  · rintro ⟨rfl, rfl⟩
    rfl

theorem decode_finalize_iff {alloc : AllocOutcome} {cmdId : UInt32} {op : Operation} :
    decode alloc cmdId op = some .finalize ↔ cmdId = commandFinalize := by
  constructor
  · intro h
    cases decode_case h with
    | finalize hid => exact hid
  · rintro rfl
    rfl

theorem decode_getAuth {alloc : AllocOutcome} {cmdId : UInt32} {op : Operation} {out : Memref}
    (h : decode alloc cmdId op = some (.getAuth out)) :
    cmdId = commandGetAuth ∧ out = firstMemref op.params := by
  cases decode_case h with
  | getAuth hid => exact ⟨hid, rfl⟩

theorem decode_getLog {alloc : AllocOutcome} {cmdId : UInt32} {op : Operation} {out : Memref}
    (h : decode alloc cmdId op = some (.getLog out)) :
    cmdId = commandGetLog ∧ out = firstMemref op.params := by
  cases decode_case h with
  | getLog hid => exact ⟨hid, rfl⟩

/-! ## Raw calls -/

/-- A call of the entry point, with what `TEE_AllocateOperation` does in it. -/
structure RawCall where
  alloc : AllocOutcome
  cmdId : UInt32
  op : Operation
  deriving DecidableEq, Repr

def RawCall.decoded (call : RawCall) : Option Cmd := decode call.alloc call.cmdId call.op

/-- The machine of a session under raw calls. -/
def invoke (H : Sha256 D) : Machine (SessionCtx D) RawCall (TeeResult × Vector Param 4) :=
  fun ctx call => taInvokeCommandEntryPoint H call.alloc ctx call.cmdId call.op

theorem invoke_eq (ctx : SessionCtx D) (call : RawCall) :
    invoke H ctx call = serve H ctx call.op call.decoded := dispatch_eq ..

/-- A session under raw calls goes through the states of the commands that they decode to. -/
theorem run_invoke (ctx : SessionCtx D) (calls : List RawCall) :
    (invoke H).run ctx calls = (exec H).run ctx (calls.filterMap RawCall.decoded) := by
  induction calls generalizing ctx with
  | nil => rfl
  | cons call calls ih =>
      rw [Machine.run_cons, ih, invoke_eq, List.filterMap_cons]
      cases call.decoded with
      | none => rfl
      | some cmd => rfl

end SecureWorld
end CFlat
