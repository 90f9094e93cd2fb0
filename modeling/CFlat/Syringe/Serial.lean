import Mathlib.Data.Nat.Digits.Defs
import Mathlib.Tactic.Ring
import CFlat.Lib.Segments
import CFlat.Syringe.Pump

/-!
# Serial — what one loop of the pump does with its input

Between two loops the pump holds the bytes that wait for a terminator.  `LoopCase` says once, for
each way a loop can end, what it does with them; later proofs split these cases.
-/

namespace CFlat
namespace Syringe

open Lib

variable {s : Pump} {l line : List UInt8}

/-! ## Bytes and lines -/

def isTerminator (c : UInt8) : Bool := decide (c < 0x20)

/-- The bytes that `readSerial` stores. -/
def stored (l : List UInt8) : List UInt8 := l.filter fun c => !isTerminator c

/-- The value of a line of digits, the most significant digit first. -/
def decimal (line : List UInt8) : Nat :=
  Nat.ofDigits 10 (line.reverse.map fun c => (c - '0'.toUInt8).toNat)

/-- What a line asks for; an empty line asks for nothing. -/
def interpret (line : List UInt8) : Option Action :=
  match line with
  | [] => none
  | c :: _ =>
      if c = '+'.toUInt8 then some .push
      else if c = '-'.toUInt8 then some .pull
      else if line.all isDigit = true ∧ decimal line ≠ 0 then some (.set (decimal line))
      else some .invalid

@[simp] theorem interpret_nil : interpret [] = none := rfl

/-- A line that starts neither a push nor a pull is read as a number as far as it has digits; the
number must be an `int`. -/
def InRange (line : List UInt8) : Prop :=
  line.head? = some '+'.toUInt8 ∨ line.head? = some '-'.toUInt8 ∨
    decimal (line.takeWhile isDigit) ≤ intMax

instance (line : List UInt8) : Decidable (InRange line) := inferInstanceAs (Decidable (_ ∨ _))

/-! ## Checked accesses -/

section Checked

theorem checked_access (a : Access) : (access a).Checked Access.inBounds :=
  Traced.checked_check a

theorem checked_readSerialLoop (l : List UInt8) (s : Pump) :
    (readSerialLoop l s).Checked Access.inBounds := by
  induction l generalizing s with
  | nil => exact Traced.checked_pure _
  | cons inChar rest ih =>
      exact Traced.Checked.ite (ih _) ((checked_access _).bind fun _ => ih _)

theorem checked_toUIntLoop (l : List UInt8) (result : Nat) :
    (toUIntLoop l result).Checked Access.inBounds := by
  induction l generalizing result with
  | nil => exact Traced.checked_pure _
  | cons c rest ih =>
      exact Traced.Checked.ite ((checked_access _).bind fun _ => ih _) (Traced.checked_pure _)

theorem checked_toUInt (input : List UInt8) (len : Nat) :
    (toUInt input len).Checked Access.inBounds :=
  (checked_access _).bind fun _ => checked_toUIntLoop _ _

theorem checked_interpretSerial (s : Pump) : (interpretSerial s).Checked Access.inBounds := by
  apply Traced.Checked.ite (Traced.checked_pure _)
  apply Traced.Checked.ite (Traced.checked_pure _)
  apply (checked_toUInt _ _).bind
  intro n
  apply Traced.Checked.ite
  · exact (checked_toUInt _ _).bind fun _ => Traced.checked_pure _
  · exact Traced.checked_pure _

theorem checked_processSerial (s : Pump) : (processSerial s).Checked Access.inBounds :=
  (checked_interpretSerial s).bind fun _ => Traced.checked_pure _

theorem checked_runOneLoop (s : Pump) : (runOneLoop s).Checked Access.inBounds :=
  (checked_readSerialLoop _ _).bind fun _ =>
    .ite (checked_processSerial _) (Traced.checked_pure _)

/-- A run has a result exactly when it never left its bounds. -/
theorem checked_processCommands (cmds : List (List UInt8)) (s : Pump) :
    (processCommands cmds s).Checked Access.inBounds := by
  induction cmds generalizing s with
  | nil => exact Traced.checked_pure _
  | cons cmd rest ih => exact (checked_runOneLoop _).bind fun _ => ih _

end Checked

/-! ## Keys and triggers -/

/-- No trigger has been seen released. -/
structure Idle (s : Pump) : Prop where
  trigger : s.prevTrigger = .high
  bigTrigger : s.prevBigTrigger = .high

/-- The keypad reads its idle value and no trigger is released, so neither acts. -/
theorem checkTriggers_readKey (h : Idle s) :
    checkTriggers (readKey s) = { s with fakeMillis := s.fakeMillis + 1, prevKey := keyNone } := by
  have hkey : getKey (analogRead 0) = keyNone := by decide
  rcases s with ⟨fakeMillis, lastKeyRepeatAt, prevKey, prevTrigger, prevBigTrigger, _⟩
  obtain rfl : prevTrigger = .high := h.trigger
  obtain rfl : prevBigTrigger = .high := h.bigTrigger
  simp [checkTriggers, readKey, hkey, digitalRead]

/-! ## Reading -/

/-- The bytes that wait to be interpreted. -/
def Pump.waiting (s : Pump) : List UInt8 := s.serialStr.toList.take s.serialStrLen

theorem length_waiting (h : s.serialStrLen ≤ 80) : s.waiting.length = s.serialStrLen := by
  simp [Pump.waiting, h]

/-- The pump behind its reader. -/
structure Read (s : Pump) (l : List UInt8) (s' : Pump) : Prop where
  waiting : s'.waiting = s.waiting ++ stored l
  serialStrLen : s'.serialStrLen = s.serialStrLen + (stored l).length
  serialStrReady : s'.serialStrReady = (s.serialStrReady || l.any isTerminator)
  prevTrigger : s'.prevTrigger = s.prevTrigger
  prevBigTrigger : s'.prevBigTrigger = s.prevBigTrigger
  actions : s'.actions = s.actions

/-- The two ways `readSerial` can end. -/
inductive ReadCase (s : Pump) (l : List UInt8) : Option Pump → Prop
  | fits {s' : Pump} (hfit : s.serialStrLen + (stored l).length ≤ 80) (hread : Read s l s') :
      ReadCase s l (some s')
  | overruns (hover : 80 < s.serialStrLen + (stored l).length) : ReadCase s l none

theorem take_setIfInBounds {n i : Nat} (v : Vector UInt8 n) (c : UInt8) (h : i < n) :
    (v.setIfInBounds i c).toList.take (i + 1) = v.toList.take i ++ [c] := by
  have hlt : i < (v.toList.set i c).length := by simpa using h
  rw [Vector.toList_setIfInBounds, List.take_succ_eq_append_getElem hlt, List.getElem_set_self,
    List.take_set_of_le (Nat.le_refl i)]

theorem stored_terminator {c : UInt8} (h : c < 0x20) (l : List UInt8) :
    stored (c :: l) = stored l := by
  simp [stored, isTerminator, h]

theorem stored_cons {c : UInt8} (h : ¬ c < 0x20) (l : List UInt8) :
    stored (c :: l) = c :: stored l := by
  have hc : isTerminator c = false := by simpa [isTerminator] using h
  simp [stored, hc]

/-- The reader behind a terminator. -/
theorem ReadCase.terminator {c : UInt8} {out : Option Pump} (hc : c < 0x20)
    (h : ReadCase { s with serialStrReady := true } l out) : ReadCase s (c :: l) out := by
  cases h with
  | fits hfit hread =>
      refine .fits (by rwa [stored_terminator hc]) ?_
      exact ⟨by rw [hread.waiting, stored_terminator hc]; rfl,
        by rw [hread.serialStrLen, stored_terminator hc],
        by simp [hread.serialStrReady, isTerminator, hc],
        hread.prevTrigger, hread.prevBigTrigger, hread.actions⟩
  | overruns hover => exact .overruns (by rwa [stored_terminator hc])

/-- The reader behind a byte that it stores. -/
theorem ReadCase.stores {c : UInt8} {out : Option Pump} (hc : ¬ c < 0x20)
    (hlen : s.serialStrLen < 80)
    (h : ReadCase
      { s with
        serialStr := s.serialStr.setIfInBounds s.serialStrLen c
        serialStrLen := s.serialStrLen + 1 } l out) :
    ReadCase s (c :: l) out := by
  have hlength : (stored (c :: l)).length = (stored l).length + 1 := by simp [stored_cons hc]
  cases h with
  | fits hfit hread =>
      have hfit' : s.serialStrLen + 1 + (stored l).length ≤ 80 := hfit
      refine .fits (by omega) ?_
      have hwaiting := hread.waiting
      have hstrLen : _ = s.serialStrLen + 1 + (stored l).length := hread.serialStrLen
      simp only [Pump.waiting, take_setIfInBounds s.serialStr c hlen] at hwaiting
      exact ⟨by simp [Pump.waiting, hwaiting, stored_cons hc], by omega,
        by simp [hread.serialStrReady, isTerminator, hc],
        hread.prevTrigger, hread.prevBigTrigger, hread.actions⟩
  | overruns hover =>
      have hover' : 80 < s.serialStrLen + 1 + (stored l).length := hover
      exact .overruns (by omega)

theorem readSerialLoop_case (l : List UInt8) (hlen : s.serialStrLen ≤ 80) :
    ReadCase s l (readSerialLoop l s).result := by
  induction l generalizing s with
  | nil =>
      exact .fits hlen ⟨by simp [Pump.waiting, stored], rfl, by simp, rfl, rfl, rfl⟩
  | cons c rest ih =>
      by_cases hc : c < 0x20
      · have hrest : ReadCase { s with serialStrReady := true } rest
            (readSerialLoop rest { s with serialStrReady := true }).result := ih hlen
        rw [readSerialLoop, if_pos hc]
        exact hrest.terminator hc
      · rw [readSerialLoop, if_neg hc]
        by_cases hindex : s.serialStrLen < 80
        · -- The byte is inside the array.
          have hallowed : (access (.write s.serialStrLen)).result = some () := by
            simp [access, Access.inBounds, hindex]
          rw [Traced.result_bind, hallowed]
          exact ReadCase.stores hc hindex (ih hindex)
        · have hstopped : (access (.write s.serialStrLen)).result = none := by
            simp [access, Access.inBounds, hindex]
          rw [Traced.result_bind, hstopped]
          refine .overruns ?_
          rw [stored_cons hc, List.length_cons]
          omega

/-! ## Numbers -/

/-- The sum of `toUInt` behind `result`. -/
def decimalFrom (result : Nat) (l : List UInt8) : Nat := l.foldl accumulated result

theorem decimalFrom_eq (result : Nat) (l : List UInt8) :
    decimalFrom result l = result * 10 ^ l.length + decimal l := by
  induction l generalizing result with
  | nil => simp [decimalFrom, decimal]
  | cons c rest ih =>
      have hdigits : decimal (c :: rest) =
          decimal rest + 10 ^ rest.length * (c - '0'.toUInt8).toNat := by
        simp [decimal, Nat.ofDigits_append]
      have htail : decimalFrom result (c :: rest) = decimalFrom (accumulated result c) rest := rfl
      rw [htail, ih, hdigits, accumulated, List.length_cons]
      ring

/-- `toUInt` adds up the value of the digits. -/
theorem decimalFrom_zero (l : List UInt8) : decimalFrom 0 l = decimal l := by
  simp [decimalFrom_eq]

theorem le_accumulated (n : Nat) (c : UInt8) : n ≤ accumulated n c := by
  unfold accumulated
  omega

/-- The sum only grows, so its last value decides whether all of them are in range. -/
theorem le_decimalFrom (n : Nat) (l : List UInt8) : n ≤ decimalFrom n l := by
  induction l generalizing n with
  | nil => exact Nat.le_refl n
  | cons c rest ih =>
      calc
        n ≤ accumulated n c := le_accumulated n c
        _ ≤ decimalFrom (accumulated n c) rest := ih _

theorem result_toUIntLoop {result : Nat} (hresult : result ≤ intMax) (l : List UInt8) :
    (toUIntLoop l result).result =
      if decimalFrom result (l.takeWhile isDigit) ≤ intMax then
        some (if l.all isDigit then decimalFrom result l else 0)
      else none := by
  induction l generalizing result with
  | nil => simp [toUIntLoop, decimalFrom, hresult]
  | cons c rest ih =>
      cases hc : isDigit c with
      | false => simp [toUIntLoop, hc, decimalFrom, hresult]
      | true =>
          have htakes : decimalFrom result ((c :: rest).takeWhile isDigit) =
              decimalFrom (accumulated result c) (rest.takeWhile isDigit) := by
            simp [hc, decimalFrom]
          rw [toUIntLoop, if_pos hc, Traced.result_bind, htakes]
          by_cases hvalue : accumulated result c ≤ intMax
          · have hallowed : (access (.accumulate (accumulated result c))).result = some () := by
              simp [access, Access.inBounds, hvalue]
            rw [hallowed, Option.bind_some, ih hvalue]
            simp [hc, decimalFrom]
          · have hstopped : (access (.accumulate (accumulated result c))).result = none := by
              simp [access, Access.inBounds, hvalue]
            have hgrows := le_decimalFrom (accumulated result c) (rest.takeWhile isDigit)
            rw [hstopped, if_neg (by omega)]
            rfl

theorem result_toUInt {input : List UInt8} {len : Nat} (hlen : len ≤ 80) :
    (toUInt input len).result =
      if decimal ((input.take len).takeWhile isDigit) ≤ intMax then
        some (if (input.take len).all isDigit then decimal (input.take len) else 0)
      else none := by
  have hallowed : (access (.toUInt len)).result = some () := by
    simp [access, Access.inBounds, hlen]
  rw [toUInt, Traced.result_bind, hallowed, Option.bind_some]
  simpa only [decimalFrom_zero] using result_toUIntLoop (Nat.zero_le intMax) (input.take len)

/-! ## Interpreting -/

/-- The first byte of the array is that of the command, unless the command is empty. -/
theorem getElem?_serialStr (h : s.waiting ≠ []) : s.serialStr[0]? = s.waiting.head? := by
  have hlen : s.serialStrLen ≠ 0 := by
    intro hzero
    simp [Pump.waiting, hzero] at h
  rw [Pump.waiting, List.head?_take, if_neg hlen, List.head?_eq_getElem?, Vector.getElem?_toList]

theorem interpret_eq_none_iff : interpret line = none ↔ line = [] := by
  cases line with
  | nil => simp [interpret]
  | cons c rest =>
      simp only [interpret]
      split
      · simp
      · split
        · simp
        · split
          · simp
          · simp

theorem result_interpretSerial (hlen : s.serialStrLen ≤ 80) (hne : s.waiting ≠ []) :
    (interpretSerial s).result = if InRange s.waiting then interpret s.waiting else none := by
  have hnumber : (toUInt s.serialStr.toList s.serialStrLen).result =
      if decimal (s.waiting.takeWhile isDigit) ≤ intMax then
        some (if s.waiting.all isDigit then decimal s.waiting else 0)
      else none := result_toUInt hlen
  have hfirst := getElem?_serialStr hne
  rw [interpretSerial, hfirst]
  cases hw : s.waiting with
  | nil => exact absurd hw hne
  | cons c rest =>
      rw [hw] at hnumber
      by_cases hplus : c = '+'.toUInt8
      · simp [InRange, interpret, hplus]
      · by_cases hminus : c = '-'.toUInt8
        · have hdistinct : '-'.toUInt8 ≠ '+'.toUInt8 := by decide
          simp [InRange, interpret, hminus, hdistinct]
        · have hrange : InRange (c :: rest) ↔
              decimal ((c :: rest).takeWhile isDigit) ≤ intMax := by
            simp [InRange, hplus, hminus]
          have hc : (c :: rest).head? = some c := rfl
          rw [hc, if_neg (by simpa using hplus), if_neg (by simpa using hminus)]
          simp only [Traced.result_bind, Traced.result_ite, Traced.result_pure, hnumber, hrange]
          by_cases hle : decimal ((c :: rest).takeWhile isDigit) ≤ intMax
          · by_cases hall : (c :: rest).all isDigit = true
            · by_cases hzero : decimal (c :: rest) = 0
              · simp [hle, hall, hzero, interpret, hplus, hminus]
              · simp [hle, hall, hzero, interpret, hplus, hminus]
            · simp [hle, hall, interpret, hplus, hminus]
          · simp [hle]

/-- What the first byte of the array makes of an empty command. -/
def leftover (first : Option UInt8) : Action :=
  if first = some '+'.toUInt8 then .push
  else if first = some '-'.toUInt8 then .pull
  else .invalid

theorem result_interpretSerial_empty (hlen : s.serialStrLen = 0) :
    (interpretSerial s).result = some (leftover s.serialStr[0]?) := by
  have hnumber : (toUInt s.serialStr.toList 0).result = some 0 := by
    rw [result_toUInt (Nat.zero_le 80)]
    simp [decimal]
  simp only [interpretSerial, Traced.result_ite, Traced.result_bind, Traced.result_pure, hlen,
    hnumber, leftover]
  split
  · rfl
  · split
    · rfl
    · rfl

/-! ## One loop -/

/-- The pump between two loops. -/
structure Rests (s : Pump) : Prop where
  idle : Idle s
  serialStrReady : s.serialStrReady = false
  serialStrLen : s.serialStrLen ≤ 80

theorem rests_start : Rests .start := ⟨⟨rfl, rfl⟩, rfl, Nat.zero_le 80⟩

@[simp] theorem waiting_start : Pump.start.waiting = [] := rfl

@[simp] theorem actions_start : Pump.start.actions = [] := rfl

/-- The bytes that a loop has to work on: those that waited, and those that it reads. -/
def Pump.collected (s : Pump) (l : List UInt8) : List UInt8 := s.waiting ++ stored l

/-- The ways a loop can end that has these bytes to read. -/
inductive LoopCase (s : Pump) (l : List UInt8) : Option Pump → Prop
  | overruns (hover : 80 < (s.collected l).length) : LoopCase s l none
  | overflows (hterm : l.any isTerminator = true) (hrange : ¬ InRange (s.collected l)) :
      LoopCase s l none
  | waits {s' : Pump} (hfit : (s.collected l).length ≤ 80) (hterm : l.any isTerminator = false)
      (hrests : Rests s') (hwaiting : s'.waiting = s.collected l)
      (hactions : s'.actions = s.actions) : LoopCase s l (some s')
  | obeys {s' : Pump} {a : Action} (hfit : (s.collected l).length ≤ 80)
      (hterm : l.any isTerminator = true) (hrange : InRange (s.collected l))
      (ha : interpret (s.collected l) = some a) (hrests : Rests s') (hwaiting : s'.waiting = [])
      (hactions : s'.actions = s.actions ++ [a]) : LoopCase s l (some s')
  /-- Nothing was collected, and the first byte of an earlier command is obeyed. -/
  | repeats {s' : Pump} (hterm : l.any isTerminator = true) (hempty : s.collected l = [])
      (hrests : Rests s') (hwaiting : s'.waiting = [])
      (hactions : s'.actions = s.actions ++ [leftover s'.serialStr[0]?]) : LoopCase s l (some s')

/-- What an interpreted command leaves of the pump. -/
theorem rests_processed {a : Action} (h : Idle s) :
    Rests { s.act a with serialStrReady := false, serialStrLen := 0 } :=
  ⟨⟨h.trigger, h.bigTrigger⟩, rfl, Nat.zero_le 80⟩

theorem result_processSerial (s : Pump) :
    (processSerial s).result = (interpretSerial s).result.map fun a =>
      { s.act a with serialStrReady := false, serialStrLen := 0 } := by
  rw [processSerial, Traced.result_bind]
  cases (interpretSerial s).result with
  | none => rfl
  | some a => rfl

/-- The pump in front of its reader: keys and triggers have done nothing. -/
theorem result_runOneLoop (h : Idle s) :
    (runOneLoop s).result =
      (readSerialLoop s.serialBuf
        { s with fakeMillis := s.fakeMillis + 1, prevKey := keyNone }).result.bind fun s' =>
        if s'.serialStrReady then (processSerial s').result else some s' := by
  rw [runOneLoop, checkTriggers_readKey h, Traced.result_bind]
  simp only [readSerial, Traced.result_ite, Traced.result_pure]

/-- What a loop makes of a reader that did not leave the array. -/
theorem LoopCase.of_read {s' : Pump} (h : Rests s) (hread : Read s l s')
    (hfit : (s.collected l).length ≤ 80) :
    LoopCase s l (if s'.serialStrReady then (processSerial s').result else some s') := by
  have hidle : Idle s' :=
    ⟨hread.prevTrigger.trans h.idle.trigger, hread.prevBigTrigger.trans h.idle.bigTrigger⟩
  have hwaiting : s'.waiting = s.collected l := hread.waiting
  have hlen : s'.serialStrLen ≤ 80 := by
    rw [Pump.collected, List.length_append, length_waiting h.serialStrLen] at hfit
    rwa [hread.serialStrLen]
  have hready : s'.serialStrReady = l.any isTerminator := by
    rw [hread.serialStrReady, h.serialStrReady, Bool.false_or]
  cases hterm : l.any isTerminator with
  | false =>
      rw [hterm] at hready
      rw [hready]
      exact .waits hfit hterm ⟨hidle, hready, hlen⟩ hwaiting hread.actions
  | true =>
      rw [hterm] at hready
      rw [hready, if_pos rfl, result_processSerial]
      by_cases hempty : s.collected l = []
      · -- No byte was stored, so the command has length zero.
        have hzero : s'.serialStrLen = 0 := by
          rw [← length_waiting hlen, hwaiting, hempty]
          rfl
        rw [result_interpretSerial_empty hzero]
        refine .repeats hterm hempty (rests_processed hidle) rfl ?_
        exact congrArg (· ++ _) hread.actions
      · rw [result_interpretSerial hlen (hwaiting ▸ hempty), hwaiting]
        by_cases hrange : InRange (s.collected l)
        · rw [if_pos hrange]
          cases ha : interpret (s.collected l) with
          | none => exact absurd (interpret_eq_none_iff.1 ha) hempty
          | some a =>
              refine .obeys hfit hterm hrange ha (rests_processed hidle) rfl ?_
              exact congrArg (· ++ _) hread.actions
        · rw [if_neg hrange]
          exact .overflows hterm hrange

theorem runOneLoop_case (h : Rests s) :
    LoopCase s s.serialBuf (runOneLoop s).result := by
  rw [result_runOneLoop h.idle]
  have hread := @readSerialLoop_case
    { s with fakeMillis := s.fakeMillis + 1, prevKey := keyNone } s.serialBuf h.serialStrLen
  have hlength : (s.collected s.serialBuf).length =
      s.serialStrLen + (stored s.serialBuf).length := by
    rw [Pump.collected, List.length_append, length_waiting h.serialStrLen]
  generalize (readSerialLoop s.serialBuf _).result = out at hread ⊢
  cases hread with
  | overruns hover => exact .overruns (hlength ▸ hover)
  | fits hfit hread =>
      have hread' : Read s s.serialBuf _ :=
        ⟨hread.waiting, hread.serialStrLen, hread.serialStrReady, hread.prevTrigger,
          hread.prevBigTrigger, hread.actions⟩
      exact LoopCase.of_read h hread' (hlength ▸ hfit)

/-- The rest of the state does not depend on what the serial line offers. -/
theorem LoopCase.of_serialBuf {out : Option Pump}
    (h : LoopCase { s with serialBuf := l } l out) : LoopCase s l out := by
  cases h with
  | overruns hover => exact .overruns hover
  | overflows hterm hrange => exact .overflows hterm hrange
  | waits hfit hterm hrests hwaiting hactions =>
      exact .waits hfit hterm hrests hwaiting hactions
  | obeys hfit hterm hrange ha hrests hwaiting hactions =>
      exact .obeys hfit hterm hrange ha hrests hwaiting hactions
  | repeats hterm hempty hrests hwaiting hactions =>
      exact .repeats hterm hempty hrests hwaiting hactions

theorem processCommand_case (cmd : List UInt8) (h : Rests s) :
    LoopCase s (received cmd) (processCommand cmd s).result := by
  rw [processCommand, feedSerial]
  generalize received cmd = l
  have hfed : Rests { s with serialBuf := l } :=
    ⟨⟨h.idle.trigger, h.idle.bigTrigger⟩, h.serialStrReady, h.serialStrLen⟩
  exact (runOneLoop_case hfed).of_serialBuf

theorem LoopCase.rests {l : List UInt8} {s' : Pump} (h : LoopCase s l (some s')) : Rests s' := by
  cases h with
  | waits hfit hterm hrests hwaiting hactions => exact hrests
  | obeys hfit hterm hrange ha hrests hwaiting hactions => exact hrests
  | repeats hterm hempty hrests hwaiting hactions => exact hrests

theorem result_processCommands_cons (cmd : List UInt8) (cmds : List (List UInt8)) (s : Pump) :
    (processCommands (cmd :: cmds) s).result =
      (processCommand cmd s).result.bind fun s' => (processCommands cmds s').result := by
  rw [processCommands, Traced.result_bind]

end Syringe
end CFlat
