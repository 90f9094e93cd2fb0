import Mathlib.Algebra.Group.Nat.Defs
import CFlat.Lib.Traced

/-!
# Pump — the syringe pump and its serial input

`test_syringe.c`: commands arrive on a serial line, one loop of the pump reads all that is there and
interprets what it has collected.  The hardware is stubbed: the pins read `HIGH_VAL` and the keypad
its idle value.  As on the target `char` is unsigned and `long` has 64 bits.  Volumes are
floating-point numbers and left out: what the pump does is a list of actions by their kinds, and not
how much is dispensed.
-/

namespace CFlat
namespace Syringe

open Lib

/-! ## Accesses -/

/-- The largest `int`. -/
def intMax : Nat := 2147483647

/-- What the code does with an index, a length or a sum that comes from its input. -/
inductive Access
  /-- `serialStr[index] = inChar`. -/
  | write (index : Nat)
  /-- `toUInt(serialStr, len)`. -/
  | toUInt (len : Nat)
  /-- `result * 10 + (input[i] - '0')`. -/
  | accumulate (value : Nat)
  deriving DecidableEq, Repr

/-- The index is in `serialStr`, the length is at most its size, the value is an `int`. -/
def Access.inBounds : Access → Bool
  | write index => decide (index < 80)
  | toUInt len => decide (len ≤ 80)
  | accumulate value => decide (value ≤ intMax)

/-- Code that may leave its bounds; what it does behind the first access that does is undefined. -/
abbrev Exec := Traced Access

def access (a : Access) : Exec Unit := Traced.check Access.inBounds a

/-! ## The state -/

inductive Level
  | high
  | low
  deriving DecidableEq, Repr

/-- What the pump does, whatever the volume.  `bigPush` is the bolus of the second trigger and `key`
the action of a key. -/
inductive Action
  | set (microlitres : Nat)
  | push
  | pull
  | invalid
  | bigPush
  | key (key : Nat)
  deriving DecidableEq, Repr

structure Pump where
  fakeMillis : UInt64
  lastKeyRepeatAt : Int64
  prevKey : Nat
  prevTrigger : Level
  prevBigTrigger : Level
  /-- What `Serial_read` has not returned yet of the buffer. -/
  serialBuf : List UInt8
  serialStr : Vector UInt8 80
  serialStrReady : Bool
  serialStrLen : Nat
  /-- A ghost field: what the pump did, in order. -/
  actions : List Action
  deriving DecidableEq

def Pump.act (s : Pump) (a : Action) : Pump := { s with actions := s.actions ++ [a] }

/-! ## Hardware stubs -/

def digitalRead (_pin : Nat) : Level := .high

def analogRead (_pin : Nat) : Nat := 999

def triggerPin : Nat := 0

def bigTriggerPin : Nat := 0

def strlen (cmd : List UInt8) : Nat := (cmd.takeWhile (· != 0)).length

/-- The part of a string that `serial_len`, its length as an `int`, makes available. -/
def received (cmd : List UInt8) : List UInt8 :=
  cmd.take (Int.bmod (strlen cmd) (2 ^ 32)).toNat

def feedSerial (cmd : List UInt8) (s : Pump) : Pump := { s with serialBuf := received cmd }

/-! ## Keys and triggers -/

def adcKeyVal : List Nat := [30, 150, 360, 535, 760]

/-- `KEY_NONE`, which is also the number of keys. -/
def keyNone : Nat := 5

def keyRepeatDelay : Int64 := 400

def keyDebounce : Int64 := 125

/-- The first key whose bound is above the input, and `KEY_NONE` if there is none. -/
def getKey (input : Nat) : Nat := adcKeyVal.findIdx (decide <| input < ·)

def readKey (s : Pump) : Pump :=
  let key := getKey (analogRead 0)
  let currentTime := s.fakeMillis.toInt64
  let timeSinceLastPress := currentTime - s.lastKeyRepeatAt
  let processThisKey := key ≠ keyNone ∧
    (s.prevKey = key ∧ timeSinceLastPress > keyRepeatDelay ∨
      s.prevKey = keyNone ∧ timeSinceLastPress > keyDebounce)
  let s := { s with fakeMillis := s.fakeMillis + 1, prevKey := key }
  if processThisKey then { s.act (.key key) with lastKeyRepeatAt := currentTime } else s

def checkTriggers (s : Pump) : Pump :=
  let pushTriggerValue := digitalRead triggerPin
  let s := if pushTriggerValue = .high ∧ s.prevTrigger = .low then s.act .push else s
  let s := { s with prevTrigger := pushTriggerValue }
  let bigTriggerValue := digitalRead bigTriggerPin
  let s := if bigTriggerValue = .high ∧ s.prevBigTrigger = .low then s.act .bigPush else s
  { s with prevBigTrigger := bigTriggerValue }

/-! ## The serial line -/

/-- The loop of `readSerial`: `Serial_available` is true as long as bytes are left, and
`Serial_read` takes the first of them. -/
def readSerialLoop : List UInt8 → Pump → Exec Pump
  | [], s => pure { s with serialBuf := [] }
  | inChar :: rest, s =>
      if inChar < 0x20 then readSerialLoop rest { s with serialStrReady := true }
      else do
        access (.write s.serialStrLen)
        readSerialLoop rest
          { s with
            serialStr := s.serialStr.setIfInBounds s.serialStrLen inChar
            serialStrLen := s.serialStrLen + 1 }

def readSerial (s : Pump) : Exec Pump := readSerialLoop s.serialBuf s

def isDigit (c : UInt8) : Bool := decide ('0'.toUInt8 ≤ c) && decide (c ≤ '9'.toUInt8)

/-- `result * 10 + (c - '0')` for a digit `c`. -/
def accumulated (result : Nat) (c : UInt8) : Nat := result * 10 + (c - '0'.toUInt8).toNat

def toUIntLoop : List UInt8 → Nat → Exec Nat
  | [], result => pure result
  | c :: rest, result =>
      if isDigit c then do
        access (.accumulate (accumulated result c))
        toUIntLoop rest (accumulated result c)
      else pure 0

def toUInt (input : List UInt8) (len : Nat) : Exec Nat := do
  access (.toUInt len)
  toUIntLoop (input.take len) 0

/-- The branches of `processSerial`. -/
def interpretSerial (s : Pump) : Exec Action :=
  if s.serialStr[0]? = some '+'.toUInt8 then pure .push
  else if s.serialStr[0]? = some '-'.toUInt8 then pure .pull
  else do
    let n ← toUInt s.serialStr.toList s.serialStrLen
    if n ≠ 0 then do
      let uLbolus ← toUInt s.serialStr.toList s.serialStrLen
      pure (.set uLbolus)
    else pure .invalid

def processSerial (s : Pump) : Exec Pump := do
  let a ← interpretSerial s
  pure { s.act a with serialStrReady := false, serialStrLen := 0 }

/-! ## The loop of the pump -/

def runOneLoop (s : Pump) : Exec Pump := do
  let s ← readSerial (checkTriggers (readKey s))
  if s.serialStrReady then processSerial s else pure s

/-- The attestation that follows each command is not part of the pump. -/
def processCommand (cmd : List UInt8) (s : Pump) : Exec Pump := runOneLoop (feedSerial cmd s)

def processCommands : List (List UInt8) → Pump → Exec Pump
  | [], s => pure s
  | cmd :: cmds, s => do
      let s ← processCommand cmd s
      processCommands cmds s

/-- The bytes of a string literal. -/
def bytes (cmd : String) : List UInt8 := cmd.toList.map Char.toUInt8

/-- The commands of `main`. -/
def mainCommands : List (List UInt8) := ["10\n", "+\n", "20\n", "+\n"].map bytes

/-- The static variables at program start. -/
def Pump.start : Pump where
  fakeMillis := 0
  lastKeyRepeatAt := 0
  prevKey := keyNone
  prevTrigger := .high
  prevBigTrigger := .high
  serialBuf := []
  serialStr := Vector.replicate 80 0
  serialStrReady := false
  serialStrLen := 0
  actions := []

end Syringe
end CFlat
