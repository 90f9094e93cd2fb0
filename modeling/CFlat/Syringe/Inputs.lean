import CFlat.Syringe.Bounds
import CFlat.Syringe.Keypad

/-!
# Inputs — the pump with all its inputs

In `test_syringe.c` the triggers and the keypad are stubs that never move.  Here each loop of the
pump has a reading of the keypad, two readings of the trigger pins and the bytes of the serial line
as its input.  `inputs_apart` says that the three inputs do not disturb each other in what they make
the pump do: the serial line alone decides whether the pump stays in its bounds, and the kinds of its
actions are those that each of the three asks for on its own, loop by loop.  How much a bolus
dispenses is another matter: the three set and use one volume, which is left out.
-/

namespace CFlat
namespace Syringe

open Lib

variable {s t : Pump}

/-! ## The pump -/

/-- What one loop of the pump finds at its inputs. -/
structure Inputs where
  adc : Nat
  trigger : Level
  bigTrigger : Level
  serial : List UInt8
  deriving DecidableEq, Repr

/-- `readKey` on a reading of the pin. -/
def readKeyOn (adc : Nat) (s : Pump) : Pump :=
  let key := getKey adc
  let currentTime := s.fakeMillis.toInt64
  let timeSinceLastPress := currentTime - s.lastKeyRepeatAt
  let processThisKey := key ≠ keyNone ∧
    (s.prevKey = key ∧ timeSinceLastPress > keyRepeatDelay ∨
      s.prevKey = keyNone ∧ timeSinceLastPress > keyDebounce)
  let s := { s with fakeMillis := s.fakeMillis + 1, prevKey := key }
  if processThisKey then { s.act (.key key) with lastKeyRepeatAt := currentTime } else s

/-- `checkTriggers` on two readings of the pins. -/
def checkTriggersOn (pushTriggerValue bigTriggerValue : Level) (s : Pump) : Pump :=
  let s := if pushTriggerValue = .high ∧ s.prevTrigger = .low then s.act .push else s
  let s := { s with prevTrigger := pushTriggerValue }
  let s := if bigTriggerValue = .high ∧ s.prevBigTrigger = .low then s.act .bigPush else s
  { s with prevBigTrigger := bigTriggerValue }

/-- The part of `run_one_loop` behind the keypad and the triggers. -/
def obeySerial (s : Pump) : Exec Pump := do
  let s ← readSerial s
  if s.serialStrReady then processSerial s else pure s

def runOneLoopOn (inp : Inputs) (s : Pump) : Exec Pump :=
  obeySerial (checkTriggersOn inp.trigger inp.bigTrigger (readKeyOn inp.adc s))

def processInputs : List Inputs → Pump → Exec Pump
  | [], s => pure s
  | inp :: inps, s => do
      let s ← runOneLoopOn inp (feedSerial inp.serial s)
      processInputs inps s

/-- The inputs of the stubs. -/
def stubbed (cmd : List UInt8) : Inputs :=
  ⟨analogRead 0, digitalRead triggerPin, digitalRead bigTriggerPin, cmd⟩

/-- The pump of the source is the pump on its stubs. -/
theorem runOneLoop_eq (cmd : List UInt8) (s : Pump) :
    runOneLoop s = runOneLoopOn (stubbed cmd) s := by
  have hkey : readKey s = readKeyOn (analogRead 0) s := by rw [readKey, readKeyOn]
  rw [runOneLoop, runOneLoopOn, obeySerial, checkTriggers, checkTriggersOn, hkey, stubbed]

/-! ## The serial line -/

/-- The serial side of `t` in a pump to which the rest of `s` has happened. -/
def Pump.over (s t : Pump) : Pump :=
  { s with
    serialBuf := t.serialBuf
    serialStr := t.serialStr
    serialStrReady := t.serialStrReady
    serialStrLen := t.serialStrLen
    actions := s.actions ++ t.actions }

/-- The serial side of a pump to which nothing else has happened. -/
def Pump.line (s : Pump) : Pump :=
  { Pump.start with
    serialBuf := s.serialBuf
    serialStr := s.serialStr
    serialStrReady := s.serialStrReady
    serialStrLen := s.serialStrLen }

theorem over_line (s : Pump) : s.over s.line = s := by
  simp [Pump.over, Pump.line, Pump.start]

theorem line_over (s t : Pump) : (s.over t).line = t.line := rfl

theorem Idle.over (h : Idle s) (t : Pump) : Idle (s.over t) := ⟨h.trigger, h.bigTrigger⟩

theorem result_readSerialLoop_over (l : List UInt8) :
    (readSerialLoop l (s.over t)).result = (readSerialLoop l t).result.map s.over := by
  induction l generalizing t with
  | nil => rfl
  | cons inChar rest ih =>
      simp only [readSerialLoop, Traced.result_ite]
      split
      · exact ih (t := { t with serialStrReady := true })
      · simp only [access, Traced.result_bind, Traced.result_check]
        have hlen : (s.over t).serialStrLen = t.serialStrLen := rfl
        rw [hlen]
        split
        · exact ih (t := { t with
            serialStr := t.serialStr.setIfInBounds t.serialStrLen inChar
            serialStrLen := t.serialStrLen + 1 })
        · rfl

theorem result_processSerial_over :
    (processSerial (s.over t)).result = (processSerial t).result.map s.over := by
  -- What the string means depends on the string alone.
  have hinterpret : interpretSerial (s.over t) = interpretSerial t := rfl
  rw [result_processSerial, result_processSerial, hinterpret, Option.map_map]
  refine congrArg (Option.map · _) (funext fun a => ?_)
  simp [Pump.act, Pump.over]

theorem result_obeySerial_over :
    (obeySerial (s.over t)).result = (obeySerial t).result.map s.over := by
  have hread : (readSerial (s.over t)).result = (readSerial t).result.map s.over :=
    result_readSerialLoop_over t.serialBuf
  simp only [obeySerial, Traced.result_bind, hread, Traced.result_ite, Traced.result_pure]
  cases (readSerial t).result with
  | none => rfl
  | some t' =>
      have hready : (s.over t').serialStrReady = t'.serialStrReady := rfl
      simp only [Option.map_some, Option.bind_some, hready, result_processSerial_over]
      split
      · rfl
      · rfl

/-- The serial line does its work without the rest of the pump. -/
theorem result_obeySerial (s : Pump) :
    (obeySerial s).result = (obeySerial s.line).result.map s.over := by
  rw [← result_obeySerial_over, over_line]

/-! ## One loop -/

/-- The part of the pump that `readKey` works on. -/
def Pump.timing (s : Pump) : Timing := ⟨s.fakeMillis, s.lastKeyRepeatAt, s.prevKey⟩

/-- The pump in front of its serial line. -/
def Pump.front (s : Pump) (inp : Inputs) : Pump :=
  checkTriggersOn inp.trigger inp.bigTrigger (readKeyOn inp.adc s)

/-- What a loop does for the keypad. -/
def keyAction (timing : Timing) (adc : Nat) : List Action :=
  ((timing.read adc).1.map Action.key).toList

/-- A level goes from low to high. -/
def rises (before now : Level) : Bool := before == .low && now == .high

/-- What a loop does for the triggers. -/
def triggerAction (push bigPush : Bool) : List Action :=
  (if push then [.push] else []) ++ if bigPush then [.bigPush] else []

theorem readKeyOn_case (s : Pump) (adc : Nat) :
    (readKeyOn adc s).timing = (s.timing.read adc).2 ∧
      (readKeyOn adc s).actions = s.actions ++ keyAction s.timing adc ∧
      (readKeyOn adc s).line = s.line ∧
      (readKeyOn adc s).prevTrigger = s.prevTrigger ∧
      (readKeyOn adc s).prevBigTrigger = s.prevBigTrigger := by
  simp only [readKeyOn, keyAction, Timing.read, Pump.timing, Pump.line]
  generalize getKey adc = key
  by_cases hprocess : ¬ key = keyNone ∧
      (s.prevKey = key ∧ keyRepeatDelay < s.fakeMillis.toInt64 - s.lastKeyRepeatAt ∨
        s.prevKey = keyNone ∧ keyDebounce < s.fakeMillis.toInt64 - s.lastKeyRepeatAt)
  · simp [hprocess, Pump.act]
  · simp [hprocess]

theorem checkTriggersOn_case (s : Pump) (trigger bigTrigger : Level) :
    (checkTriggersOn trigger bigTrigger s).timing = s.timing ∧
      (checkTriggersOn trigger bigTrigger s).actions =
        s.actions ++
          triggerAction (rises s.prevTrigger trigger) (rises s.prevBigTrigger bigTrigger) ∧
      (checkTriggersOn trigger bigTrigger s).line = s.line ∧
      (checkTriggersOn trigger bigTrigger s).prevTrigger = trigger ∧
      (checkTriggersOn trigger bigTrigger s).prevBigTrigger = bigTrigger := by
  -- Each trigger by its level before and now.
  rcases s with ⟨_, _, _, prevTrigger, prevBigTrigger, _⟩
  cases prevTrigger <;> cases prevBigTrigger <;> cases trigger <;> cases bigTrigger <;>
    simp [checkTriggersOn, triggerAction, rises, Pump.act, Pump.timing, Pump.line]

/-- The pump with these bytes to read. -/
def Pump.offered (s : Pump) (l : List UInt8) : Pump := { s with serialBuf := l }

theorem feedSerial_eq (cmd : List UInt8) (s : Pump) :
    feedSerial cmd s = s.offered (received cmd) := by
  rw [feedSerial, Pump.offered]

theorem line_offered (s : Pump) (l : List UInt8) : (s.offered l).line = s.line.offered l := rfl

/-- What a pump has become in front of its serial line. -/
structure InFront (s : Pump) (inp : Inputs) (s' : Pump) : Prop where
  timing : s'.timing = (s.timing.read inp.adc).2
  actions : s'.actions =
    s.actions ++ (keyAction s.timing inp.adc ++
      triggerAction (rises s.prevTrigger inp.trigger) (rises s.prevBigTrigger inp.bigTrigger))
  prevTrigger : s'.prevTrigger = inp.trigger
  prevBigTrigger : s'.prevBigTrigger = inp.bigTrigger

theorem front_case (s : Pump) (inp : Inputs) :
    InFront s inp (s.front inp) ∧ (s.front inp).line = s.line := by
  rcases readKeyOn_case s inp.adc with ⟨htiming, hactions, hline, htrigger, hbigTrigger⟩
  rcases checkTriggersOn_case (readKeyOn inp.adc s) inp.trigger inp.bigTrigger with
    ⟨htiming', hactions', hline', htrigger', hbigTrigger'⟩
  refine ⟨⟨htiming'.trans htiming, ?_, htrigger', hbigTrigger'⟩, hline'.trans hline⟩
  rw [Pump.front, hactions', hactions, htrigger, hbigTrigger, List.append_assoc]

/-- The bytes to read make no difference there. -/
theorem inFront (s : Pump) (inp : Inputs) (l : List UInt8) :
    InFront s inp ((s.offered l).front inp) := by
  rcases (front_case (s.offered l) inp).1 with ⟨htiming, hactions, htrigger, hbigTrigger⟩
  exact ⟨htiming, hactions, htrigger, hbigTrigger⟩

/-- On the stubs nothing happens in front of the serial line. -/
theorem InFront.stubbed {cmd : List UInt8} {s' : Pump} (h : InFront s (stubbed cmd) s')
    (hidle : Idle s) : s'.actions = s.actions ∧ Idle s' := by
  have hkey : getKey (analogRead 0) = keyNone := by decide
  have hnone : keyAction s.timing (Syringe.stubbed cmd).adc = [] := by
    simp [keyAction, Syringe.stubbed, Timing.read, hkey]
  refine ⟨?_, h.prevTrigger, h.prevBigTrigger⟩
  rw [h.actions, hnone, hidle.trigger, hidle.bigTrigger]
  exact List.append_nil _

/-- A loop does what keypad and triggers ask for, and then what the serial line does alone. -/
theorem result_runOneLoopOn (inp : Inputs) (s : Pump) :
    (runOneLoopOn inp s).result = (obeySerial s.line).result.map (s.front inp).over := by
  rw [runOneLoopOn, ← Pump.front, result_obeySerial, (front_case s inp).2]

/-! ## Runs -/

def keyActions (timing : Timing) : List Nat → List (List Action)
  | [] => []
  | adc :: adcs => keyAction timing adc :: keyActions (timing.read adc).2 adcs

def rising (before : Level) : List Level → List Bool
  | [] => []
  | now :: later => rises before now :: rising now later

/-- What the pump of the source does in each loop, where only the serial line moves. -/
def serialActions (s : Pump) : List (List UInt8) → List (List Action)
  | [] => []
  | cmd :: cmds =>
      match (processCommand cmd s).result with
      | none => []
      | some s' => s'.actions.drop s.actions.length :: serialActions s' cmds

/-- Loop by loop: the keypad, the triggers and the serial line. -/
def merged (keys triggers lines : List (List Action)) : List Action :=
  (List.zipWith (· ++ ·) keys (List.zipWith (· ++ ·) triggers lines)).flatten

/-- Two runs that leave their bounds together, or else do these actions. -/
inductive Together (actions actions₀ : List Action) : Option Pump → Option Pump → Prop
  | leaves : Together actions actions₀ none none
  | stays {s s₀ : Pump} (hactions : s.actions = actions) (hactions₀ : s₀.actions = actions₀) :
      Together actions actions₀ (some s) (some s₀)

section Together

variable {actions actions₀ : List Action} {out out₀ : Option Pump}

theorem Together.isSome_iff (h : Together actions actions₀ out out₀) :
    out.isSome = true ↔ out₀.isSome = true := by
  cases h with
  | leaves => exact Iff.rfl
  | stays => exact Iff.rfl

theorem Together.actions_eq (h : Together actions actions₀ (some s) out₀) :
    s.actions = actions := by
  cases h with
  | stays hactions => exact hactions

theorem Together.actions₀_eq (h : Together actions actions₀ out (some t)) :
    t.actions = actions₀ := by
  cases h with
  | stays _ hactions₀ => exact hactions₀

end Together

/-- The run lemma. -/
theorem together_run {s₀ : Pump} (hline : s.line = s₀.line) (hidle : Idle s₀)
    (inputs : List Inputs) :
    Together
      (s.actions ++ merged (keyActions s.timing (inputs.map Inputs.adc))
        (List.zipWith triggerAction (rising s.prevTrigger (inputs.map Inputs.trigger))
          (rising s.prevBigTrigger (inputs.map Inputs.bigTrigger)))
        (serialActions s₀ (inputs.map Inputs.serial)))
      (s₀.actions ++ (serialActions s₀ (inputs.map Inputs.serial)).flatten)
      (processInputs inputs s).result
      (processCommands (inputs.map Inputs.serial) s₀).result := by
  induction inputs generalizing s s₀ with
  | nil => exact .stays (List.append_nil _).symm (List.append_nil _).symm
  | cons inp inputs ih =>
      have hloop := result_runOneLoopOn inp (s.offered (received inp.serial))
      have hloop₀ := result_runOneLoopOn (stubbed inp.serial) (s₀.offered (received inp.serial))
      have hfront := inFront s inp (received inp.serial)
      have hfront₀ := inFront s₀ (stubbed inp.serial) (received inp.serial)
      -- Both pumps have the same serial side, so they read the same string.
      rw [line_offered, ← hline, ← line_offered] at hloop₀
      simp only [List.map_cons, processInputs, Traced.result_bind, result_processCommands_cons,
        processCommand, runOneLoop_eq inp.serial, feedSerial_eq, serialActions, hloop, hloop₀]
      generalize (s.offered (received inp.serial)).front inp = front at hfront
      generalize (s₀.offered (received inp.serial)).front (stubbed inp.serial) = front₀ at hfront₀
      cases (obeySerial (s.offered (received inp.serial)).line).result with
      | none => exact .leaves
      | some u =>
          rcases hfront₀.stubbed hidle with ⟨hquiet, hidle₀⟩
          -- The serial line has left its work on both; the fronts of the two differ as they did.
          have hrest := ih ((line_over front u).trans (line_over front₀ u).symm) (hidle₀.over u)
          have hactions : (front.over u).actions = s.actions ++ (keyAction s.timing inp.adc ++
              triggerAction (rises s.prevTrigger inp.trigger)
                (rises s.prevBigTrigger inp.bigTrigger)) ++ u.actions :=
            congrArg (· ++ u.actions) hfront.actions
          have hactions₀ : (front₀.over u).actions = s₀.actions ++ u.actions :=
            congrArg (· ++ u.actions) hquiet
          have htiming : (front.over u).timing = (s.timing.read inp.adc).2 := hfront.timing
          have htrigger : (front.over u).prevTrigger = inp.trigger := hfront.prevTrigger
          have hbigTrigger : (front.over u).prevBigTrigger = inp.bigTrigger :=
            hfront.prevBigTrigger
          rw [hactions, hactions₀, htiming, htrigger, hbigTrigger] at hrest
          simpa [hactions₀, keyActions, rising, merged] using hrest

/-- A run has a result exactly when it never left its bounds. -/
theorem checked_processInputs (inputs : List Inputs) (s : Pump) :
    (processInputs inputs s).Checked Access.inBounds := by
  induction inputs generalizing s with
  | nil => exact Traced.checked_pure _
  | cons inp inputs ih =>
      have hloop : ∀ s, (obeySerial s).Checked Access.inBounds := fun s =>
        (checked_readSerialLoop _ _).bind fun _ => .ite (checked_processSerial _)
          (Traced.checked_pure _)
      exact (hloop _).bind fun _ => ih _

/-- What the trigger pins ask for, loop by loop: a push whenever a level has gone from low to high
since the loop before. -/
def triggerActions (inputs : List Inputs) : List (List Action) :=
  List.zipWith triggerAction (rising .high (inputs.map Inputs.trigger))
    (rising .high (inputs.map Inputs.bigTrigger))

/-- The inputs of a run do not disturb each other, up to the volumes. -/
structure InputsApart (inputs : List Inputs) : Prop where
  /-- The bytes of the serial line alone keep the pump in its bounds. -/
  inBounds : (∀ a ∈ (processInputs inputs .start).log, a.inBounds = true) ↔
    StaysInBounds [] ((inputs.map Inputs.serial).map received)
  /-- Then the kinds of the actions are those that each input asks for, loop by loop. -/
  actions : ∀ s, (processInputs inputs .start).result = some s →
    s.actions = merged (keyActions ⟨0, 0, keyNone⟩ (inputs.map Inputs.adc)) (triggerActions inputs)
      (serialActions .start (inputs.map Inputs.serial))
  /-- On the serial line that is what the pump of the source does. -/
  serial : ∀ s₀, (processCommands (inputs.map Inputs.serial) .start).result = some s₀ →
    s₀.actions = (serialActions .start (inputs.map Inputs.serial)).flatten

/-- For every sequence of key readings, trigger levels and serial bytes. -/
theorem inputs_apart (inputs : List Inputs) : InputsApart inputs := by
  have hidle : Idle .start := ⟨rfl, rfl⟩
  have htogether := together_run (Eq.refl Pump.start.line) hidle inputs
  have hbounds := isSome_processCommands_iff (inputs.map Inputs.serial) rests_start
  rw [waiting_start, ← htogether.isSome_iff] at hbounds
  refine ⟨(checked_processInputs inputs .start).trans hbounds, ?_, ?_⟩
  · intro s hs
    rw [hs] at htogether
    exact htogether.actions_eq
  · intro s₀ hs₀
    rw [hs₀] at htogether
    exact htogether.actions₀_eq

/-- Both triggers rise in the loop that reads a push from the serial line. -/
example : (processInputs [⟨999, .low, .low, bytes "+"⟩, ⟨999, .high, .high, bytes "\n"⟩]
    .start).result.map Pump.actions = some [.push, .bigPush, .push] := by decide +kernel

end Syringe
end CFlat
