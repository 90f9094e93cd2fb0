import Mathlib.Data.List.Induction
import CFlat.Syringe.Pump

/-!
# Keypad — when the pump acts on a key, and what its menu does

In `test_syringe.c` the keypad reads its idle value only.  Here its readings are an input, one for
each loop of the pump.  `readKey` acts on a key when the time since the last action is long enough;
`doKeyAction` moves through the bolus steps of the menu.  `key_actions_spaced` says that for every
sequence of readings the menu stays inside its table, and that until the clock overflows the actions
are those of the keys that are read, and keep their distance.  Volumes are left out, as in
`CFlat.Syringe.Pump`: bolus steps are the table's own, in microlitres, and what a key does to a
volume is an effect.
-/

namespace CFlat
namespace Syringe

/-! ## The times of the keys -/

structure Timing where
  fakeMillis : UInt64
  lastKeyRepeatAt : Int64
  prevKey : Nat
  deriving DecidableEq, Repr

/-- `readKey` on a reading: the key that is acted upon, if one is. -/
def Timing.read (adc : Nat) (s : Timing) : Option Nat × Timing :=
  let key := getKey adc
  let currentTime := s.fakeMillis.toInt64
  let timeSinceLastPress := currentTime - s.lastKeyRepeatAt
  let processThisKey := key ≠ keyNone ∧
    (s.prevKey = key ∧ timeSinceLastPress > keyRepeatDelay ∨
      s.prevKey = keyNone ∧ timeSinceLastPress > keyDebounce)
  let s := { s with fakeMillis := s.fakeMillis + 1, prevKey := key }
  if processThisKey then (some key, { s with lastKeyRepeatAt := currentTime }) else (none, s)

/-! ## The menu -/

inductive UiState
  | main
  | bolusMenu
  deriving DecidableEq, Repr

/-- What a key does to the volumes: a bolus, or a bolus of one step more or less. -/
inductive KeyEffect
  | pull
  | push
  | more (step : Nat)
  | less (step : Nat)
  deriving DecidableEq, Repr

def keyRight : Nat := 0
def keyUp : Nat := 1
def keyDown : Nat := 2
def keyLeft : Nat := 3
def keySelect : Nat := 4

def mLBolusSteps : List Nat := [1, 5, 10, 50, 100, 500, 1000, 5000, 10000]

def mLBolusStepsLength : Int := 9

/-- The entry at an index, if it lies inside the table. -/
def bolusStep? (idx : Int) : Option Nat := if 0 ≤ idx then mLBolusSteps[idx.toNat]? else none

/-- The state of the menu.  `effects` is a ghost field, in order. -/
structure Menu where
  uiState : UiState
  mLBolusStepIdx : Int
  mLBolusStep : Nat
  effects : List KeyEffect
  deriving DecidableEq, Repr

def Menu.does (s : Menu) (effect : KeyEffect) : Menu := { s with effects := s.effects ++ [effect] }

def Menu.moveTo (s : Menu) (idx : Int) : Option Menu :=
  (bolusStep? idx).map fun step => { s with mLBolusStepIdx := idx, mLBolusStep := step }

/-- The screen that follows is not part of it. -/
def doKeyAction (key : Nat) (s : Menu) : Option Menu :=
  if key = keyNone then some s
  else
    let s :=
      if key = keySelect then
        { s with uiState := if s.uiState = .main then .bolusMenu else .main }
      else s
    match s.uiState with
    | .main =>
        if key = keyLeft then some (s.does .pull)
        else if key = keyRight then some (s.does .push)
        else if key = keyUp then some (s.does (.more s.mLBolusStep))
        else if key = keyDown then some (s.does (.less s.mLBolusStep))
        else some s
    | .bolusMenu =>
        if key = keyUp then
          if s.mLBolusStepIdx < mLBolusStepsLength - 1 then s.moveTo (s.mLBolusStepIdx + 1)
          else some s
        else if key = keyDown then
          if s.mLBolusStepIdx > 0 then s.moveTo (s.mLBolusStepIdx - 1) else some s
        else some s

/-- The step is the entry of the table at its index. -/
def Menu.Valid (s : Menu) : Prop := bolusStep? s.mLBolusStepIdx = some s.mLBolusStep

/-- The indices of the table. -/
theorem bolusStep?_isSome_iff (idx : Int) :
    (bolusStep? idx).isSome = true ↔ 0 ≤ idx ∧ idx < mLBolusStepsLength := by
  simp only [bolusStep?, mLBolusStepsLength]
  split
  · rename_i hnonneg
    rw [isSome_getElem?]
    simp only [mLBolusSteps, List.length_cons, List.length_nil]
    omega
  · rename_i hneg
    simp [hneg]

theorem Menu.Valid.bounds {s : Menu} (h : s.Valid) :
    0 ≤ s.mLBolusStepIdx ∧ s.mLBolusStepIdx < mLBolusStepsLength :=
  (bolusStep?_isSome_iff _).1 (by rw [h]; rfl)

theorem Menu.moveTo_of_bounds (s : Menu) {idx : Int} (h₀ : 0 ≤ idx) (h : idx < mLBolusStepsLength) :
    ∃ s', s.moveTo idx = some s' ∧ s'.Valid := by
  rcases Option.isSome_iff_exists.1 ((bolusStep?_isSome_iff idx).2 ⟨h₀, h⟩) with ⟨step, hstep⟩
  refine ⟨{ s with mLBolusStepIdx := idx, mLBolusStep := step }, ?_, hstep⟩
  rw [Menu.moveTo, hstep]
  rfl

/-- No key leaves the table. -/
theorem doKeyAction_valid (key : Nat) {s : Menu} (h : s.Valid) :
    ∃ s', doKeyAction key s = some s' ∧ s'.Valid := by
  unfold doKeyAction
  split
  · exact ⟨s, rfl, h⟩
  -- The selection key changes the screen only.
  have hselected : (if key = keySelect then
      { s with uiState := if s.uiState = .main then .bolusMenu else .main } else s).Valid := by
    split
    · exact h
    · exact h
  generalize (if key = keySelect then
    { s with uiState := if s.uiState = .main then .bolusMenu else .main } else s) = s at hselected
  have hbounds := hselected.bounds
  cases hui : s.uiState with
  | main =>
      simp only [hui]
      split
      · exact ⟨_, rfl, hselected⟩
      split
      · exact ⟨_, rfl, hselected⟩
      split
      · exact ⟨_, rfl, hselected⟩
      split
      · exact ⟨_, rfl, hselected⟩
      · exact ⟨_, rfl, hselected⟩
  | bolusMenu =>
      simp only [hui]
      split
      · split
        · rename_i hroom
          exact s.moveTo_of_bounds (by omega) (by omega)
        · exact ⟨_, rfl, hselected⟩
      split
      · split
        · rename_i hroom
          exact s.moveTo_of_bounds (by omega) (by omega)
        · exact ⟨_, rfl, hselected⟩
      · exact ⟨_, rfl, hselected⟩

/-! ## Readings -/

/-- A key that was acted upon, and the time at which it was read. -/
structure Press where
  time : Nat
  key : Nat
  deriving DecidableEq, Repr

structure Keypad where
  timing : Timing
  menu : Menu
  /-- A ghost field: the keys acted upon, newest first. -/
  acted : List Press
  deriving DecidableEq, Repr

/-- The static variables of the menu at program start. -/
def Menu.start : Menu := ⟨.main, 3, 50, []⟩

def Keypad.start : Keypad := ⟨⟨0, 0, keyNone⟩, .start, []⟩

def Keypad.poll (s : Keypad) (adc : Nat) : Option Keypad :=
  match s.timing.read adc with
  | (none, timing) => some { s with timing := timing }
  | (some key, timing) =>
      (doKeyAction key s.menu).map fun menu =>
        ⟨timing, menu, ⟨s.timing.fakeMillis.toNat, key⟩ :: s.acted⟩

/-- The keypad after these readings; there is none if an index has left the table. -/
def pollAll (readings : List Nat) : Option Keypad := readings.foldlM Keypad.poll .start

theorem pollAll_append (readings : List Nat) (adc : Nat) :
    pollAll (readings ++ [adc]) = (pollAll readings).bind fun s => s.poll adc := by
  simp [pollAll, List.foldlM_append]

/-- What a reading makes of the times. -/
theorem Timing.read_case (adc : Nat) (s : Timing) :
    s.read adc = (none, ⟨s.fakeMillis + 1, s.lastKeyRepeatAt, getKey adc⟩) ∨
      getKey adc ≠ keyNone ∧
        (keyRepeatDelay < s.fakeMillis.toInt64 - s.lastKeyRepeatAt ∨
          s.prevKey = keyNone ∧ keyDebounce < s.fakeMillis.toInt64 - s.lastKeyRepeatAt) ∧
        s.read adc = (some (getKey adc), ⟨s.fakeMillis + 1, s.fakeMillis.toInt64, getKey adc⟩) := by
  unfold Timing.read
  dsimp only
  split
  · rename_i hprocess
    rcases hprocess with ⟨hkey, ⟨_, hrepeat⟩ | ⟨hnone, hdebounce⟩⟩
    · exact .inr ⟨hkey, .inl hrepeat, rfl⟩
    · exact .inr ⟨hkey, .inr ⟨hnone, hdebounce⟩, rfl⟩
  · exact .inl rfl

/-! ## The menu of a run -/

/-- The menu after the actions of these keys. -/
def menuAfter (keys : List Nat) : Option Menu := keys.foldlM (fun s key => doKeyAction key s) .start

/-- The menu is what the keys acted upon have made of it. -/
structure Steered (s : Keypad) : Prop where
  valid : s.menu.Valid
  menu : menuAfter (s.acted.map Press.key).reverse = some s.menu

theorem steered_start : Steered .start := ⟨rfl, rfl⟩

theorem Steered.poll {s : Keypad} (h : Steered s) (adc : Nat) :
    ∃ s', s.poll adc = some s' ∧ Steered s' := by
  rcases s.timing.read_case adc with hread | ⟨_, _, hread⟩
  · refine ⟨{ s with timing := ⟨s.timing.fakeMillis + 1, s.timing.lastKeyRepeatAt, getKey adc⟩ },
      by rw [Keypad.poll, hread], h.valid, h.menu⟩
  · rcases doKeyAction_valid (getKey adc) h.valid with ⟨menu, hmenu, hvalid⟩
    refine ⟨_, by rw [Keypad.poll, hread]; exact congrArg (Option.map _) hmenu, hvalid, ?_⟩
    have hbefore := h.menu
    rw [menuAfter] at hbefore
    rw [List.map_cons, List.reverse_cons, menuAfter, List.foldlM_append, hbefore]
    simp [hmenu]

theorem steered_pollAll (readings : List Nat) : ∃ s, pollAll readings = some s ∧ Steered s := by
  -- The induction peels the readings from the end, where the pump adds them.
  induction readings using List.reverseRecOn with
  | nil => exact ⟨.start, rfl, steered_start⟩
  | append_singleton readings adc ih =>
      rcases ih with ⟨s, hs, hsteered⟩
      rcases hsteered.poll adc with ⟨s', hs', hnext⟩
      exact ⟨s', by rw [pollAll_append, hs]; exact hs', hnext⟩

/-! ## The times of a run -/

/-- As long as the clock fits a `long`, the time since an earlier reading is what it says. -/
theorem lt_timeSince_iff {now earlier : Nat} (hle : earlier ≤ now) (hfits : now < 2 ^ 63)
    (delay : Int64) :
    delay < (UInt64.ofNat now).toInt64 - Int64.ofNat earlier ↔ earlier + delay.toInt < now := by
  rw [Int64.lt_iff_toInt_lt, Int64.toInt_sub, UInt64.toInt64_ofNat', Int64.toInt_ofNat_of_lt hfits,
    Int64.toInt_ofNat_of_lt (by omega), Int.bmod_eq_of_le (by omega) (by omega)]
  omega

/-- The key is the one of the reading at its time. -/
def PressedAt (readings : List Nat) (press : Press) : Prop :=
  press.key ≠ keyNone ∧ ∃ adc, readings[press.time]? = some adc ∧ getKey adc = press.key

def IdleAt (readings : List Nat) (t : Nat) : Prop :=
  ∃ adc, readings[t]? = some adc ∧ getKey adc = keyNone

/-- The delay of a repeated key lies between two actions, or no key is read in between and at least
the delay of a new key. -/
def Spaced (readings : List Nat) (later earlier : Press) : Prop :=
  earlier.time + keyDebounce.toInt < later.time ∧
    (earlier.time + keyRepeatDelay.toInt < later.time ∨
      ∃ t, earlier.time < t ∧ t < later.time ∧ IdleAt readings t)

theorem getElem?_of_append {readings : List Nat} {t adc₀ : Nat} (h : readings[t]? = some adc₀)
    (adc : Nat) : (readings ++ [adc])[t]? = some adc₀ := by
  rcases List.getElem?_eq_some_iff.1 h with ⟨hlt, _⟩
  rw [List.getElem?_append_left hlt]
  exact h

theorem PressedAt.append {readings : List Nat} {press : Press} (h : PressedAt readings press)
    (adc : Nat) : PressedAt (readings ++ [adc]) press := by
  rcases h with ⟨hne, adc₀, hadc, hkey⟩
  exact ⟨hne, adc₀, getElem?_of_append hadc adc, hkey⟩

theorem PressedAt.lt {readings : List Nat} {press : Press} (h : PressedAt readings press) :
    press.time < readings.length := by
  rcases h with ⟨_, adc, hadc, _⟩
  exact (List.getElem?_eq_some_iff.1 hadc).1

theorem Spaced.append {readings : List Nat} {later earlier : Press}
    (h : Spaced readings later earlier) (adc : Nat) :
    Spaced (readings ++ [adc]) later earlier := by
  rcases h with ⟨hdebounce, hrepeat | ⟨t, hafter, hbefore, adc₀, hadc, hkey⟩⟩
  · exact ⟨hdebounce, .inl hrepeat⟩
  · exact ⟨hdebounce, .inr ⟨t, hafter, hbefore, adc₀, getElem?_of_append hadc adc, hkey⟩⟩

/-- The time of the last action, or of the program start. -/
def lastTime (acted : List Press) : Nat := (acted.head?.map Press.time).getD 0

/-- What is known of the times after these readings. -/
structure Polled (readings : List Nat) (s : Keypad) : Prop where
  fakeMillis : s.timing.fakeMillis = .ofNat readings.length
  prevKey : s.timing.prevKey = (readings.getLast?.map getKey).getD keyNone
  lastKeyRepeatAt : s.timing.lastKeyRepeatAt = .ofNat (lastTime s.acted)
  pressed : ∀ press ∈ s.acted, keyDebounce.toInt < press.time ∧ PressedAt readings press
  spaced : s.acted.IsChain (Spaced readings)

theorem polled_start : Polled [] .start where
  fakeMillis := rfl
  prevKey := rfl
  lastKeyRepeatAt := rfl
  pressed := by simp [Keypad.start]
  spaced := .nil

section Polled

variable {readings : List Nat} {s : Keypad} (h : Polled readings s)
include h

theorem Polled.lastTime_le : lastTime s.acted ≤ readings.length := by
  have hpressed := h.pressed
  cases hacted : s.acted with
  | nil => exact Nat.zero_le _
  | cons press acted =>
      rw [hacted] at hpressed
      exact Nat.le_of_lt (hpressed press List.mem_cons_self).2.lt

theorem Polled.lt_timeSince_iff (hfits : readings.length < 2 ^ 63) (delay : Int64) :
    delay < s.timing.fakeMillis.toInt64 - s.timing.lastKeyRepeatAt ↔
      lastTime s.acted + delay.toInt < readings.length := by
  rw [h.fakeMillis, h.lastKeyRepeatAt, Syringe.lt_timeSince_iff h.lastTime_le hfits]

/-- An action keeps its distance from the one before. -/
theorem Polled.spaced_next {press : Press} (hnow : press.time = readings.length)
    (htime : lastTime s.acted + keyRepeatDelay.toInt < readings.length ∨
      s.timing.prevKey = keyNone ∧ lastTime s.acted + keyDebounce.toInt < readings.length) :
    (press :: s.acted).IsChain (Spaced readings) := by
  have hpressed := h.pressed
  have hspaced := h.spaced
  cases hacted : s.acted with
  | nil => exact .singleton _
  | cons earlier acted =>
      rw [hacted] at htime hpressed hspaced
      refine List.isChain_cons_cons.2 ⟨?_, hspaced⟩
      have hearlier : lastTime (earlier :: acted) = earlier.time := rfl
      rw [hearlier, ← hnow] at htime
      rcases htime with hrepeat | ⟨hnone, hdebounce⟩
      · refine ⟨Int.lt_trans ?_ hrepeat, .inl hrepeat⟩
        exact Int.add_lt_add_left (by decide) _
      · -- No key was read last, and a key was read at the earlier action.
        rcases (hpressed earlier List.mem_cons_self).2 with ⟨hpressedKey, adc, hadc, hkey⟩
        rcases List.getElem?_eq_some_iff.1 hadc with ⟨hlt, _⟩
        obtain ⟨last, hlastRead⟩ : ∃ last, readings[readings.length - 1]? = some last :=
          ⟨_, List.getElem?_eq_getElem (by omega)⟩
        have hidle : getKey last = keyNone := by
          rw [← hnone, h.prevKey, List.getLast?_eq_getElem?, hlastRead]
          rfl
        have hne : earlier.time ≠ readings.length - 1 := by
          intro heq
          rw [heq, hlastRead] at hadc
          rw [← hkey, ← Option.some.inj hadc] at hpressedKey
          exact hpressedKey hidle
        exact ⟨hdebounce, .inr ⟨readings.length - 1, by omega, by omega, last, hlastRead, hidle⟩⟩

/-- The step lemma. -/
theorem Polled.poll (hfits : readings.length < 2 ^ 63) {adc : Nat} {s' : Keypad}
    (hpoll : s.poll adc = some s') : Polled (readings ++ [adc]) s' := by
  have hmillis : s.timing.fakeMillis + 1 = .ofNat (readings ++ [adc]).length := by
    rw [h.fakeMillis, List.length_append, List.length_singleton, UInt64.ofNat_add]
    rfl
  -- The reading becomes the previous key whether or not the key is acted upon.
  have hprev : getKey adc = ((readings ++ [adc]).getLast?.map getKey).getD keyNone := by simp
  have hpressed : ∀ press ∈ s.acted,
      keyDebounce.toInt < press.time ∧ PressedAt (readings ++ [adc]) press := fun press hpress =>
    ⟨(h.pressed press hpress).1, (h.pressed press hpress).2.append adc⟩
  rcases s.timing.read_case adc with hread | ⟨hkey, htime, hread⟩
  · rw [Keypad.poll, hread] at hpoll
    obtain rfl := Option.some.inj hpoll
    exact ⟨hmillis, hprev, h.lastKeyRepeatAt, hpressed,
      h.spaced.imp fun _ _ hspaced => hspaced.append adc⟩
  · rw [Keypad.poll, hread] at hpoll
    rcases Option.map_eq_some_iff.1 hpoll with ⟨menu, _, rfl⟩
    rw [h.lt_timeSince_iff hfits, h.lt_timeSince_iff hfits] at htime
    have hnow : s.timing.fakeMillis.toNat = readings.length := by
      rw [h.fakeMillis, UInt64.toNat_ofNat_of_lt' (Nat.lt_trans hfits (by decide))]
    refine ⟨hmillis, hprev, ?_, ?_, ?_⟩
    · simp only [lastTime, List.head?_cons, Option.map_some, Option.getD_some, hnow]
      rw [h.fakeMillis, UInt64.toInt64_ofNat']
    · intro press hpress
      rcases List.mem_cons.1 hpress with rfl | hpress
      · -- Either delay is longer than the delay of a new key, from the start on.
        have hdelays : keyDebounce.toInt < keyRepeatDelay.toInt := by decide
        have hlate : keyDebounce.toInt < readings.length := by omega
        refine ⟨by rw [hnow]; exact hlate, hkey, adc, ?_, rfl⟩
        rw [hnow]
        exact List.getElem?_concat_length
      · exact hpressed press hpress
    · exact (h.spaced_next hnow htime).imp fun _ _ hspaced => hspaced.append adc

end Polled

theorem polled_pollAll (readings : List Nat) (hfits : readings.length ≤ 2 ^ 63) {s : Keypad}
    (hs : pollAll readings = some s) : Polled readings s := by
  induction readings using List.reverseRecOn generalizing s with
  | nil =>
      obtain rfl := Option.some.inj hs
      exact polled_start
  | append_singleton readings adc ih =>
      rw [List.length_append, List.length_singleton] at hfits
      rw [pollAll_append] at hs
      rcases Option.bind_eq_some_iff.1 hs with ⟨s₀, hs₀, hpoll⟩
      exact (ih (by omega) hs₀).poll (by omega) hpoll

/-- For every sequence of readings the pump stays inside its table of bolus steps, and its menu is
what the keys acted upon have made of it.  Until the clock overflows each of these is the key of the
reading at its time, and any two of them keep the delays. -/
theorem key_actions_spaced (readings : List Nat) :
    ∃ s, pollAll readings = some s ∧ s.menu.Valid ∧
      menuAfter (s.acted.map Press.key).reverse = some s.menu ∧
      (readings.length ≤ 2 ^ 63 →
        (∀ press ∈ s.acted, keyDebounce.toInt < press.time ∧ PressedAt readings press) ∧
          s.acted.IsChain (Spaced readings)) := by
  rcases steered_pollAll readings with ⟨s, hs, hsteered⟩
  refine ⟨s, hs, hsteered.valid, hsteered.menu, fun hfits => ?_⟩
  have hpolled := polled_pollAll readings hfits hs
  exact ⟨hpolled.pressed, hpolled.spaced⟩

example : (pollAll (List.replicate 126 999 ++ [100])).map Keypad.acted = some [⟨126, keyUp⟩] := by
  decide +kernel

end Syringe
end CFlat
