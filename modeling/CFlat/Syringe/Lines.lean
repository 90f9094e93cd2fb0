import CFlat.Syringe.Serial

/-!
# Lines — which input the pump interprets line by line

A command ends at a terminator, but `readSerial` reads on behind it and `processSerial` looks at the
first byte of the buffer also when the command is empty.  The pump follows the lines of its input
exactly when every piece of input that contains a terminator completes one line and nothing else.
-/

namespace CFlat
namespace Syringe

open Lib

variable {s : Pump} {cmd pending : List UInt8} {cmds lines : List (List UInt8)}

/-! ## The lines of a stream -/

/-- What the terminated lines of a stream ask for. -/
def lineActions (stream : List UInt8) : List Action :=
  (segments isTerminator stream []).1.filterMap interpret

/-- What a stream leaves behind its last terminator. -/
def unterminated (stream : List UInt8) : List UInt8 := (segments isTerminator stream []).2

/-- The lines of the stream fit into the buffer, and their numbers into an `int`. -/
def Ordinary (stream : List UInt8) : Prop :=
  ∀ line ∈ (segments isTerminator stream []).1,
    line.length ≤ 80 ∧ (line.all isDigit = true → decimal line ≤ intMax)

instance (stream : List UInt8) : Decidable (Ordinary stream) :=
  inferInstanceAs (Decidable (∀ line ∈ _, _ ∧ _))

/-- In every state between two pieces of input the actions are those of the lines so far, and the
bytes that wait are those behind the last terminator. -/
def FollowsLines (cmds : List (List UInt8)) : Prop :=
  ∀ done, done <+: cmds → ∃ s, (processCommands done .start).result = some s ∧
    s.actions = lineActions done.flatten ∧ s.waiting = unterminated done.flatten

/-! ## The condition -/

/-- `feed_serial` passes on the whole piece, and if it contains a terminator it completes one line
that is not empty, and leaves nothing behind it. -/
def OrderlyPiece (pending cmd : List UInt8) : Prop :=
  received cmd = cmd ∧
    if cmd.any isTerminator then
      ∃ line, ((segments isTerminator cmd pending).1.filter fun l => !l.isEmpty) = [line] ∧
        (segments isTerminator cmd pending).2 = [] ∧ line.length ≤ 80 ∧ InRange line
    else (pending ++ cmd).length ≤ 80

def Orderly : List UInt8 → List (List UInt8) → Prop
  | _, [] => True
  | pending, cmd :: cmds =>
      OrderlyPiece pending cmd ∧ Orderly (segments isTerminator cmd pending).2 cmds

instance decidableSingleton {α : Type*} {P : α → Prop} [DecidablePred P] :
    (l : List α) → Decidable (∃ x, l = [x] ∧ P x)
  | [] => isFalse (by simp)
  | [x] => decidable_of_iff (P x) (by simp)
  | _ :: _ :: _ => isFalse (by simp)

instance (pending cmd : List UInt8) : Decidable (OrderlyPiece pending cmd) :=
  inferInstanceAs (Decidable (_ ∧ ite _ _ _))

instance decidableOrderly : (pending : List UInt8) → (cmds : List (List UInt8)) →
    Decidable (Orderly pending cmds)
  | _, [] => isTrue trivial
  | pending, cmd :: cmds =>
      have := decidableOrderly (segments isTerminator cmd pending).2 cmds
      inferInstanceAs (Decidable (_ ∧ _))

/-- What is said of the pump and its input. -/
structure LineByLine (cmds : List (List UInt8)) : Prop where
  kept : Orderly [] cmds → (processCommands cmds .start).result.map Pump.actions =
    some (lineActions cmds.flatten)
  exact : (∀ cmd ∈ cmds, received cmd = cmd) → (FollowsLines cmds ↔ Orderly [] cmds)

/-! ## One piece of input -/

theorem length_filterMap_interpret (lines : List (List UInt8)) :
    (lines.filterMap interpret).length = (lines.filter fun l => !l.isEmpty).length := by
  induction lines with
  | nil => rfl
  | cons line lines ih =>
      cases h : interpret line with
      | none =>
          obtain rfl : line = [] := interpret_eq_none_iff.1 h
          rw [List.filterMap_cons_none h]
          simpa using ih
      | some a =>
          have hne : line ≠ [] := by
            rintro rfl
            simp at h
          simp [h, hne, ih]

/-- Empty lines ask for nothing. -/
theorem filterMap_interpret_filter (lines : List (List UInt8)) :
    (lines.filter fun l => !l.isEmpty).filterMap interpret = lines.filterMap interpret := by
  induction lines with
  | nil => rfl
  | cons line lines ih =>
      cases line with
      | nil =>
          rw [List.filterMap_cons_none interpret_nil]
          simpa using ih
      | cons c rest => simp [List.filterMap_cons, ih]

/-- A piece that completes one line collects this line. -/
theorem collected_of_segments {line : List UInt8}
    (hline : ((segments isTerminator cmd s.waiting).1.filter fun l => !l.isEmpty) = [line])
    (hrest : (segments isTerminator cmd s.waiting).2 = []) : s.collected cmd = line := by
  calc
    s.collected cmd = (segments isTerminator cmd s.waiting).1.flatten ++
        (segments isTerminator cmd s.waiting).2 := (flatten_segments _ _ _).symm
    _ = (segments isTerminator cmd s.waiting).1.flatten := by rw [hrest, List.append_nil]
    _ = line := by
        rw [← List.flatten_filter_not_isEmpty, hline]
        simp

theorem stored_eq_self (h : cmd.any isTerminator = false) : stored cmd = cmd := by
  rw [stored, List.filter_eq_self]
  intro c hc
  simpa using List.any_eq_false.1 h c hc

/-- What one piece of input does when the pump follows its lines. -/
def Follows (s : Pump) (cmd : List UInt8) (s' : Pump) : Prop :=
  s'.actions = s.actions ++ (segments isTerminator cmd s.waiting).1.filterMap interpret ∧
    s'.waiting = (segments isTerminator cmd s.waiting).2

theorem orderlyPiece_of_not_terminator (hterm : cmd.any isTerminator = false)
    (hcmd : received cmd = cmd) :
    OrderlyPiece s.waiting cmd ↔ (s.collected cmd).length ≤ 80 := by
  rw [OrderlyPiece, hterm, if_neg (by simp), Pump.collected, stored_eq_self hterm]
  exact and_iff_right hcmd

/-- The line that an orderly piece completes is what the pump has collected. -/
theorem orderlyPiece_of_terminator (hterm : cmd.any isTerminator = true)
    (hcmd : received cmd = cmd) :
    OrderlyPiece s.waiting cmd ↔
      ((segments isTerminator cmd s.waiting).1.filter fun l => !l.isEmpty) = [s.collected cmd] ∧
        (segments isTerminator cmd s.waiting).2 = [] ∧ (s.collected cmd).length ≤ 80 ∧
          InRange (s.collected cmd) := by
  rw [OrderlyPiece, hterm, if_pos rfl]
  constructor
  · rintro ⟨-, line, hline, hrest, hlength, hrange⟩
    obtain rfl := collected_of_segments hline hrest
    exact ⟨hline, hrest, hlength, hrange⟩
  · rintro ⟨hline, hrest, hlength, hrange⟩
    exact ⟨hcmd, s.collected cmd, hline, hrest, hlength, hrange⟩

/-- A loop whose input completes no line keeps it. -/
theorem follows_of_waits {s' : Pump} (hterm : cmd.any isTerminator = false)
    (hwaiting : s'.waiting = s.collected cmd) (hactions : s'.actions = s.actions) :
    Follows s cmd s' := by
  rw [Follows, segments_of_not_any hterm]
  refine ⟨by simpa using hactions, ?_⟩
  rw [hwaiting, Pump.collected, stored_eq_self hterm]

/-- A loop that does one thing and follows its lines has completed one line, which is what it has
collected. -/
theorem line_of_follows {s' : Pump} {a : Action} (hfollows : Follows s cmd s')
    (hwaiting : s'.waiting = []) (hactions : s'.actions = s.actions ++ [a]) :
    ((segments isTerminator cmd s.waiting).1.filter fun l => !l.isEmpty) = [s.collected cmd] ∧
      (segments isTerminator cmd s.waiting).2 = [] := by
  have hrest : (segments isTerminator cmd s.waiting).2 = [] := hfollows.2.symm.trans hwaiting
  have hone : (segments isTerminator cmd s.waiting).1.filterMap interpret = [a] :=
    List.append_cancel_left (hfollows.1.symm.trans hactions)
  have hlength : ((segments isTerminator cmd s.waiting).1.filter fun l => !l.isEmpty).length = 1 :=
    (length_filterMap_interpret _).symm.trans (congrArg List.length hone)
  obtain ⟨line, hline⟩ := List.length_eq_one_iff.1 hlength
  obtain rfl := collected_of_segments hline hrest
  exact ⟨hline, hrest⟩

/-- A line is not empty. -/
theorem collected_ne_nil
    (h : ((segments isTerminator cmd s.waiting).1.filter fun l => !l.isEmpty) =
      [s.collected cmd]) : s.collected cmd ≠ [] := by
  have hmem : s.collected cmd ∈
      (segments isTerminator cmd s.waiting).1.filter fun l => !l.isEmpty := by
    rw [h]
    exact List.mem_cons_self
  simpa using (List.mem_filter.1 hmem).2

theorem LoopCase.follows_iff {out : Option Pump} (h : LoopCase s cmd out)
    (hcmd : received cmd = cmd) :
    (∃ s', out = some s' ∧ Follows s cmd s') ↔ OrderlyPiece s.waiting cmd := by
  cases h with
  | overruns hover =>
      refine ⟨fun ⟨s', hnone, _⟩ => by simp at hnone, fun horderly => ?_⟩
      cases hterm : cmd.any isTerminator with
      | false =>
          have hfit := (orderlyPiece_of_not_terminator hterm hcmd).1 horderly
          exact absurd hfit (Nat.not_le.2 hover)
      | true =>
          have hfit := ((orderlyPiece_of_terminator hterm hcmd).1 horderly).2.2.1
          exact absurd hfit (Nat.not_le.2 hover)
  | overflows hterm hrange =>
      refine ⟨fun ⟨s', hnone, _⟩ => by simp at hnone, fun horderly => ?_⟩
      exact absurd ((orderlyPiece_of_terminator hterm hcmd).1 horderly).2.2.2 hrange
  | @waits s' hfit hterm hrests hwaiting hactions =>
      have horderly := (orderlyPiece_of_not_terminator hterm hcmd).2 hfit
      have hfollows := follows_of_waits hterm hwaiting hactions
      exact ⟨fun _ => horderly, fun _ => ⟨s', rfl, hfollows⟩⟩
  | @obeys s' a hfit hterm hrange ha hrests hwaiting hactions =>
      rw [orderlyPiece_of_terminator hterm hcmd]
      constructor
      · rintro ⟨_, hsome, hfollows⟩
        obtain rfl := Option.some.inj hsome
        obtain ⟨hline, hrest⟩ := line_of_follows hfollows hwaiting hactions
        exact ⟨hline, hrest, hfit, hrange⟩
      · rintro ⟨hline, hrest, -, -⟩
        refine ⟨s', rfl, ?_, by rw [hwaiting, hrest]⟩
        rw [hactions, ← filterMap_interpret_filter, hline]
        simp [ha]
  | @repeats s' hterm hempty hrests hwaiting hactions =>
      rw [orderlyPiece_of_terminator hterm hcmd]
      constructor
      · rintro ⟨_, hsome, hfollows⟩
        obtain rfl := Option.some.inj hsome
        have hline := (line_of_follows hfollows hwaiting hactions).1
        exact absurd hempty (collected_ne_nil hline)
      · rintro ⟨hline, -, -, -⟩
        exact absurd hempty (collected_ne_nil hline)

/-! ## Whole runs -/

/-- Behind a piece whose lines were followed, what follows is followed piece by piece. -/
theorem Follows.append_iff {rest : List UInt8} {s' s'' : Pump} (h : Follows s cmd s') :
    Follows s (cmd ++ rest) s'' ↔ Follows s' rest s'' := by
  simp only [Follows, segments_append, List.filterMap_append, h.1, h.2, List.append_assoc]

/-- The run lemma: from a pump between two loops, the lines are followed in every state exactly when
every piece is orderly. -/
theorem follows_iff_orderly (hcmds : ∀ cmd ∈ cmds, received cmd = cmd) (h : Rests s) :
    (∀ done, done <+: cmds → ∃ s', (processCommands done s).result = some s' ∧
      Follows s done.flatten s') ↔ Orderly s.waiting cmds := by
  induction cmds generalizing s with
  | nil =>
      refine ⟨fun _ => trivial, fun _ done hdone => ?_⟩
      rw [List.prefix_nil.1 hdone]
      exact ⟨s, rfl, by simp [Follows]⟩
  | cons cmd cmds ih =>
      have hcase := processCommand_case cmd h
      have hcmd : received cmd = cmd := hcmds cmd List.mem_cons_self
      rw [hcmd] at hcase
      have hstep := hcase.follows_iff hcmd
      have htail : ∀ cmd ∈ cmds, received cmd = cmd :=
        fun c hc => hcmds c (List.mem_cons_of_mem _ hc)
      constructor
      · intro hruns
        obtain ⟨s', hs', hfollows⟩ : ∃ s', (processCommand cmd s).result = some s' ∧
            Follows s cmd s' := by
          simpa [processCommands] using hruns [cmd] ⟨cmds, rfl⟩
        refine ⟨hstep.1 ⟨s', hs', hfollows⟩, ?_⟩
        rw [hs'] at hcase
        rw [← hfollows.2]
        refine (ih htail hcase.rests).1 fun done hdone => ?_
        obtain ⟨s'', hs'', hfollows'⟩ := hruns (cmd :: done) (List.cons_prefix_cons.2 ⟨rfl, hdone⟩)
        rw [result_processCommands_cons, hs', Option.bind_some] at hs''
        exact ⟨s'', hs'', hfollows.append_iff.1 hfollows'⟩
      · rintro ⟨hpiece, horderly⟩ done hdone
        obtain ⟨s', hs', hfollows⟩ := hstep.2 hpiece
        rw [hs'] at hcase
        rw [← hfollows.2] at horderly
        cases done with
        | nil => exact ⟨s, rfl, by simp [Follows]⟩
        | cons cmd' done =>
            obtain ⟨rfl, hdone'⟩ := List.cons_prefix_cons.1 hdone
            obtain ⟨s'', hs'', hfollows'⟩ := (ih htail hcase.rests).2 horderly done hdone'
            refine ⟨s'', ?_, hfollows.append_iff.2 hfollows'⟩
            rw [result_processCommands_cons, hs', Option.bind_some, hs'']

theorem Orderly.received_eq (h : Orderly pending cmds) : ∀ cmd ∈ cmds, received cmd = cmd := by
  induction cmds generalizing pending with
  | nil => exact fun _ hc => absurd hc List.not_mem_nil
  | cons cmd cmds ih =>
      intro c hc
      rcases List.mem_cons.1 hc with rfl | hc
      · exact h.1.1
      · exact ih h.2 c hc

theorem followsLines_iff (hcmds : ∀ cmd ∈ cmds, received cmd = cmd) :
    FollowsLines cmds ↔ Orderly [] cmds := by
  simpa [FollowsLines, Follows, lineActions, unterminated] using
    follows_iff_orderly hcmds rests_start

/-- The pump interprets orderly input line by line, and no other input that `feed_serial` passes
on. -/
theorem serial_line_by_line (cmds : List (List UInt8)) : LineByLine cmds where
  kept := by
    intro horderly
    obtain ⟨s, hs, hactions, -⟩ :=
      (followsLines_iff horderly.received_eq).2 horderly cmds (List.prefix_refl cmds)
    rw [hs, Option.map_some, hactions]
  exact := followsLines_iff

example : Orderly [] mainCommands := by decide +kernel

/-- An empty line repeats the push before it, and two lines that arrive together are one number. -/
theorem serial_not_line_by_line :
    (Ordinary (["+\n", "\n"].map bytes).flatten ∧
      (processCommands (["+\n", "\n"].map bytes) .start).result.map Pump.actions =
        some [.push, .push] ∧
      lineActions (["+\n", "\n"].map bytes).flatten = [.push]) ∧
    Ordinary (["1\n2\n"].map bytes).flatten ∧
      (processCommands (["1\n2\n"].map bytes) .start).result.map Pump.actions =
        some [.set 12] ∧
      lineActions (["1\n2\n"].map bytes).flatten = [.set 1, .set 2] := by
  decide +kernel

end Syringe
end CFlat
