import Mathlib.Algebra.Order.Field.Rat
import Mathlib.Data.List.Chain
import Mathlib.Tactic.Linarith
import Wallbot.ControlLoopTrace

namespace Wallbot.Linux

/-!
# The duty ramp

Every message that the loop acts on raises `duty` by 10, up to 1000, and nothing else moves it.

* `datagram_outcome` — what a pass makes of a datagram that does not abort it, and
  `acts_on_wellFormed_iff` — for which datagrams this is what their form asks for.
* `Ramp` — the invariant of the loop: `duty` in closed form, and the velocities so far.
* `Rearranged` — traffic that differs only in what the ramp does not see.
* `duty_ramp` — the ramp of any run, under any such change.
-/

/-! ### Datagrams that are acted on -/

/-- `duty` is stepped, and one message is published. -/
def Commands (s s' : LoopState) : Prop :=
  s'.duty = clampedDuty (s.duty + 10) ∧
    ∃ twist, twists s'.events = twists s.events ++ [twist] ∧
      twist.linearX = targetVelocity s'.duty

/-- `duty` and the actuator stay, and nothing is published. -/
def LeavesAlone (s s' : LoopState) : Prop :=
  s'.duty = s.duty ∧ s'.actuator = s.actuator ∧ twists s'.events = twists s.events

/-- The pass acts on the datagram if it is well-formed, and leaves things alone if it is not. -/
def ActsOnWellFormed (s s' : LoopState) (payload : List UInt8) : Prop :=
  (Commands s s' ↔ WellFormed payload) ∧ (LeavesAlone s s' ↔ ¬ WellFormed payload)

variable {s s' : LoopState} {payload : List UInt8}

/-- A pass cannot do both: the list of messages would be its own extension. -/
theorem not_commands_of_leavesAlone (h : LeavesAlone s s') : ¬ Commands s s' := by
  rintro ⟨-, twist, htwists, -⟩
  have hself : twists s.events = twists s.events ++ [twist] := h.2.2.symm.trans htwists
  simp at hself

/-- A message with a good header is acted on. -/
theorem commands_handleMsg (s : LoopState) {msg : WireMsg} (h : headerFault msg = none) :
    Commands s (handleMsg s msg) := by
  rw [handleMsg_of_valid s h]
  refine ⟨rfl, twistOf s.actuator.seqnum (targetVelocity (clampedDuty (s.duty + 10))), ?_, rfl⟩
  simp [twists]

/-- A message with a bad header is left alone. -/
theorem leavesAlone_handleMsg (s : LoopState) {msg : WireMsg} (h : headerFault msg ≠ none) :
    LeavesAlone s (handleMsg s msg) := by
  obtain ⟨reason, hreason⟩ := Option.ne_none_iff_exists'.mp h
  rw [handleMsg_of_fault s hreason]
  refine ⟨rfl, rfl, ?_⟩
  simp [twists]

/-- **What becomes of a datagram** that does not abort the loop: it is acted on if it fills the
    receive buffer and its header fits. -/
theorem datagram_outcome (hok : (loopPass s (.datagram payload)).phase ≠ .aborted) :
    (wireMsgSize ≤ payload.length ∧ HeaderFits payload ∧
      Commands s (loopPass s (.datagram payload))) ∨
    (¬ (wireMsgSize ≤ payload.length ∧ HeaderFits payload) ∧
      LeavesAlone s (loopPass s (.datagram payload))) := by
  rcases lt_or_ge payload.length wireMsgSize with hlt | hge
  · right
    refine ⟨fun h => absurd h.1 (not_le.mpr hlt), ?_⟩
    -- Too short, and not aborted: the pass did nothing.
    rw [loopPass_short_datagram s hlt] at hok ⊢
    by_cases herr : s.errno = .eagain
    · rw [if_pos herr]
      exact ⟨rfl, rfl, rfl⟩
    · rw [if_neg herr] at hok
      exact absurd rfl hok
  · have hheader := headerFault_seenMsg_iff hge
    rw [loopPass_datagram s hge]
    by_cases hfits : HeaderFits payload
    · left
      exact ⟨hge, hfits, commands_handleMsg s (hheader.mpr hfits)⟩
    · right
      refine ⟨fun h => hfits h.2, leavesAlone_handleMsg s fun hnone => ?_⟩
      exact hfits (hheader.mp hnone)

/-- **Which datagrams are acted on as they should be.**  All that do not abort the loop, but for
    those that are longer than a message and begin like one. -/
theorem acts_on_wellFormed_iff (hstep : controlLoop.step s (.datagram payload) = some s')
    (hok : s'.phase ≠ .aborted) :
    ActsOnWellFormed s s' payload ↔ ¬ (wireMsgSize < payload.length ∧ HeaderFits payload) := by
  obtain ⟨-, rfl⟩ := controlLoop_step_eq_some.mp hstep
  obtain ⟨hge, hfits, hacts⟩ | ⟨hnot, halone⟩ := datagram_outcome hok
  · have hmoved : ¬ LeavesAlone s (loopPass s (.datagram payload)) :=
      fun halone => not_commands_of_leavesAlone halone hacts
    constructor
    · rintro ⟨hiff, -⟩ ⟨hlong, -⟩
      exact hlong.ne' (hiff.mp hacts).1
    · intro hshort
      have hsize : payload.length = wireMsgSize :=
        Nat.le_antisymm (not_lt.mp fun hlong => hshort ⟨hlong, hfits⟩) hge
      have hform : WellFormed payload := ⟨hsize, hfits⟩
      exact ⟨iff_of_true hacts hform, iff_of_false hmoved (not_not.mpr hform)⟩
  · -- What is left alone is not well-formed, and no such message either.
    have hform : ¬ WellFormed payload := fun hform => hnot ⟨hform.1.ge, hform.2⟩
    refine iff_of_true ⟨?_, iff_of_true halone hform⟩ fun hlong => hnot ⟨hlong.1.le, hlong.2⟩
    exact iff_of_false (not_commands_of_leavesAlone halone) hform

/-- A message of 11 bytes is acted on, as it should be. -/
theorem message_acts_on_wellFormed :
    ActsOnWellFormed mainStart
      (loopPass mainStart (.datagram [0xAA, 0xBB, 0xF0, 1, 0, 0, 0, 232, 3, 0, 0]))
      [0xAA, 0xBB, 0xF0, 1, 0, 0, 0, 232, 3, 0, 0] := by
  apply (acts_on_wellFormed_iff rfl (by decide)).mpr
  decide

/-- A datagram of 12 bytes is cut to size and acted on as well. -/
theorem long_datagram_acts :
    ∃ s', controlLoop.step mainStart
        (.datagram [0xAA, 0xBB, 0xF0, 1, 0, 0, 0, 232, 3, 0, 0, 0]) = some s' ∧
      s'.phase ≠ .aborted ∧
      ¬ ActsOnWellFormed mainStart s' [0xAA, 0xBB, 0xF0, 1, 0, 0, 0, 232, 3, 0, 0, 0] := by
  refine ⟨_, rfl, by decide, ?_⟩
  rintro ⟨hiff, -⟩
  have hacts : Commands mainStart (loopPass mainStart
      (.datagram [0xAA, 0xBB, 0xF0, 1, 0, 0, 0, 232, 3, 0, 0, 0])) := by
    rw [loopPass_datagram mainStart (by decide)]
    exact commands_handleMsg mainStart (by decide)
  exact absurd (hiff.mp hacts) (by decide)

/-! ### The ramp -/

/-- The datagrams of a run, in order. -/
def datagrams (ws : List Wake) : List (List UInt8) :=
  ws.filterMap fun
    | .datagram payload => some payload
    | _ => none

/-- The number of well-formed datagrams among `ps`. -/
def messages (ps : List (List UInt8)) : ℕ :=
  ps.countP WellFormed

/-- The velocities that were commanded in `es`, in order. -/
def velocities (es : List Event) : List ℚ :=
  (twists es).map Twist.linearX

/-- A velocity may stay or rise by at most 1/100. -/
def Rises (v v' : ℚ) : Prop :=
  v ≤ v' ∧ v' ≤ v + 1 / 100

/-- The state of the loop after `n` messages. -/
structure Ramp (n : ℕ) (s : LoopState) : Prop where
  duty : s.duty.toNat = min 1000 (10 * n)
  last : (velocities s.events).getLast? = some (targetVelocity s.duty)
  range : ∀ v ∈ velocities s.events, 0 ≤ v ∧ v ≤ 1
  rises : (velocities s.events).IsChain Rises

/-- The ramp before the loop: the start-up has commanded 0. -/
theorem ramp_start : Ramp 0 mainStart where
  duty := rfl
  last := by
    show some (0 : ℚ) = some (targetVelocity 0)
    rw [targetVelocity_eq]
    simp
  range := by
    intro v hv
    obtain rfl : v = 0 := List.mem_singleton.mp hv
    exact ⟨le_rfl, zero_le_one⟩
  rises := List.isChain_singleton 0

/-- One more message. -/
theorem Ramp.commands {n : ℕ} (h : Ramp n s) (hacts : Commands s s') : Ramp (n + 1) s' := by
  obtain ⟨hduty, twist, htwists, hspeed⟩ := hacts
  have hle : s.duty.toNat ≤ 1000 := h.duty ▸ min_le_left _ _
  have hnext : s'.duty.toNat = min 1000 (s.duty.toNat + 10) := by
    rw [hduty, clampedDuty_toNat, duty_add_toNat hle]
  have hvelocities : velocities s'.events = velocities s.events ++ [targetVelocity s'.duty] := by
    rw [velocities, htwists, List.map_append, List.map_singleton, hspeed, velocities]
  -- The new velocity against the last one, in thousandths.
  have hlow : s.duty.toNat ≤ s'.duty.toNat := by omega
  have hhigh : s'.duty.toNat ≤ s.duty.toNat + 10 := by omega
  have htop : s'.duty.toNat ≤ 1000 := by omega
  have hlow' : (s.duty.toNat : ℚ) ≤ s'.duty.toNat := Nat.cast_le.mpr hlow
  have hhigh' : (s'.duty.toNat : ℚ) ≤ s.duty.toNat + 10 := by exact_mod_cast hhigh
  have htop' : (s'.duty.toNat : ℚ) ≤ 1000 := by exact_mod_cast htop
  have hpos : (0 : ℚ) ≤ s'.duty.toNat := Nat.cast_nonneg _
  refine ⟨?_, ?_, ?_, ?_⟩
  · rw [hduty]
    exact LoopState.ramped_next h.duty
  · rw [hvelocities, List.getLast?_concat]
  · rw [hvelocities, List.forall_mem_append, List.forall_mem_singleton, targetVelocity_eq]
    exact ⟨h.range, by linarith, by linarith⟩
  · rw [hvelocities, List.isChain_append]
    refine ⟨h.rises, List.isChain_singleton _, ?_⟩
    intro v hv v' hv'
    obtain rfl : targetVelocity s.duty = v := by
      rw [h.last] at hv
      exact Option.mem_some.mp hv
    obtain rfl : targetVelocity s'.duty = v' := Option.mem_some.mp hv'
    rw [Rises, targetVelocity_eq, targetVelocity_eq]
    constructor <;> linarith

/-- A pass that leaves things alone. -/
theorem Ramp.leavesAlone {n : ℕ} (h : Ramp n s) (halone : LeavesAlone s s') : Ramp n s' := by
  obtain ⟨hduty, -, htwists⟩ := halone
  have hvelocities : velocities s'.events = velocities s.events := by
    rw [velocities, htwists, velocities]
  exact ⟨hduty ▸ h.duty, by rw [hvelocities, hduty, h.last], hvelocities ▸ h.range,
    hvelocities ▸ h.rises⟩

/-- The datagrams of one pass more. -/
theorem datagrams_concat (ws : List Wake) (w : Wake) :
    datagrams (ws ++ [w]) = datagrams ws ++ datagrams [w] := by
  rw [datagrams, List.filterMap_append]
  rfl

/-- The datagrams are those of the passes. -/
theorem mem_datagrams {ws : List Wake} : payload ∈ datagrams ws ↔ .datagram payload ∈ ws := by
  rw [datagrams, List.mem_filterMap]
  constructor
  · rintro ⟨w, hw, hpayload⟩
    cases w with
    | datagram p =>
      obtain rfl : p = payload := Option.some.inj hpayload
      exact hw
    | _ => cases hpayload
  · exact fun h => ⟨_, h, rfl⟩

/-- Messages are counted apart in two parts of the traffic. -/
theorem messages_append (ps qs : List (List UInt8)) :
    messages (ps ++ qs) = messages ps + messages qs :=
  List.countP_append

/-- **A pass of the ramp** counts a datagram exactly when it acts on it. -/
theorem Ramp.pass {n : ℕ} {w : Wake} (h : Ramp n s) (hrunning : s.phase = .running)
    (hw : w.continues) (hlen : ∀ payload ∈ datagrams [w], payload.length = wireMsgSize) :
    Ramp (n + messages (datagrams [w])) (loopPass s w) := by
  rcases hw with hw | rfl
  · cases w with
    | idle => exact h
    | selectFails e =>
      cases hw
      exact h.leavesAlone ⟨rfl, rfl, rfl⟩
    | datagram payload =>
      have hsize : payload.length = wireMsgSize := hlen payload (List.mem_singleton_self payload)
      have hok : (loopPass s (.datagram payload)).phase ≠ .aborted := by
        rw [loopPass_datagram s hsize.ge, handleMsg_phase, hrunning]
        decide
      obtain ⟨-, hfits, hacts⟩ | ⟨hnot, halone⟩ := datagram_outcome hok
      · have hone : messages (datagrams [.datagram payload]) = 1 := by
          simp [messages, datagrams, WellFormed, hsize, hfits]
        rw [hone]
        exact h.commands hacts
      · have hfits : ¬ HeaderFits payload := fun hfits => hnot ⟨hsize.ge, hfits⟩
        have hnone : messages (datagrams [.datagram payload]) = 0 := by
          simp [messages, datagrams, WellFormed, hfits]
        rw [hnone]
        exact h.leavesAlone halone
    | recvFails e => exact hw.elim
    | stop => exact hw.elim
  · exact h.leavesAlone ⟨rfl, rfl, rfl⟩

/-- **The ramp of a run.** -/
theorem run_ramp {ws : List Wake} (hws : ∀ w ∈ ws, w.continues)
    (hlen : ∀ payload ∈ datagrams ws, payload.length = wireMsgSize)
    (h : controlLoop.run ws = some s) : Ramp (messages (datagrams ws)) s := by
  refine Machine.run_history (M := controlLoop)
    (I := fun ws s => (∀ w ∈ ws, w.continues) →
      (∀ payload ∈ datagrams ws, payload.length = wireMsgSize) → Ramp (messages (datagrams ws)) s)
    (fun _ _ => ramp_start) ?_ h hws hlen
  intro ws s w s' ih hstep hws hlen
  rw [datagrams_concat] at hlen ⊢
  rw [List.forall_mem_append] at hws hlen
  rw [messages_append]
  obtain ⟨hrunning, rfl⟩ := controlLoop_step_eq_some.mp hstep
  exact (ih hws.1 hlen.1).pass hrunning (hws.2 w (List.mem_singleton_self w)) hlen.2

/-! ### What the ramp does not see -/

/-- Traffic that differs in the order of its datagrams, in datagrams that are no messages, and in
    what follows the first three bytes. -/
inductive Rearranged : List (List UInt8) → List (List UInt8) → Prop where
  | perm {ps qs : List (List UInt8)} : ps.Perm qs → Rearranged ps qs
  | insert (ps qs : List (List UInt8)) (payload : List UInt8) :
      payload.length = wireMsgSize → ¬ WellFormed payload →
        Rearranged (ps ++ qs) (ps ++ payload :: qs)
  | delete (ps qs : List (List UInt8)) (payload : List UInt8) :
      ¬ WellFormed payload → Rearranged (ps ++ payload :: qs) (ps ++ qs)
  | fields (ps qs : List (List UInt8)) (payload payload' : List UInt8) :
      payload'.length = payload.length → payload'.take 3 = payload.take 3 →
        Rearranged (ps ++ payload :: qs) (ps ++ payload' :: qs)
  | trans {ps qs rs : List (List UInt8)} :
    Rearranged ps qs → Rearranged qs rs → Rearranged ps rs

/-- Rearranged traffic is of 11-byte datagrams as well. -/
theorem Rearranged.length_eq {ps qs : List (List UInt8)} (h : Rearranged ps qs)
    (hps : ∀ payload ∈ ps, payload.length = wireMsgSize) :
    ∀ payload ∈ qs, payload.length = wireMsgSize := by
  induction h with
  | perm hperm => exact fun payload hq => hps payload (hperm.mem_iff.mpr hq)
  | insert ps qs payload hsize _ =>
    rw [List.forall_mem_append] at hps
    rw [List.forall_mem_append, List.forall_mem_cons]
    exact ⟨hps.1, hsize, hps.2⟩
  | delete ps qs payload _ =>
    rw [List.forall_mem_append, List.forall_mem_cons] at hps
    rw [List.forall_mem_append]
    exact ⟨hps.1, hps.2.2⟩
  | fields ps qs payload payload' hsize _ =>
    rw [List.forall_mem_append, List.forall_mem_cons] at hps ⊢
    exact ⟨hps.1, hsize.trans hps.2.1, hps.2.2⟩
  | trans _ _ ih ih' => exact ih' (ih hps)

/-- What one datagram among others adds to the count. -/
theorem messages_append_cons (ps qs : List (List UInt8)) (payload : List UInt8) :
    messages (ps ++ payload :: qs) =
      messages (ps ++ qs) + if WellFormed payload then 1 else 0 := by
  rw [messages_append, messages_append, messages, messages, messages, List.countP_cons]
  simp only [decide_eq_true_eq]
  omega

/-- The count of messages does not see a rearrangement. -/
theorem Rearranged.messages_eq {ps qs : List (List UInt8)} (h : Rearranged ps qs) :
    messages ps = messages qs := by
  induction h with
  | perm hperm => exact hperm.countP_eq _
  | insert ps qs payload _ hform => rw [messages_append_cons, if_neg hform, Nat.add_zero]
  | delete ps qs payload hform => rw [messages_append_cons, if_neg hform, Nat.add_zero]
  | fields ps qs payload payload' hsize htake =>
    have hform : WellFormed payload' ↔ WellFormed payload := by
      rw [WellFormed, WellFormed, HeaderFits, HeaderFits, hsize, htake]
    rw [messages_append_cons, messages_append_cons, if_congr hform rfl rfl]
  | trans _ _ ih ih' => exact ih.trans ih'

/-- **The duty ramp.**  After any 11-byte datagrams among idle and interrupted passes, `duty` is
    10 for each message, up to 1000, and the next addition does not wrap; the last velocity is
    `duty / 1000`, and the velocities rise from 0 to 1 by at most 1/100 at a time; and rearranged
    traffic ends at the same `duty`. -/
theorem duty_ramp {ws : List Wake} (hws : ∀ w ∈ ws, w.continues)
    (hlen : ∀ payload ∈ datagrams ws, payload.length = wireMsgSize) :
    ∃ s, controlLoop.run ws = some s ∧ s.phase = .running ∧
      s.duty.toNat = min 1000 (10 * messages (datagrams ws)) ∧
      s.duty.toNat ≤ 1000 ∧ s.duty.toNat + 10 ≤ 1010 ∧
      (s.duty + 10).toNat = s.duty.toNat + 10 ∧
      (velocities s.events).getLast? = some ((s.duty.toNat : ℚ) / 1000) ∧
      (∀ v ∈ velocities s.events, 0 ≤ v ∧ v ≤ 1) ∧
      (velocities s.events).IsChain (fun v v' => v ≤ v' ∧ v' ≤ v + 1 / 100) ∧
      ∀ ws', (∀ w ∈ ws', w.continues) → Rearranged (datagrams ws) (datagrams ws') →
        ∃ s', controlLoop.run ws' = some s' ∧ s'.phase = .running ∧ s'.duty = s.duty := by
  have hfull (vs : List Wake) (hvs : ∀ payload ∈ datagrams vs, payload.length = wireMsgSize) :
      ∀ payload, .datagram payload ∈ vs → wireMsgSize ≤ payload.length :=
    fun payload hmem => (hvs payload (mem_datagrams.mpr hmem)).ge
  obtain ⟨s, hs, hrunning⟩ := run_of_full_datagrams hws (hfull ws hlen)
  have hramp := run_ramp hws hlen hs
  have hle : s.duty.toNat ≤ 1000 := hramp.duty ▸ min_le_left _ _
  refine ⟨s, hs, hrunning, hramp.duty, hle, Nat.add_le_add_right hle 10, duty_add_toNat hle,
    hramp.last.trans (congrArg some (targetVelocity_eq s.duty)), hramp.range, hramp.rises, ?_⟩
  intro ws' hws' hrearranged
  have hlen' := hrearranged.length_eq hlen
  obtain ⟨s', hs', hrunning'⟩ := run_of_full_datagrams hws' (hfull ws' hlen')
  have hramp' := run_ramp hws' hlen' hs'
  refine ⟨s', hs', hrunning', UInt16.toNat_inj.mp ?_⟩
  rw [hramp'.duty, hramp.duty, hrearranged.messages_eq]

/-- The ramp of a message, a corrupt one and an interruption. -/
theorem valid_corrupt_ramp :
    ∃ s, controlLoop.run
        [.datagram [0xAA, 0xBB, 0xF0, 1, 0, 0, 0, 232, 3, 0, 0], .selectFails .eintr,
          .datagram (List.replicate 11 0)] = some s ∧ s.duty.toNat = 10 := by
  obtain ⟨s, hs, -, hduty, -⟩ := @duty_ramp
    [.datagram [0xAA, 0xBB, 0xF0, 1, 0, 0, 0, 232, 3, 0, 0], .selectFails .eintr,
      .datagram (List.replicate 11 0)] (by simp [Wake.continues, Wake.isTraffic]) (by decide)
  exact ⟨s, hs, hduty⟩

end Wallbot.Linux
