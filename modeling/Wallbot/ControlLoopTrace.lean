import Wallbot.ControlLoopTraffic

namespace Wallbot.Linux

/-!
# The event language of the control loop

What a whole run of `main` leaves behind, as a list of tracepoints and published messages.
The sequence number of a `set_pwm` event is read before `actuator_set_vel` counts it, so the
two counters must be related along the run:

* `IgnoredMsg`, `ActedMsg` — the two shapes of what follows a `received_msg`;
* `Paired` — every `set_pwm` is followed at once by its message, and no message stands
  without one;
* `rampTo` — the duties of the `set_pwm` events, in order;
* `LoopTrace` — the invariant of the loop, kept by every pass (`LoopTrace.loopPass`);
* `run_trace` — the events of a run that ends with a stop signal.
-/

/-- The messages published in `es`, in order. -/
def twists (es : List Event) : List Twist :=
  es.filterMap fun
    | .published twist => some twist
    | _ => none

/-- The sequence numbers `1, 2, …, n`, counted modulo `2 ^ 32`, as decimal strings. -/
def countedTo (n : ℕ) : List String :=
  (List.range n).map fun k => toString ((k + 1) % 2 ^ 32)

/-- The duties of the `set_pwm` events in `es`, in order. -/
def duties (es : List Event) : List UInt16 :=
  es.filterMap fun
    | .setPwm _ duty => some duty
    | _ => none

/-- The first `n` duties of the loop, from 0 by 10 up to 1000. -/
def rampTo (n : ℕ) : List ℕ :=
  (List.range n).map fun k => min 1000 (10 * k)

/-- A message that was traced as invalid and published nothing. -/
def IgnoredMsg (seg : List Event) : Prop :=
  ∃ magic0 magic1 type seqnum wheelSpeed reason,
    seg = [.receivedMsg magic0 magic1 type seqnum wheelSpeed, .invalidMsg reason]

/-- A message that was answered by a velocity, its `set_pwm` and its publication. -/
def ActedMsg (seg : List Event) : Prop :=
  ∃ magic0 magic1 type seqnum wheelSpeed seq duty,
    seg =
      [.receivedMsg magic0 magic1 type seqnum wheelSpeed,
       .targetVelocity ((duty.toNat : ℚ) / 1000),
       .setPwm seq duty,
       .published (twistOf seq ((duty.toNat : ℚ) / 1000))]

/-- Every `set_pwm` is followed at once by a message of its sequence number and velocity
    `duty / 1000`, and no message is published otherwise. -/
def Paired : List Event → Prop
  | [] => True
  | .setPwm seqnum duty :: .published twist :: es =>
    twist = twistOf seqnum ((duty.toNat : ℚ) / 1000) ∧ Paired es
  | .setPwm _ _ :: _ => False
  | .published _ :: _ => False
  | _ :: es => Paired es

/-- Pairs do not reach across a cut between two paired lists. -/
theorem Paired.append {es fs : List Event} (he : Paired es) (hf : Paired fs) :
    Paired (es ++ fs) := by
  fun_induction Paired es with
  | case1 => exact hf
  | case2 seqnum duty twist es ih => exact ⟨he.1, ih he.2⟩
  | case3 => exact he.elim
  | case4 => exact he.elim
  | case5 e es _ hset hpub ih =>
    -- Neither a `set_pwm` nor a message, so `Paired` looks through it.
    have h := ih he
    cases e with
    | setPwm seqnum duty => exact (hset seqnum duty rfl).elim
    | published twist => exact (hpub twist rfl).elim
    | _ => exact h

/-- One more number is counted at the end. -/
theorem countedTo_succ (n : ℕ) :
    countedTo (n + 1) = countedTo n ++ [toString ((n + 1) % 2 ^ 32)] := by
  rw [countedTo, countedTo, List.range_succ, List.map_append, List.map_singleton]

/-- The next duty of the ramp is the clamped sum. -/
theorem rampTo_concat {ds : List UInt16} {duty : UInt16} {n : ℕ}
    (hds : ds.map UInt16.toNat = rampTo n) (hduty : duty.toNat = min 1000 (10 * n)) :
    (ds ++ [duty]).map UInt16.toNat = rampTo (n + 1) := by
  rw [List.map_append, List.map_singleton, hds, hduty, rampTo, rampTo, List.range_succ,
    List.map_append, List.map_singleton]

/-! ### The invariant of the loop -/

/-- What `main` has emitted before its loop. -/
def startEvents : List Event :=
  [.startup, .init, .setPwm 1 0, .published (twistOf 1 0)]

/-- The start-up followed by a series of received messages, each ignored or acted on. -/
def HandledMsgs (es : List Event) : Prop :=
  ∃ segs : List (List Event), es = startEvents ++ segs.flatten ∧
    ∀ seg ∈ segs, IgnoredMsg seg ∨ ActedMsg seg

/-- A segment more at the end. -/
theorem HandledMsgs.concat {es seg : List Event} (h : HandledMsgs es)
    (hseg : IgnoredMsg seg ∨ ActedMsg seg) : HandledMsgs (es ++ seg) := by
  obtain ⟨segs, hes, hall⟩ := h
  refine ⟨segs ++ [seg], ?_, ?_⟩
  · rw [hes, List.flatten_append, List.flatten_singleton, List.append_assoc]
  · rw [List.forall_mem_append, List.forall_mem_singleton]
    exact ⟨hall, hseg⟩

/-- The events of `main` while it is in its loop, in which the actuator's counter is one
    ahead of the published messages, and `duty` is the last of the ramp. -/
structure LoopTrace (s : LoopState) : Prop where
  handled : HandledMsgs s.events
  paired : Paired s.events
  counted : (twists s.events).map Twist.seq = countedTo (twists s.events).length
  next : s.actuator.seqnum.toNat = ((twists s.events).length + 1) % 2 ^ 32
  ramped : ∃ n, (duties s.events).map UInt16.toNat = rampTo (n + 1) ∧
    s.duty.toNat = min 1000 (10 * n)

/-- The start-up publishes message 1, with duty 0. -/
theorem loopTrace_start : LoopTrace mainStart where
  handled := ⟨[], rfl, by simp⟩
  paired := by
    show _ ∧ True
    exact ⟨by simp [twistOf]; rfl, trivial⟩
  counted := rfl
  next := rfl
  ramped := ⟨0, rfl, rfl⟩

/-- The decimal string of the actuator's counter is the next string to be counted. -/
theorem twistOf_seq {n : ℕ} {seqnum : UInt32} (h : seqnum.toNat = (n + 1) % 2 ^ 32) (v : ℚ) :
    (twistOf seqnum v).seq = toString ((n + 1) % 2 ^ 32) := by
  rw [← h]; rfl

/-- The counter goes on modulo `2 ^ 32`. -/
theorem seqnum_succ {n : ℕ} {seqnum : UInt32} (h : seqnum.toNat = (n + 1) % 2 ^ 32) :
    (seqnum + 1).toNat = (n + 1 + 1) % 2 ^ 32 := by
  have hadd : (seqnum + 1).toNat = (seqnum.toNat + 1) % 2 ^ 32 := UInt32.toNat_add _ _
  rw [hadd, h, Nat.mod_add_mod]

/-- Counting one more published message. -/
theorem counted_concat {ts : List Twist} {seqnum : UInt32} (v : ℚ)
    (hcounted : ts.map Twist.seq = countedTo ts.length)
    (hnext : seqnum.toNat = (ts.length + 1) % 2 ^ 32) :
    (ts ++ [twistOf seqnum v]).map Twist.seq = countedTo (ts ++ [twistOf seqnum v]).length := by
  rw [List.map_append, List.map_singleton, List.length_append, List.length_singleton,
    countedTo_succ, hcounted, twistOf_seq hnext]

/-- The factor 1.0 of the source does nothing. -/
theorem targetVelocity_eq (duty : UInt16) : targetVelocity duty = (duty.toNat : ℚ) / 1000 :=
  mul_one _

/-- The clamped step of `duty` goes on with the ramp. -/
theorem LoopState.ramped_next {s : LoopState} {n : ℕ} (h : s.duty.toNat = min 1000 (10 * n)) :
    (clampedDuty (s.duty + 10)).toNat = min 1000 (10 * (n + 1)) := by
  rw [clampedDuty_toNat, duty_add_toNat (h ▸ min_le_left _ _), h]
  omega

/-- One more handled message. -/
theorem LoopTrace.handleMsg {s : LoopState} (h : LoopTrace s) (msg : WireMsg) :
    LoopTrace (handleMsg s msg) := by
  cases hf : headerFault msg with
  | some reason =>
    -- Nothing is published, so both counters and `duty` stay.
    rw [handleMsg_of_fault s hf]
    refine ⟨?_, ?_, ?_, ?_, ?_⟩
    · exact h.handled.concat (.inl ⟨_, _, _, _, _, reason, rfl⟩)
    · exact h.paired.append (by simp [Paired])
    · simpa [twists] using h.counted
    · simpa [twists] using h.next
    · simpa [duties] using h.ramped
  | none =>
    -- The `set_pwm` shows the counter before it is counted on, as the message does.
    rw [handleMsg_of_valid s hf, targetVelocity_eq]
    refine ⟨?_, ?_, ?_, ?_, ?_⟩
    · exact h.handled.concat (.inr ⟨_, _, _, _, _, _, _, rfl⟩)
    · exact h.paired.append (by simp [Paired])
    · simpa [twists] using counted_concat _ h.counted h.next
    · simpa [twists, actuatorSetVel] using seqnum_succ h.next
    · obtain ⟨n, hds, hduty⟩ := h.ramped
      have hnext := LoopState.ramped_next hduty
      exact ⟨n + 1, by simpa [duties] using rampTo_concat hds hnext, hnext⟩

/-- A pass of traffic keeps the invariant. -/
theorem LoopTrace.loopPass {s : LoopState} {w : Wake} (h : LoopTrace s) (hw : w.isTraffic) :
    LoopTrace (loopPass s w) := by
  cases w with
  | idle => exact h
  | selectFails e => cases hw; exact ⟨h.handled, h.paired, h.counted, h.next, h.ramped⟩
  | datagram payload =>
    rcases lt_or_ge payload.length wireMsgSize with hlt | hge
    · rw [loopPass_short_datagram s hlt]
      split
      · exact h
      · exact ⟨h.handled, h.paired, h.counted, h.next, h.ramped⟩
    · rw [loopPass_datagram s hge]
      exact h.handleMsg _
  | recvFails e => exact hw.elim
  | stop => exact hw.elim

/-- The invariant holds all along a run of traffic. -/
theorem run_loopTrace {ws : List Wake} {s : LoopState} (hws : ∀ w ∈ ws, w.isTraffic)
    (h : controlLoop.run ws = some s) : LoopTrace s := by
  refine Machine.run_invariant loopTrace_start ?_ hws h
  intro s w s' hw hs hstep
  obtain ⟨-, rfl⟩ := controlLoop_step_eq_some.mp hstep
  exact hs.loopPass hw

/-! ### Whole runs -/

/-- The event language of `main`.  The stop is answered by `last`, the only message with no
    `set_pwm`; the others have the duties of the ramp. -/
def MainTrace (es : List Event) : Prop :=
  ∃ loop last, es = loop ++ [.targetVelocity 0, .published last, .deinit] ∧
    HandledMsgs loop ∧ Paired loop ∧ last.linearX = 0 ∧
    (twists es).map Twist.seq = countedTo (twists es).length ∧
    (duties es).map UInt16.toNat = rampTo (duties es).length

/-- What the stop adds. -/
theorem afterLoop_events (s : LoopState) :
    (afterLoop s).events =
      s.events ++ [.targetVelocity 0, .published (twistOf s.actuator.seqnum 0), .deinit] := by
  simp [afterLoop, LoopState.trace, LoopState.setVel, actuatorSetVel]

/-- The stop completes the trace. -/
theorem LoopTrace.afterLoop {s : LoopState} (h : LoopTrace s) :
    MainTrace (afterLoop s).events := by
  have hduties : duties (Linux.afterLoop s).events = duties s.events := by
    rw [afterLoop_events]
    simp [duties]
  obtain ⟨n, hds, -⟩ := h.ramped
  have hlen : (duties s.events).length = n + 1 := by
    simpa [rampTo] using congrArg List.length hds
  refine ⟨s.events, twistOf s.actuator.seqnum 0, afterLoop_events s, h.handled, h.paired, rfl,
    ?_, ?_⟩
  · rw [afterLoop_events]
    simpa [twists] using counted_concat 0 h.counted h.next
  · rw [hduties, hlen, hds]

/-- **The trace of a run.**  Whatever 11-byte datagrams arrive among idle and interrupted
    passes, a stop signal ends the run, and its events form a `MainTrace`. -/
theorem run_trace {ws : List Wake} (hws : ∀ w ∈ ws, w.isTraffic)
    (hlen : ∀ payload, .datagram payload ∈ ws → payload.length = wireMsgSize) :
    ∃ s, controlLoop.run (ws ++ [.stop]) = some s ∧ s.phase = .exited ∧ MainTrace s.events := by
  obtain ⟨s, hs, hrun⟩ := run_of_full_datagrams (fun w hw => .inl (hws w hw))
    fun p hp => (hlen p hp).ge
  refine ⟨Linux.afterLoop s, Machine.runFrom_concat_eq_some.mpr ⟨s, hs, ?_⟩, rfl, ?_⟩
  · exact controlLoop_step_eq_some.mpr ⟨hrun, rfl⟩
  · exact (run_loopTrace hws hs).afterLoop

/-- A run of one valid and one corrupt message. -/
theorem valid_corrupt_trace :
    ∃ s, controlLoop.run
        ([.datagram [0xAA, 0xBB, 0xF0, 1, 0, 0, 0, 232, 3, 0, 0],
          .idle, .datagram (List.replicate 11 0)] ++ [.stop]) = some s ∧
      s.phase = .exited ∧ MainTrace s.events := by
  apply run_trace
  · simp [Wake.isTraffic]
  · intro payload hmem
    simp only [List.mem_cons, Wake.datagram.injEq, reduceCtorEq, List.not_mem_nil, or_false,
      false_or] at hmem
    rcases hmem with rfl | rfl <;> rfl

end Wallbot.Linux
