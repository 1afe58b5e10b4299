import Wallbot.DutyRamp

namespace Wallbot.Linux

/-!
# The last command — every end of the control loop

Once the wheels turn, `main` commands a halt in one place only, behind its loop.  The asserts within the loop end it as
well, and they look at an `errno` that may be old.  Here `select` and `recv` do whatever they
like.

* `errnoAfter` — the `errno` that an assert sees.
* `Trips` — the passes whose assert fails.
* `phase_loopPass`, `Ramp.anyPass` — where a pass leads, and what it commands.
* `last_command` — how any run ends, and what the wheels were last told.
-/

/-- `errno` after `ws`: a call that fails sets it, and nothing clears it. -/
def errnoAfter (ws : List Wake) : Errno :=
  ws.foldl
    (fun errno w =>
      match w with
      | .selectFails e | .recvFails e => e
      | _ => errno)
    .zero

/-- An assert of the pass fails. -/
def Trips (errno : Errno) : Wake → Prop
  | .selectFails e => e ≠ .eintr
  | .recvFails e => e ≠ .eagain
  | .datagram payload => payload.length < wireMsgSize ∧ errno ≠ .eagain
  | .idle | .stop => False

instance (errno : Errno) (w : Wake) : Decidable (Trips errno w) := by
  cases w <;> unfold Trips <;> infer_instance

/-- The loop takes the datagram for a wheel-speed message. -/
def Acts (payload : List UInt8) : Prop :=
  wireMsgSize ≤ payload.length ∧ HeaderFits payload

instance (payload : List UInt8) : Decidable (Acts payload) :=
  inferInstanceAs (Decidable (_ ∧ _))

/-- The number of messages that were acted on. -/
def acted (ws : List Wake) : ℕ := (datagrams ws).countP Acts

/-- One pass more acts on one datagram more, if it is acted on. -/
theorem acted_concat (ws : List Wake) (w : Wake) : acted (ws ++ [w]) = acted ws + acted [w] := by
  rw [acted, datagrams_concat, List.countP_append]
  rfl

/-- Only a call that fails sets `errno`. -/
theorem errnoAfter_concat (ws : List Wake) (w : Wake) :
    errnoAfter (ws ++ [w]) =
      match w with
      | .selectFails e | .recvFails e => e
      | _ => errnoAfter ws :=
  List.foldl_concat ..

/-! ### One pass -/

variable {s s' : LoopState} {w : Wake}

/-- The `errno` of the state follows `errnoAfter`. -/
theorem errno_loopPass (s : LoopState) (w : Wake) :
    (loopPass s w).errno =
      match w with
      | .selectFails e | .recvFails e => e
      | _ => s.errno := by
  cases w with
  | idle => rfl
  | selectFails e =>
    simp only [loopPass]
    split <;> rfl
  | datagram payload =>
    rcases lt_or_ge payload.length wireMsgSize with hlt | hge
    · rw [loopPass_short_datagram s hlt]
      split <;> rfl
    · rw [loopPass_datagram s hge, handleMsg_errno]
  | recvFails e =>
    simp only [loopPass]
    split <;> rfl
  | stop => rfl

/-- Where a pass leads. -/
theorem phase_loopPass (hrunning : s.phase = .running) (w : Wake) :
    (loopPass s w).phase =
      if w = .stop then .exited else if Trips s.errno w then .aborted else .running := by
  cases w with
  | idle => simp [loopPass, Trips, hrunning]
  | selectFails e =>
    by_cases he : e = .eintr <;> simp [loopPass, Trips, he, hrunning, LoopState.abort]
  | datagram payload =>
    rcases lt_or_ge payload.length wireMsgSize with hlt | hge
    · rw [loopPass_short_datagram s hlt]
      by_cases he : s.errno = .eagain <;> simp [Trips, hlt, he, hrunning, LoopState.abort]
    · rw [loopPass_datagram s hge, handleMsg_phase]
      simp [Trips, hge.not_gt, hrunning]
  | recvFails e =>
    by_cases he : e = .eagain <;> simp [loopPass, Trips, he, hrunning, LoopState.abort]
  | stop => rfl

/-- Whatever a pass meets, but for the stop, it raises the command by the messages acted on; that
    an assert fails changes nothing about it. -/
theorem Ramp.anyPass {n : ℕ} (h : Ramp n s) (hw : w ≠ .stop) :
    Ramp (n + acted [w]) (loopPass s w) := by
  cases w with
  | idle => exact h
  | selectFails e =>
    refine h.leavesAlone ?_
    simp only [loopPass]
    split <;> exact ⟨rfl, rfl, rfl⟩
  | datagram payload =>
    rcases lt_or_ge payload.length wireMsgSize with hlt | hge
    · have hnone : acted [.datagram payload] = 0 := by
        simp [acted, datagrams, Acts, hlt.not_ge]
      rw [hnone, loopPass_short_datagram s hlt]
      refine h.leavesAlone ?_
      split <;> exact ⟨rfl, rfl, rfl⟩
    · rw [loopPass_datagram s hge]
      by_cases hfits : HeaderFits payload
      · have hone : acted [.datagram payload] = 1 := by simp [acted, datagrams, Acts, hge, hfits]
        rw [hone]
        exact h.commands (commands_handleMsg s ((headerFault_seenMsg_iff hge).mpr hfits))
      · have hnone : acted [.datagram payload] = 0 := by simp [acted, datagrams, Acts, hfits]
        rw [hnone]
        exact h.leavesAlone (leavesAlone_handleMsg s fun hnone =>
          hfits ((headerFault_seenMsg_iff hge).mp hnone))
  | recvFails e =>
    refine h.leavesAlone ?_
    simp only [loopPass]
    split <;> exact ⟨rfl, rfl, rfl⟩
  | stop => exact absurd rfl hw

/-! ### Any run -/

/-- How a run of `ws` has ended, if it has, and what it has commanded. -/
structure Ending (ws : List Wake) (s : LoopState) : Prop where
  errno : s.errno = errnoAfter ws
  exited : s.phase = .exited ↔ ws.getLast? = some .stop
  aborted : s.phase = .aborted ↔ ∃ pre w, ws = pre ++ [w] ∧ Trips (errnoAfter pre) w
  ramp : s.phase ≠ .exited → Ramp (acted ws) s
  halted : s.phase = .exited → (velocities s.events).getLast? = some 0
  range : ∀ v ∈ velocities s.events, 0 ≤ v ∧ v ≤ 1

/-- The stop commands 0. -/
theorem velocities_afterLoop (s : LoopState) :
    velocities (afterLoop s).events = velocities s.events ++ [0] := by
  rw [velocities, afterLoop_events]
  simp [twists, velocities, twistOf]

/-- One more pass. -/
theorem Ending.loopPass {ws : List Wake} (h : Ending ws s) (hrunning : s.phase = .running)
    (w : Wake) : Ending (ws ++ [w]) (loopPass s w) := by
  have hphase := phase_loopPass hrunning w
  have hramp (hw : w ≠ .stop) : Ramp (acted (ws ++ [w])) (Linux.loopPass s w) := by
    rw [acted_concat]
    exact (h.ramp (by simp [hrunning])).anyPass hw
  have hstop (hw : w = .stop) :
      velocities (Linux.loopPass s w).events = velocities s.events ++ [0] := by
    subst hw
    exact velocities_afterLoop s
  refine ⟨?_, ?_, ?_, fun hne => ?_, fun heq => ?_, ?_⟩
  · rw [errno_loopPass, errnoAfter_concat, h.errno]
  · rw [hphase, List.getLast?_concat, Option.some_inj]
    split_ifs with hw htrips <;> simp [hw]
  · rw [hphase, h.errno]
    constructor
    · intro haborted
      split_ifs at haborted with hw htrips
      exact ⟨ws, w, rfl, htrips⟩
    · rintro ⟨pre, w', heq, htrips⟩
      obtain ⟨rfl, hw⟩ := List.append_inj' heq rfl
      obtain rfl := List.singleton_inj.mp hw
      have hne : w ≠ .stop := by
        rintro rfl
        exact htrips
      rw [if_neg hne, if_pos htrips]
  · exact hramp fun hw => hne (by rw [hphase, if_pos hw])
  · by_cases hw : w = .stop
    · rw [hstop hw, List.getLast?_concat]
    · rw [hphase, if_neg hw] at heq
      split_ifs at heq
  · by_cases hw : w = .stop
    · rw [hstop hw, List.forall_mem_append, List.forall_mem_singleton]
      exact ⟨h.range, le_rfl, zero_le_one⟩
    · exact (hramp hw).range

end Wallbot.Linux
