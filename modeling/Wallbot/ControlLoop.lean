import Mathlib.Data.Rat.Defs
import Wallbot.Actuator
import Wallbot.Lib.Machine
import Wallbot.WireProtocol

namespace Wallbot.Linux

/-!
# The Linux control loop — `main.c`

`main` waits for datagrams on the bound port and turns each valid wheel-speed message into
one velocity command.  Its state is the loop's `errno`, `duty` and actuator, the events it
has emitted (tracepoints and published messages, oldest first) and whether it still runs.

* `Wake` is what one pass of the loop meets: the answers of `select` and `recv`, or a stop
  signal seen by the loop test.
* `loopPass` is that pass, with the two asserts of the source as explicit branches.
* `controlLoop` is the machine of all runs from `mainStart`.
-/

/-- `errno`, as far as the loop looks at it. -/
inductive Errno where
  | zero
  | eintr
  | eagain
  | other (code : ℕ)
  deriving DecidableEq, Repr

/-- `invalid_msg_kind`. -/
inductive InvalidMsgKind where
  | badMagic0
  | badMagic1
  | badType
  deriving DecidableEq, Repr

/-- The tracepoints of provider `actuator`, and the messages the actuator publishes. -/
inductive Event where
  | startup
  | init
  | deinit
  | receivedMsg (magic0 magic1 type : UInt8) (seqnum : UInt32) (wheelSpeed : Int32)
  | invalidMsg (reason : InvalidMsgKind)
  | targetVelocity (velocity : ℚ)
  | setPwm (seqnum : UInt32) (duty : UInt16)
  | published (twist : Twist)
  deriving DecidableEq

/-- Whether `main` is in its loop, was aborted by an assert, or returned. -/
inductive Phase where
  | running
  | aborted
  | exited
  deriving DecidableEq, Repr

/-- The state of `main`. -/
structure LoopState where
  errno : Errno
  duty : UInt16
  actuator : Actuator
  events : List Event
  phase : Phase
  deriving DecidableEq

/-- What one pass of the loop meets. -/
inductive Wake where
  /-- `select` returns 0. -/
  | idle
  /-- `select` returns -1 and sets `errno`. -/
  | selectFails (errno : Errno)
  /-- `select` reports the socket and `recv` takes a datagram from it. -/
  | datagram (payload : List UInt8)
  /-- `select` reports the socket and `recv` returns -1 and sets `errno`. -/
  | recvFails (errno : Errno)
  /-- The loop test finds `g_exit_signaled` set. -/
  | stop
  deriving DecidableEq, Repr

/-! ### The loop body -/

/-- `clamped_duty`. -/
def clampedDuty (duty : UInt16) : UInt16 :=
  if duty > 1000 then 1000 else duty

/-- `((double) duty / 1000.0) * 1.0`, as an exact rational. -/
def targetVelocity (duty : UInt16) : ℚ :=
  (duty.toNat : ℚ) / 1000 * 1

/-- The chained header tests: the reason a message is invalid for, if any. -/
def headerFault (msg : WireMsg) : Option InvalidMsgKind :=
  if msg.magic0 ≠ wireMagic0 then some .badMagic0
  else if msg.magic1 ≠ wireMagic1 then some .badMagic1
  else if msg.type ≠ wireTypeWheelSpeed then some .badType
  else none

/-- `recv` on the UDP socket: the number of bytes stored in `msg`, and the bytes.  What a
    longer datagram carries past the buffer is discarded. -/
def recv (payload : List UInt8) : ℕ × List UInt8 :=
  (min payload.length wireMsgSize, payload.take wireMsgSize)

/-- Emit a tracepoint. -/
def LoopState.trace (s : LoopState) (e : Event) : LoopState :=
  { s with events := s.events ++ [e] }

/-- `actuator_set_vel(actuator, vel)`. -/
def LoopState.setVel (s : LoopState) (vel : ℚ) : LoopState :=
  let (act, twist) := actuatorSetVel s.actuator vel
  { s with actuator := act, events := s.events ++ [.published twist] }

/-- A failed assert. -/
def LoopState.abort (s : LoopState) : LoopState :=
  { s with phase := .aborted }

/-- "Handle valid message". -/
def handleValid (s : LoopState) : LoopState :=
  let duty := clampedDuty (s.duty + 10)
  let s := { s with duty := duty }
  let s := s.trace (.targetVelocity (targetVelocity duty))
  let s := s.trace (.setPwm (actuatorSeqnum s.actuator) duty)
  s.setVel (targetVelocity duty)

/-- The branch for `msg_size == WIRE_MSG_SIZE`. -/
def handleMsg (s : LoopState) (msg : WireMsg) : LoopState :=
  let s := s.trace (.receivedMsg msg.magic0 msg.magic1 msg.type msg.seqnum msg.wheelSpeed)
  match headerFault msg with
  | some reason => s.trace (.invalidMsg reason)
  | none => handleValid s

/-- What follows the loop. -/
def afterLoop (s : LoopState) : LoopState :=
  let s := s.trace (.targetVelocity 0)
  let s := s.setVel 0
  { s.trace .deinit with phase := .exited }

/-- One pass of the loop, by what `select` and `recv` return. -/
def loopPass (s : LoopState) : Wake → LoopState
  | .idle => s
  | .selectFails e =>
    let s := { s with errno := e }
    -- assert((status >= 0) || (errno == EINTR))
    if s.errno = .eintr then s else s.abort
  | .datagram payload =>
    let (msgSize, bytes) := recv payload
    -- assert((msg_size == WIRE_MSG_SIZE) || (errno == EAGAIN)); `errno` is the one an
    -- earlier call left behind
    if msgSize = wireMsgSize ∨ s.errno = .eagain then
      if msgSize = wireMsgSize then handleMsg s (.ofImage bytes) else s
    else s.abort
  | .recvFails e =>
    let s := { s with errno := e }
    if s.errno = .eagain then s else s.abort
  | .stop => afterLoop s

/-- `main` up to the loop; its own asserts concern the environment and are taken to hold. -/
def mainStart : LoopState :=
  let s : LoopState :=
    { errno := .zero, duty := 0, actuator := actuatorNew, events := [.startup, .init],
      phase := .running }
  let s := s.trace (.setPwm (actuatorSeqnum s.actuator) s.duty)
  s.setVel 0

/-- The runs of `main`: passes follow each other while it is in its loop. -/
def controlLoop : Machine LoopState Wake where
  init := mainStart
  step s w := if s.phase = .running then some (loopPass s w) else none

/-- The loop steps while it runs, by `loopPass`. -/
theorem controlLoop_step_eq_some {s s' : LoopState} {w : Wake} :
    controlLoop.step s w = some s' ↔ s.phase = .running ∧ s' = loopPass s w := by
  simp only [controlLoop, Option.ite_none_right_eq_some, Option.some.injEq]
  exact and_congr_right fun _ => eq_comm

/-! ### What a pass does -/

/-- The clamp as a minimum. -/
theorem clampedDuty_toNat (duty : UInt16) : (clampedDuty duty).toNat = min 1000 duty.toNat := by
  rw [clampedDuty]
  split
  · have hgt : (1000 : UInt16).toNat < duty.toNat := UInt16.lt_iff_toNat_lt.mp ‹_›
    exact (min_eq_left hgt.le).symm
  · have hle : duty.toNat ≤ (1000 : UInt16).toNat :=
      UInt16.le_iff_toNat_le.mp (UInt16.not_lt.mp ‹_›)
    exact (min_eq_right hle).symm

/-- The addition does not wrap while `duty` is clamped. -/
theorem duty_add_toNat {duty : UInt16} (h : duty.toNat ≤ 1000) :
    (duty + 10).toNat = duty.toNat + 10 := by
  rw [UInt16.toNat_add]
  exact Nat.mod_eq_of_lt (Nat.lt_of_le_of_lt (Nat.add_le_add_right h 10) (by decide))

/-- The bytes of a datagram that the loop looks at. -/
def seenMsg (payload : List UInt8) : WireMsg :=
  .ofImage (payload.take wireMsgSize)

/-- A datagram that fills the buffer is handled, whatever `errno` is. -/
theorem loopPass_datagram (s : LoopState) {payload : List UInt8}
    (h : wireMsgSize ≤ payload.length) :
    loopPass s (.datagram payload) = handleMsg s (seenMsg payload) := by
  -- `recv` fills the buffer, so the assert holds by its first disjunct.
  have hsize : min payload.length wireMsgSize = wireMsgSize := min_eq_right h
  simp [loopPass, recv, hsize, seenMsg]

/-- A shorter one trips the assert, unless a stale `EAGAIN` saves it. -/
theorem loopPass_short_datagram (s : LoopState) {payload : List UInt8}
    (h : payload.length < wireMsgSize) :
    loopPass s (.datagram payload) = if s.errno = .eagain then s else s.abort := by
  have hsize : min payload.length wireMsgSize ≠ wireMsgSize := by
    rw [min_eq_left h.le]; exact h.ne
  simp [loopPass, recv, hsize]

/-- An invalid message leaves two events and nothing else. -/
theorem handleMsg_of_fault (s : LoopState) {msg : WireMsg} {reason : InvalidMsgKind}
    (h : headerFault msg = some reason) :
    handleMsg s msg =
      { s with events := s.events ++
          [.receivedMsg msg.magic0 msg.magic1 msg.type msg.seqnum msg.wheelSpeed,
           .invalidMsg reason] } := by
  simp [handleMsg, h, LoopState.trace]

/-- A valid message steps `duty` and publishes it as a velocity. -/
theorem handleMsg_of_valid (s : LoopState) {msg : WireMsg} (h : headerFault msg = none) :
    handleMsg s msg =
      { s with
        duty := clampedDuty (s.duty + 10)
        actuator := (actuatorSetVel s.actuator (targetVelocity (clampedDuty (s.duty + 10)))).1
        events := s.events ++
          [.receivedMsg msg.magic0 msg.magic1 msg.type msg.seqnum msg.wheelSpeed,
           .targetVelocity (targetVelocity (clampedDuty (s.duty + 10))),
           .setPwm s.actuator.seqnum (clampedDuty (s.duty + 10)),
           .published (twistOf s.actuator.seqnum
             (targetVelocity (clampedDuty (s.duty + 10))))] } := by
  simp [handleMsg, h, handleValid, LoopState.trace, LoopState.setVel, actuatorSetVel,
    actuatorSeqnum]

/-- No message ends the loop. -/
@[simp] theorem handleMsg_phase (s : LoopState) (msg : WireMsg) :
    (handleMsg s msg).phase = s.phase := by
  cases h : headerFault msg with
  | some reason => rw [handleMsg_of_fault s h]
  | none => rw [handleMsg_of_valid s h]

/-- No message touches `errno`. -/
@[simp] theorem handleMsg_errno (s : LoopState) (msg : WireMsg) :
    (handleMsg s msg).errno = s.errno := by
  cases h : headerFault msg with
  | some reason => rw [handleMsg_of_fault s h]
  | none => rw [handleMsg_of_valid s h]

end Wallbot.Linux
