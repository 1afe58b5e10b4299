import Mathlib.Algebra.Order.Ring.Unbundled.Rat
import Mathlib.Data.List.Basic
import Wallbot.Lib.Fifo
import Wallbot.Lib.Halting

namespace Wallbot.Wss

open Halting

/-!
# The wheel-speed sensor peripheral — `wss.py`

The register file that Renode emulates for the firmware, with the bounded queue that the TCP
server fills.

* `Message` — the dict `json.loads` makes of one relay message.
* `Peripheral` — the globals of the script; `Peripheral.read` and `Peripheral.write` are its
  request handler, offset by offset, and `Peripheral.putNowait` is the server's side.
* `Peripheral.After` — what the script holds after the messages popped so far.
* `After.write_request` — what a measurement request does, `After.read_status` what the read
  that follows it takes back.
-/

/-! ### Messages and registers -/

/-- A relay message by its keys, with `none` for a key that is missing.  `origin` is no part of
    it: it marks, for proofs about the relay, the callback that wrote the message. -/
structure Message (ι : Type) where
  simTime : Option ℤ
  seqnum : Option ℤ
  bump : Option ℤ
  wheelSpeed : Option ℚ
  origin : ι
  deriving DecidableEq, Repr

/-- The members of `WSS_s`. -/
inductive Register where
  | ctrl
  | status
  | simTime
  | seqnum
  | wheelSpeed
  deriving DecidableEq, Repr

/-- Their place in the packed struct. -/
def Register.offset : Register → ℕ
  | .ctrl => 0x00
  | .status => 0x04
  | .simTime => 0x08
  | .seqnum => 0x0C
  | .wheelSpeed => 0x10

/-- `CTRL_INIT` -/
def ctrlInit : UInt32 := (1 : UInt32) <<< 0

/-- `CTRL_REQUEST_MEASUREMENT` -/
def ctrlRequestMeasurement : UInt32 := (1 : UInt32) <<< 2

/-- `CTRL_USING_SIMULATOR` -/
def ctrlUsingSimulator : UInt32 := (1 : UInt32) <<< 7

/-- `STATUS_WHEEL_SPEED_VALID` -/
def statusWheelSpeedValid : UInt32 := (1 : UInt32) <<< 0

/-- `STATUS_BUMP_DETECTED` -/
def statusBumpDetected : UInt32 := (1 : UInt32) <<< 1

/-- `int` of a number: it drops the fraction. -/
def pyInt (q : ℚ) : ℤ := q.num.tdiv q.den

/-- `wheel_speed_to_reg_val`, with its default bounds, in exact arithmetic: what the script's doubles
    round is left out. -/
def wheelSpeedToRegVal (radPSec : ℚ) : UInt32 :=
  let value := max (min 50 radPSec) (-50)
  UInt32.ofInt (pyInt (value * 1000))

/-- `sim_time_to_ms`; `/` is the integer division of the script's Python version. -/
def simTimeToMs (simTime : ℤ) : UInt32 :=
  UInt32.ofInt (simTime / 1000000)

/-! ### The request handler -/

variable {ι : Type}

/-- The globals of the script, with two counts that no handler reads. -/
structure Peripheral (ι : Type) where
  simTimeNs : ℤ
  seqNum : ℤ
  bumpDetected : ℤ
  wheelSpeed : ℚ
  status : UInt32
  gMsgQ : Fifo (Message ι) 32
  /-- How often `CTRL_INIT` was processed. -/
  inits : ℕ
  /-- How many TCP servers were started. -/
  servers : ℕ

namespace Peripheral

/-- `request.isInit`. -/
def reset : Peripheral ι where
  simTimeNs := 0
  seqNum := 0
  bumpDetected := 0
  wheelSpeed := 0
  status := 0
  gMsgQ := .empty
  inits := 0
  servers := 0

/-- `request.isRead`: the new state and `request.value`, which is `value` before. -/
def read (p : Peripheral ι) (offset : ℕ) (value : UInt32) : Peripheral ι × UInt32 :=
  if offset = 0 then (p, 0)
  else if offset = 0x4 then
    ({ p with status := p.status &&& ~~~statusWheelSpeedValid }, p.status)
  else if offset = 0x8 then (p, simTimeToMs p.simTimeNs)
  else if offset = 0x0C then (p, UInt32.ofInt p.seqNum)
  else if offset = 0x10 then (p, wheelSpeedToRegVal p.wheelSpeed)
  else (p, value)

/-- `msg[key]`: a missing key raises, which leaves the script where it is. -/
def lookup {α : Type} (p : Peripheral ι) : Option α → Except (Peripheral ι) α
  | some v => .ok v
  | none => .error p

/-- The assignments that follow `get_nowait`. -/
def assign (p : Peripheral ι) (msg : Message ι) : Except (Peripheral ι) (Peripheral ι) := do
  let simTimeNs ← p.lookup msg.simTime
  let p := { p with simTimeNs := simTimeNs }
  let seqNum ← p.lookup msg.seqnum
  let p := { p with seqNum := seqNum }
  let bumpDetected ← p.lookup msg.bump
  let p := { p with bumpDetected := bumpDetected }
  let wheelSpeed ← p.lookup msg.wheelSpeed
  let p := { p with wheelSpeed := wheelSpeed }
  let p := { p with status := p.status ||| statusWheelSpeedValid }
  return if p.bumpDetected ≠ 0 then { p with status := p.status ||| statusBumpDetected } else p

/-- The branch of `CTRL_INIT`. -/
def handleInit (p : Peripheral ι) (value : UInt32) : Peripheral ι :=
  if value &&& ctrlInit ≠ 0 then
    { p with status := p.status &&& ~~~statusWheelSpeedValid, inits := p.inits + 1 }
  else p

/-- The branch of `CTRL_REQUEST_MEASUREMENT`; `Empty` is caught, a missing key is not. -/
def handleRequest (p : Peripheral ι) (value : UInt32) : Except (Peripheral ι) (Peripheral ι) :=
  if value &&& ctrlRequestMeasurement ≠ 0 then
    match p.gMsgQ.take? with
    | some (msg, q) => assign { p with gMsgQ := q } msg
    | none => .ok p
  else .ok p

/-- The branch of `CTRL_USING_SIMULATOR`. -/
def handleUsingSimulator (p : Peripheral ι) (value : UInt32) : Peripheral ι :=
  if value &&& ctrlUsingSimulator ≠ 0 then { p with servers := p.servers + 1 } else p

/-- `request.isWrite`. -/
def write (p : Peripheral ι) (offset : ℕ) (value : UInt32) : Peripheral ι :=
  if offset = 0 then
    match (p.handleInit value).handleRequest value with
    | .ok p => p.handleUsingSimulator value
    | .error p => p
  else p

/-- The end of `ImuRelayServer.onmessage`: `put_nowait`, with `Full` caught. -/
def putNowait (p : Peripheral ι) (msg : Message ι) : Peripheral ι :=
  match p.gMsgQ.put? msg with
  | some q => { p with gMsgQ := q }
  | none => p

end Peripheral

/-- A message is accepted unless 32 are queued. -/
theorem Peripheral.putNowait_accepted (p : Peripheral ι) (msg : Message ι) :
    (p.putNowait msg).gMsgQ.accepted =
      p.gMsgQ.accepted ++ if p.gMsgQ.items.length < 32 then [msg] else [] := by
  rw [Peripheral.putNowait]
  cases hput : p.gMsgQ.put? msg with
  | some q => rw [if_pos (Fifo.put?_room hput), (Fifo.put?_eq_some hput).2.1]
  | none => rw [if_neg (Fifo.put?_eq_none_iff.mp hput).not_lt, List.append_nil]

/-! ### What a message becomes -/

/-- What the driver reads of a message: `SIM_TIME`, `SEQNUM` and `WHEEL_SPEED`. -/
structure Triple where
  simTimeMs : UInt32
  seqnum : UInt32
  wheelSpeed : Int32
  deriving DecidableEq, Repr

/-- The registers of a message that has all its keys. -/
def Message.image (msg : Message ι) : Option Triple := do
  let simTime ← msg.simTime
  let seqnum ← msg.seqnum
  let _ ← msg.bump
  let wheelSpeed ← msg.wheelSpeed
  return ⟨simTimeToMs simTime, .ofInt seqnum, (wheelSpeedToRegVal wheelSpeed).toInt32⟩

/-- A message that raises the bump bit. -/
def Message.bumps (msg : Message ι) : Bool :=
  msg.image.isSome && msg.bump.any (· ≠ 0)

/-- The status word of its two bits. -/
def statusWord (valid bump : Bool) : UInt32 :=
  (if valid then statusWheelSpeedValid else 0) ||| (if bump then statusBumpDetected else 0)

/-- The valid bit of a status word. -/
theorem statusWord_valid_bit (valid bump : Bool) :
    statusWord valid bump &&& statusWheelSpeedValid ≠ 0 ↔ valid = true := by
  cases valid <;> cases bump <;> decide

/-- The bump bit of a status word. -/
theorem statusWord_bump_bit (valid bump : Bool) :
    statusWord valid bump &&& statusBumpDetected ≠ 0 ↔ bump = true := by
  cases valid <;> cases bump <;> decide

/-- Reading `STATUS` clears the valid bit alone. -/
theorem statusWord_clear (valid bump : Bool) :
    statusWord valid bump &&& ~~~statusWheelSpeedValid = statusWord false bump := by
  cases valid <;> cases bump <;> decide

/-- An announcement sets the valid bit, and the bump bit for good. -/
theorem statusWord_or (before bump : Bool) :
    statusWord false before ||| statusWord true bump = statusWord true (before || bump) := by
  cases before <;> cases bump <;> decide

/-- The registers hold what the driver will read as `triple`. -/
def Peripheral.Holds (p : Peripheral ι) (triple : Triple) : Prop :=
  triple = ⟨simTimeToMs p.simTimeNs, .ofInt p.seqNum, (wheelSpeedToRegVal p.wheelSpeed).toInt32⟩

/-- The state between two accesses: `popped` are the messages taken so far, `valid` says whether
    one is announced, and `started` counts the initialisations. -/
structure Peripheral.After (p : Peripheral ι) (popped : List (Message ι)) (valid : Bool)
    (started : ℕ) : Prop where
  taken : p.gMsgQ.taken = popped
  status : p.status = statusWord valid (popped.any Message.bumps)
  inits : p.inits = started
  servers : p.servers = started

namespace Peripheral

variable {p : Peripheral ι} {msg : Message ι}

/-- A message with all its keys is stored and announced. -/
theorem assign_of_image {triple : Triple} (h : msg.image = some triple) :
    ∃ p', p.assign msg = .ok p' ∧ p'.Holds triple ∧ p'.gMsgQ = p.gMsgQ ∧
      p'.inits = p.inits ∧ p'.servers = p.servers ∧
      p'.status = p.status ||| statusWord true msg.bumps := by
  obtain ⟨simTime, seqnum, bump, wheelSpeed, origin⟩ := msg
  have hbumps := h
  -- Every key is there, or there were no image.
  cases simTime with
  | none => cases h
  | some simTime =>
  cases seqnum with
  | none => cases h
  | some seqnum =>
  cases bump with
  | none => cases h
  | some bump =>
  cases wheelSpeed with
  | none => cases h
  | some wheelSpeed =>
  cases h
  -- The bump flag decides whether the second status bit is set.
  by_cases hb : bump = 0
  · refine ⟨{ p with
        simTimeNs := simTime, seqNum := seqnum, bumpDetected := bump, wheelSpeed := wheelSpeed,
        status := p.status ||| statusWheelSpeedValid }, ?_, rfl, rfl, rfl, rfl, ?_⟩
    · simp [assign, lookup, bind, Except.bind, pure, Except.pure, hb]
    · simp [Message.bumps, statusWord, hb]
  · refine ⟨{ p with
        simTimeNs := simTime, seqNum := seqnum, bumpDetected := bump, wheelSpeed := wheelSpeed,
        status := p.status ||| statusWheelSpeedValid ||| statusBumpDetected },
      ?_, rfl, rfl, rfl, rfl, ?_⟩
    · simp [assign, lookup, bind, Except.bind, pure, Except.pure, hb]
    · simp [Message.bumps, statusWord, hb, Message.image, UInt32.or_assoc]

/-- A message without one of its keys raises before it is announced. -/
theorem assign_of_no_image (h : msg.image = none) :
    ∃ p', p.assign msg = .error p' ∧ p'.gMsgQ = p.gMsgQ ∧ p'.inits = p.inits ∧
      p'.servers = p.servers ∧ p'.status = p.status := by
  obtain ⟨simTime, seqnum, bump, wheelSpeed, origin⟩ := msg
  cases simTime with
  | none => exact ⟨_, rfl, rfl, rfl, rfl, rfl⟩
  | some simTime =>
  cases seqnum with
  | none => exact ⟨_, rfl, rfl, rfl, rfl, rfl⟩
  | some seqnum =>
  cases bump with
  | none => exact ⟨_, rfl, rfl, rfl, rfl, rfl⟩
  | some bump =>
  cases wheelSpeed with
  | none => exact ⟨_, rfl, rfl, rfl, rfl, rfl⟩
  | some wheelSpeed => cases h

/-- Nothing was popped before the first request. -/
theorem after_reset : (reset : Peripheral ι).After [] false 0 where
  taken := rfl
  status := by
    show (0 : UInt32) = statusWord false false
    decide
  inits := rfl
  servers := rfl

variable {popped : List (Message ι)} {valid : Bool} {n : ℕ}

/-- The write of `wss_init`. -/
theorem After.write_init (h : p.After popped false n) :
    (p.write Register.ctrl.offset (ctrlInit ||| ctrlUsingSimulator)).After popped false (n + 1) := by
  -- Which branches of the handler the value selects.
  have hreq : ¬ (ctrlInit ||| ctrlUsingSimulator) &&& ctrlRequestMeasurement ≠ 0 := by decide
  have hinit : (ctrlInit ||| ctrlUsingSimulator) &&& ctrlInit ≠ 0 := by decide
  have hsim : (ctrlInit ||| ctrlUsingSimulator) &&& ctrlUsingSimulator ≠ 0 := by decide
  simp only [write, Register.offset, if_true, handleInit, if_pos hinit, handleRequest, if_neg hreq,
    handleUsingSimulator, if_pos hsim]
  refine ⟨h.taken, ?_, ?_, ?_⟩
  · show p.status &&& _ = _
    rw [h.status, statusWord_clear]
  · rw [h.inits]
  · rw [h.servers]

/-- The write of a poll.  It takes the oldest message, if there is one, and announces it if it
    has all its keys; the registers then hold it. -/
theorem After.write_request (h : p.After popped false n) :
    let found := p.gMsgQ.items.head?
    let p' := p.write Register.ctrl.offset ctrlRequestMeasurement
    p'.After (popped ++ found.toList) (found.bind Message.image).isSome n ∧
      ∀ triple, found.bind Message.image = some triple → p'.Holds triple := by
  have hinit : ¬ ctrlRequestMeasurement &&& ctrlInit ≠ 0 := by decide
  have hreq : ctrlRequestMeasurement &&& ctrlRequestMeasurement ≠ 0 := by decide
  have hsim : ¬ ctrlRequestMeasurement &&& ctrlUsingSimulator ≠ 0 := by decide
  simp only [write, Register.offset, if_true, handleInit, if_neg hinit, handleRequest, if_pos hreq,
    handleUsingSimulator, if_neg hsim]
  cases htake : p.gMsgQ.take? with
  | none =>
    rw [Fifo.take?_eq_none_iff.mp htake]
    simpa using h
  | some r =>
    obtain ⟨msg, q⟩ := r
    obtain ⟨hitems, -, htaken⟩ := Fifo.take?_eq_some htake
    have hpopped : q.taken = popped ++ [msg] := by rw [htaken, h.taken]
    simp only [hitems, List.head?_cons, Option.toList_some, Option.bind_some]
    cases himage : msg.image with
    | none =>
      -- The handler raises: the message is gone, and no status bit tells of it.
      obtain ⟨p', hassign, hq, hi, hs, hst⟩ :=
        assign_of_no_image (p := { p with gMsgQ := q }) himage
      rw [hassign]
      refine ⟨⟨by rw [hq]; exact hpopped, ?_, hi.trans h.inits, hs.trans h.servers⟩, by simp⟩
      rw [hst, h.status]
      simp [Message.bumps, himage]
    | some triple =>
      obtain ⟨p', hassign, hholds, hq, hi, hs, hst⟩ :=
        assign_of_image (p := { p with gMsgQ := q }) himage
      -- The bump bit was that of the messages before, and is ORed with the new one.
      rw [hassign]
      refine ⟨⟨by rw [hq]; exact hpopped, ?_, hi.trans h.inits, hs.trans h.servers⟩, ?_⟩
      · rw [hst, h.status, List.any_append]
        simpa using statusWord_or (popped.any Message.bumps) msg.bumps
      · rintro t ⟨⟩
        exact hholds

/-- The assignments leave the queue alone, whether they raise or not. -/
theorem assign_gMsgQ (p : Peripheral ι) (msg : Message ι) :
    Ends (fun p' => p'.gMsgQ = p.gMsgQ) (fun p' => p'.gMsgQ = p.gMsgQ) (p.assign msg) := by
  cases himage : msg.image with
  | none =>
    obtain ⟨p', hassign, hq, -⟩ := assign_of_no_image (p := p) himage
    rw [hassign]
    exact hq
  | some triple =>
    obtain ⟨p', hassign, -, hq, -⟩ := assign_of_image (p := p) himage
    rw [hassign]
    exact hq

/-- A measurement request accepts nothing. -/
theorem handleRequest_accepted (p : Peripheral ι) (value : UInt32) :
    Ends (fun p' => p'.gMsgQ.accepted = p.gMsgQ.accepted)
      (fun p' => p'.gMsgQ.accepted = p.gMsgQ.accepted) (p.handleRequest value) := by
  unfold handleRequest
  split
  · cases htake : p.gMsgQ.take? with
    | none => exact rfl
    | some r =>
      obtain ⟨msg, q⟩ := r
      obtain ⟨-, hacc, -⟩ := Fifo.take?_eq_some htake
      apply (assign_gMsgQ { p with gMsgQ := q } msg).mono
      · exact fun p' hq => hq ▸ hacc
      · exact fun p' hq => hq ▸ hacc
  · exact rfl

/-- What the queue accepted is the server's business alone. -/
theorem write_accepted (p : Peripheral ι) (offset : ℕ) (value : UInt32) :
    (p.write offset value).gMsgQ.accepted = p.gMsgQ.accepted := by
  have hinit : (p.handleInit value).gMsgQ = p.gMsgQ := by
    unfold handleInit
    split <;> rfl
  unfold write
  split
  · have hrequest := handleRequest_accepted (p.handleInit value) value
    rw [hinit] at hrequest
    cases hreq : (p.handleInit value).handleRequest value with
    | ok p' =>
      rw [hreq] at hrequest
      show (p'.handleUsingSimulator value).gMsgQ.accepted = _
      unfold handleUsingSimulator
      split <;> exact hrequest
    | error p' =>
      rw [hreq] at hrequest
      exact hrequest
  · rfl

/-- Reads leave the queue alone. -/
theorem read_gMsgQ (p : Peripheral ι) (offset : ℕ) (value : UInt32) :
    (p.read offset value).1.gMsgQ = p.gMsgQ := by
  unfold read
  split_ifs <;> rfl

/-- Reading `STATUS` takes the announcement back and leaves the bump bit. -/
theorem After.read_status (h : p.After popped valid n) (value : UInt32) :
    (p.read Register.status.offset value).2 = statusWord valid (popped.any Message.bumps) ∧
      (p.read Register.status.offset value).1.After popped false n := by
  refine ⟨h.status, h.taken, ?_, h.inits, h.servers⟩
  show p.status &&& _ = _
  rw [h.status, statusWord_clear]

/-- The server's side touches no register. -/
theorem After.putNowait (h : p.After popped valid n) (msg : Message ι) :
    (p.putNowait msg).After popped valid n := by
  unfold Peripheral.putNowait
  cases hput : p.gMsgQ.put? msg with
  | none => exact h
  | some q => exact ⟨(Fifo.put?_eq_some hput).2.2.trans h.taken, h.status, h.inits, h.servers⟩

/-- The registers do not see what is put into the queue. -/
theorem Holds.putNowait {triple : Triple} (h : p.Holds triple) (msg : Message ι) :
    (p.putNowait msg).Holds triple := by
  unfold Peripheral.putNowait
  cases p.gMsgQ.put? msg with
  | none => exact h
  | some q => exact h

end Peripheral

end Wallbot.Wss
