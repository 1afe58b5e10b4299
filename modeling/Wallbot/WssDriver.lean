import Wallbot.Lib.Machine
import Wallbot.WssPeripheral

namespace Wallbot.Wss

/-!
# The wheel-speed sensor driver — `wss.c` against `wss.py`

`wss_init` and the polls of `wss_task`, one register access at a time, so that the server
thread may enqueue a message between any two of them.

* `Pc` — the accesses, with the locals of the driver that are live before each.
* `State.access` — the next access; a completed poll is filed in `polls` with the message it
  popped and what it forwarded.
* `pollOutcome` and `Polls` — what polls should forward, as a function of what was popped.
* `State.Inv` — the handshake: at each `Pc`, what the registers hold.
* `poll_boundary` — the register protocol at every poll boundary.
-/

/-! ### The driver -/

/-- What a poll that sees a valid measurement traces and passes to `comms_send_sensor_data`. -/
structure Forward where
  triple : Triple
  /-- The status word traced on `bump_detected`, if any. -/
  bumpDetected : Option UInt32
  deriving DecidableEq, Repr

variable {ι : Type}

/-- A completed poll: what it popped, and what it forwarded. -/
structure Poll (ι : Type) where
  found : Option (Message ι)
  forwards : List Forward
  deriving DecidableEq, Repr

/-- The next register access, with the values read before that are still needed. -/
inductive Pc where
  | initReadCtrl
  | initWriteCtrl (ctrl : UInt32)
  /-- The poll boundary. -/
  | readCtrl
  | writeCtrl (ctrl : UInt32)
  | readStatus
  | readSimTime (status : UInt32)
  | readSeqnum (status simTimeMs : UInt32)
  | readWheelSpeed (status simTimeMs seqnum : UInt32)
  deriving DecidableEq, Repr

/-- The peripheral and the driver.  `found` is what the poll in progress has popped. -/
structure State (ι : Type) where
  peripheral : Peripheral ι
  pc : Pc
  found : Option (Message ι)
  polls : List (Poll ι)

namespace State

/-- Before `wss_init`. -/
def boot : State ι where
  peripheral := .reset
  pc := .initReadCtrl
  found := none
  polls := []

/-- Back to the head of the loop of `wss_task`. -/
def endPoll (s : State ι) (forwards : List Forward) : State ι :=
  { s with pc := .readCtrl, found := none, polls := s.polls ++ [⟨s.found, forwards⟩] }

/-- The next register access of the driver. -/
def access (s : State ι) : State ι :=
  match s.pc with
  -- WSS->CTRL |= (WSS_CTRL_INIT | WSS_CTRL_USING_SIMULATOR)
  | .initReadCtrl =>
    let (p, ctrl) := s.peripheral.read Register.ctrl.offset 0
    { s with peripheral := p, pc := .initWriteCtrl ctrl }
  | .initWriteCtrl ctrl =>
    { s with
      peripheral := s.peripheral.write Register.ctrl.offset
        (ctrl ||| (ctrlInit ||| ctrlUsingSimulator))
      pc := .readCtrl }
  -- WSS->CTRL |= WSS_CTRL_REQUEST_MEASUREMENT
  | .readCtrl =>
    let (p, ctrl) := s.peripheral.read Register.ctrl.offset 0
    { s with peripheral := p, pc := .writeCtrl ctrl }
  | .writeCtrl ctrl =>
    { s with
      peripheral := s.peripheral.write Register.ctrl.offset (ctrl ||| ctrlRequestMeasurement)
      pc := .readStatus
      found := s.peripheral.gMsgQ.items.head? }
  | .readStatus =>
    let (p, status) := s.peripheral.read Register.status.offset 0
    let s := { s with peripheral := p }
    if status &&& statusWheelSpeedValid ≠ 0 then { s with pc := .readSimTime status }
    else s.endPoll []
  | .readSimTime status =>
    let (p, simTimeMs) := s.peripheral.read Register.simTime.offset 0
    { s with peripheral := p, pc := .readSeqnum status simTimeMs }
  | .readSeqnum status simTimeMs =>
    let (p, seqnum) := s.peripheral.read Register.seqnum.offset 0
    { s with peripheral := p, pc := .readWheelSpeed status simTimeMs seqnum }
  | .readWheelSpeed status simTimeMs seqnum =>
    let (p, wheelSpeed) := s.peripheral.read Register.wheelSpeed.offset 0
    let s := { s with peripheral := p }
    s.endPoll
      [{ triple := ⟨simTimeMs, seqnum, wheelSpeed.toInt32⟩
         bumpDetected := if status &&& statusBumpDetected ≠ 0 then some status else none }]

/-- The triples forwarded by the completed polls. -/
def forwarded (s : State ι) : List Triple :=
  (s.polls.flatMap Poll.forwards).map Forward.triple

end State

/-- What the server thread and the driver do. -/
inductive Action (ι : Type) where
  /-- The server thread puts a message into `g_msg_q`. -/
  | enqueue (msg : Message ι)
  /-- The driver makes its next register access. -/
  | access
  deriving DecidableEq, Repr

/-- The interleavings of the server thread with the driver. -/
def wss (ι : Type) : Machine (State ι) (Action ι) where
  init := .boot
  step s
    | .enqueue msg => some { s with peripheral := s.peripheral.putNowait msg }
    | .access => some s.access

/-- The messages that the actions of a run from `s` put into the queue: those that do not find
    32 in it. -/
def State.admitted (s : State ι) : List (Action ι) → List (Message ι)
  | [] => []
  | .enqueue msg :: as =>
    let s' := { s with peripheral := s.peripheral.putNowait msg }
    if s.peripheral.gMsgQ.items.length < 32 then msg :: s'.admitted as else s'.admitted as
  | .access :: as => s.access.admitted as

/-! ### What polls forward -/

/-- What a poll that popped `found`, after the messages `before` were popped, should forward. -/
def pollOutcome (before : List (Message ι)) (found : Option (Message ι)) : List Forward :=
  (found.bind Message.image).toList.map fun triple =>
    { triple := triple
      bumpDetected :=
        if (before ++ found.toList).any Message.bumps then some (statusWord true true) else none }

/-- The messages popped by the completed polls. -/
def popped (polls : List (Poll ι)) : List (Message ι) := polls.filterMap Poll.found

/-- A series of polls each of which forwarded what it should. -/
inductive Polls : List (Poll ι) → Prop where
  | nil : Polls []
  | snoc {polls : List (Poll ι)} (found : Option (Message ι)) (h : Polls polls) :
    Polls (polls ++ [⟨found, pollOutcome (popped polls) found⟩])

/-- One more poll has popped what it found. -/
theorem popped_concat (polls : List (Poll ι)) (poll : Poll ι) :
    popped (polls ++ [poll]) = popped polls ++ poll.found.toList := by
  rw [popped, popped, List.filterMap_append]
  cases h : poll.found with
  | none => simp [h]
  | some msg => simp [h]

/-- At most one triple is forwarded, the image of what was popped. -/
theorem pollOutcome_triple (before : List (Message ι)) (found : Option (Message ι)) :
    (pollOutcome before found).map Forward.triple = (found.bind Message.image).toList := by
  unfold pollOutcome
  cases found.bind Message.image <;> rfl

/-- A message with an image is forwarded. -/
theorem pollOutcome_of_image {before : List (Message ι)} {found : Option (Message ι)}
    {triple : Triple} (h : found.bind Message.image = some triple) :
    pollOutcome before found =
      [{ triple := triple
         bumpDetected :=
          if (before ++ found.toList).any Message.bumps then some (statusWord true true)
          else none }] := by
  rw [pollOutcome, h]
  rfl

/-- Each poll forwards the image of what it popped. -/
theorem Polls.forwards_eq {polls : List (Poll ι)} (h : Polls polls) {poll : Poll ι}
    (hmem : poll ∈ polls) :
    poll.forwards.map Forward.triple = (poll.found.bind Message.image).toList := by
  induction h with
  | nil => cases hmem
  | snoc found _ ih =>
    rcases List.mem_append.mp hmem with hold | hnew
    · exact ih hold
    · rw [List.mem_singleton.mp hnew]
      exact pollOutcome_triple _ found

/-- Together they forward the images of the popped messages, in order. -/
theorem Polls.forwarded_eq {polls : List (Poll ι)} (h : Polls polls) :
    (polls.flatMap Poll.forwards).map Forward.triple = (popped polls).filterMap Message.image := by
  induction h with
  | nil => rfl
  | snoc found _ ih =>
    rw [List.flatMap_append, List.map_append, ih, popped_concat, List.filterMap_append,
      List.flatMap_singleton, pollOutcome_triple]
    -- The last poll contributes the image of what it found, if both are there.
    cases found with
    | none => rfl
    | some msg =>
      cases h : msg.image with
      | none => simp [h]
      | some triple => simp [h]

/-! ### The handshake -/

/-- The part of a poll after its `STATUS` read: the registers hold what it popped, the
    announcement is taken back, and `status` is the word that was read. -/
def State.Reading (s : State ι) (status : UInt32) (triple : Triple) : Prop :=
  s.found.bind Message.image = some triple ∧ s.peripheral.Holds triple ∧
    s.peripheral.After (popped s.polls ++ s.found.toList) false 1 ∧
    status = statusWord true ((popped s.polls ++ s.found.toList).any Message.bumps)

/-- What the registers and the locals hold before each access. -/
def State.AtPc (s : State ι) : Prop :=
  match s.pc with
  | .initReadCtrl => s.peripheral.After (popped s.polls) false 0
  | .initWriteCtrl ctrl => ctrl = 0 ∧ s.peripheral.After (popped s.polls) false 0
  | .readCtrl => s.peripheral.After (popped s.polls) false 1
  | .writeCtrl ctrl => ctrl = 0 ∧ s.peripheral.After (popped s.polls) false 1
  | .readStatus =>
    s.peripheral.After (popped s.polls ++ s.found.toList) (s.found.bind Message.image).isSome 1 ∧
      ∀ triple, s.found.bind Message.image = some triple → s.peripheral.Holds triple
  | .readSimTime status => ∃ triple, s.Reading status triple
  | .readSeqnum status simTimeMs =>
    ∃ triple, s.Reading status triple ∧ simTimeMs = triple.simTimeMs
  | .readWheelSpeed status simTimeMs seqnum =>
    ∃ triple, s.Reading status triple ∧ simTimeMs = triple.simTimeMs ∧ seqnum = triple.seqnum

/-- **The handshake invariant.** -/
structure State.Inv (s : State ι) : Prop where
  polls : Polls s.polls
  atPc : s.AtPc

/-- The invariant before the first access. -/
theorem State.inv_boot : (boot : State ι).Inv where
  polls := .nil
  atPc := Peripheral.after_reset

/-- A message may be enqueued between any two accesses. -/
theorem State.Inv.enqueue {s : State ι} (h : s.Inv) (msg : Message ι) :
    State.Inv { s with peripheral := s.peripheral.putNowait msg } := by
  refine ⟨h.polls, ?_⟩
  -- No fact about the registers or the messages taken is touched, wherever the driver is.
  have hpc := h.atPc
  obtain ⟨p, pc, found, polls⟩ := s
  cases pc with
  | initReadCtrl => exact hpc.putNowait msg
  | initWriteCtrl ctrl => exact ⟨hpc.1, hpc.2.putNowait msg⟩
  | readCtrl => exact hpc.putNowait msg
  | writeCtrl ctrl => exact ⟨hpc.1, hpc.2.putNowait msg⟩
  | readStatus => exact ⟨hpc.1.putNowait msg, fun t ht => (hpc.2 t ht).putNowait msg⟩
  | readSimTime status =>
    obtain ⟨t, ht, hholds, hafter, hstatus⟩ := hpc
    exact ⟨t, ht, hholds.putNowait msg, hafter.putNowait msg, hstatus⟩
  | readSeqnum status simTimeMs =>
    obtain ⟨t, ⟨ht, hholds, hafter, hstatus⟩, htime⟩ := hpc
    exact ⟨t, ⟨ht, hholds.putNowait msg, hafter.putNowait msg, hstatus⟩, htime⟩
  | readWheelSpeed status simTimeMs seqnum =>
    obtain ⟨t, ⟨ht, hholds, hafter, hstatus⟩, hlatched⟩ := hpc
    exact ⟨t, ⟨ht, hholds.putNowait msg, hafter.putNowait msg, hstatus⟩, hlatched⟩

/-- The end of a poll that forwarded what it should. -/
theorem State.inv_endPoll {s : State ι} {forwards : List Forward} (hpolls : Polls s.polls)
    (hf : forwards = pollOutcome (popped s.polls) s.found)
    (hafter : s.peripheral.After (popped s.polls ++ s.found.toList) false 1) :
    (s.endPoll forwards).Inv where
  polls := by
    rw [hf]
    exact .snoc s.found hpolls
  atPc := by
    show s.peripheral.After (popped (s.polls ++ [_])) false 1
    rw [popped_concat]
    exact hafter

/-- What a poll should forward once its `STATUS` read announced a message. -/
theorem State.Reading.pollOutcome_eq {s : State ι} {status : UInt32} {triple : Triple}
    (h : s.Reading status triple) :
    pollOutcome (popped s.polls) s.found =
      [{ triple := triple
         bumpDetected := if status &&& statusBumpDetected ≠ 0 then some status else none }] := by
  obtain ⟨himage, -, -, hstatus⟩ := h
  rw [pollOutcome_of_image himage, hstatus]
  -- The bump bit speaks of all that was popped.
  simp only [statusWord_bump_bit]
  split
  · rename_i hbump
    rw [hbump]
  · rfl

/-- The next access keeps the invariant. -/
theorem State.Inv.access {s : State ι} (h : s.Inv) : s.access.Inv := by
  have hpc := h.atPc
  obtain ⟨p, pc, found, polls⟩ := s
  cases pc with
  | initReadCtrl => exact ⟨h.polls, rfl, hpc⟩
  | initWriteCtrl ctrl =>
    -- CTRL read as 0, so the two bits are all that is written.
    obtain ⟨rfl, hafter⟩ := hpc
    refine ⟨h.polls, ?_⟩
    have hwrite := hafter.write_init
    rw [← UInt32.zero_or (a := ctrlInit ||| ctrlUsingSimulator)] at hwrite
    exact hwrite
  | readCtrl => exact ⟨h.polls, rfl, hpc⟩
  | writeCtrl ctrl =>
    -- The same here: the old commands are not written again.
    obtain ⟨rfl, hafter⟩ := hpc
    refine ⟨h.polls, ?_⟩
    have hwrite := hafter.write_request
    rw [← UInt32.zero_or (a := ctrlRequestMeasurement)] at hwrite
    exact hwrite
  | readStatus =>
    obtain ⟨hafter, hholds⟩ := hpc
    obtain ⟨hstatus, hafter'⟩ := hafter.read_status 0
    unfold State.access
    simp only [hstatus, statusWord_valid_bit]
    split
    · -- A message was popped, and the registers hold it until the next request.
      rename_i hsome
      obtain ⟨t, ht⟩ := Option.isSome_iff_exists.mp hsome
      refine ⟨h.polls, t, ht, hholds t ht, hafter', ?_⟩
      rw [hsome]
    · -- Nothing was popped, or only a message that lacks a key.
      rename_i hnone
      refine State.inv_endPoll h.polls ?_ hafter'
      rw [pollOutcome, Option.not_isSome_iff_eq_none.mp hnone]
      rfl
  | readSimTime status =>
    obtain ⟨t, hreading⟩ := hpc
    exact ⟨h.polls, t, hreading, by rw [hreading.2.1]⟩
  | readSeqnum status simTimeMs =>
    obtain ⟨t, hreading, htime⟩ := hpc
    exact ⟨h.polls, t, hreading, htime, by rw [hreading.2.1]⟩
  | readWheelSpeed status simTimeMs seqnum =>
    obtain ⟨t, hreading, htime, hseq⟩ := hpc
    have hspeed : (wheelSpeedToRegVal p.wheelSpeed).toInt32 = t.wheelSpeed := by rw [hreading.2.1]
    refine State.inv_endPoll h.polls ?_ hreading.2.2.1
    rw [hreading.pollOutcome_eq, htime, hseq]
    show [Forward.mk ⟨_, _, (wheelSpeedToRegVal p.wheelSpeed).toInt32⟩ _] = _
    rw [hspeed]

/-- The handshake holds in every reachable state. -/
theorem State.inv_reachable {s : State ι} (h : (wss ι).Reachable s) : s.Inv := by
  apply h.invariant State.inv_boot
  intro s a s' hs hstep
  cases a with
  | enqueue msg =>
    cases hstep
    exact hs.enqueue msg
  | access =>
    cases hstep
    exact hs.access

/-- Before any access, `After` holds of the completed polls and what the present one popped. -/
theorem State.Inv.after {s : State ι} (h : s.Inv) :
    ∃ more valid n, s.peripheral.After (popped s.polls ++ more) valid n := by
  have hpc := h.atPc
  unfold State.AtPc at hpc
  split at hpc
  · exact ⟨[], _, _, by rw [List.append_nil]; exact hpc⟩
  · exact ⟨[], _, _, by rw [List.append_nil]; exact hpc.2⟩
  · exact ⟨[], _, _, by rw [List.append_nil]; exact hpc⟩
  · exact ⟨[], _, _, by rw [List.append_nil]; exact hpc.2⟩
  · exact ⟨_, _, _, hpc.1⟩
  · obtain ⟨t, hreading⟩ := hpc
    exact ⟨_, _, _, hreading.2.2.1⟩
  · obtain ⟨t, hreading, -⟩ := hpc
    exact ⟨_, _, _, hreading.2.2.1⟩
  · obtain ⟨t, hreading, -⟩ := hpc
    exact ⟨_, _, _, hreading.2.2.1⟩

/-- The bump bit of `STATUS` speaks of all that was popped. -/
theorem State.Inv.bump_bit {s : State ι} (h : s.Inv) :
    s.peripheral.status &&& statusBumpDetected ≠ 0 ↔
      s.peripheral.gMsgQ.taken.any Message.bumps = true := by
  obtain ⟨more, valid, n, hafter⟩ := h.after
  rw [hafter.status, hafter.taken]
  exact statusWord_bump_bit _ _

/-- The completed polls have popped the first of the messages taken. -/
theorem State.Inv.popped_taken {s : State ι} (h : s.Inv) :
    popped s.polls <+: s.peripheral.gMsgQ.taken := by
  obtain ⟨more, valid, n, hafter⟩ := h.after
  rw [hafter.taken]
  exact List.prefix_append _ _

/-- The driver puts nothing into the queue. -/
theorem State.access_accepted (s : State ι) :
    s.access.peripheral.gMsgQ.accepted = s.peripheral.gMsgQ.accepted := by
  have hread (offset : ℕ) : (s.peripheral.read offset 0).1.gMsgQ.accepted
      = s.peripheral.gMsgQ.accepted := by rw [Peripheral.read_gMsgQ]
  unfold State.access
  split
  · exact hread _
  · exact Peripheral.write_accepted ..
  · exact hread _
  · exact Peripheral.write_accepted ..
  · dsimp only
    split <;> exact hread _
  · exact hread _
  · exact hread _
  · exact hread Register.wheelSpeed.offset

/-- **The messages accepted** in a run are those that were admitted, in order. -/
theorem State.accepted_eq_admitted {s s' : State ι} {as : List (Action ι)}
    (h : (wss ι).runFrom s as = some s') :
    s'.peripheral.gMsgQ.accepted = s.peripheral.gMsgQ.accepted ++ s.admitted as := by
  induction as generalizing s with
  | nil =>
    obtain rfl := Option.some.inj h
    rw [State.admitted, List.append_nil]
  | cons a as ih =>
    cases a with
    | enqueue msg =>
      rw [ih h, State.admitted, Peripheral.putNowait_accepted]
      split <;> simp
    | access => rw [ih h, State.admitted, State.access_accepted]

/-! ### The register protocol -/

/-- What has happened after the actions `as` when the driver is at the head of its loop. -/
structure PollBoundary (as : List (Action ι)) (s : State ι) : Prop where
  /-- A message is accepted when it is put into the queue, unless 32 are queued there. -/
  accepted : s.peripheral.gMsgQ.accepted = State.boot.admitted as
  /-- The queue is a bounded FIFO queue: the popped messages are the first of the accepted. -/
  fifo : s.peripheral.gMsgQ.accepted = s.peripheral.gMsgQ.taken ++ s.peripheral.gMsgQ.items
  bounded : s.peripheral.gMsgQ.items.length ≤ 32
  /-- The triples forwarded are the images of the popped messages, each once and in order. -/
  forwarded : s.forwarded = s.peripheral.gMsgQ.taken.filterMap Message.image
  /-- Each message was popped by one poll, which forwarded its image and nothing else; a poll
      that popped nothing forwarded nothing. -/
  popped : popped s.polls = s.peripheral.gMsgQ.taken
  perPoll : ∀ poll ∈ s.polls,
    poll.forwards.map Forward.triple = (poll.found.bind Message.image).toList
  /-- `CTRL_INIT` and `CTRL_USING_SIMULATOR` were processed once. -/
  once : s.peripheral.inits = 1 ∧ s.peripheral.servers = 1

/-- **The register protocol**, for any interleaving of the server thread with the accesses of
    `wss_init` and any number of polls. -/
theorem poll_boundary {as : List (Action ι)} {s : State ι} (h : (wss ι).run as = some s)
    (hpc : s.pc = .readCtrl) : PollBoundary as s := by
  have hinv := State.inv_reachable ⟨as, h⟩
  -- At a poll boundary everything taken was popped by a completed poll.
  have hafter : s.peripheral.After (Wss.popped s.polls) false 1 := by
    have hat := hinv.atPc
    rw [State.AtPc, hpc] at hat
    exact hat
  refine ⟨?_, s.peripheral.gMsgQ.law, s.peripheral.gMsgQ.bound, ?_, hafter.taken.symm, ?_, ?_⟩
  · exact State.accepted_eq_admitted h
  · rw [State.forwarded, hinv.polls.forwarded_eq, hafter.taken]
  · exact fun poll hpoll => hinv.polls.forwards_eq hpoll
  · exact ⟨hafter.inits, hafter.servers⟩

/-- Two messages and three polls; the second message arrives within the first poll, and one
    without a `bump` key after it. -/
def twoMessages : List (Action Unit) :=
  [.access, .access, .enqueue ⟨some 5000000, some 1, some 0, some 2, ()⟩,
    .access, .access, .access,
    .enqueue ⟨some 6000000, some 2, none, some (-1), ()⟩, .access, .access, .access,
    .access, .access, .access, .access, .access, .access]

/-- The protocol of this run. -/
theorem poll_boundary_twoMessages :
    ∃ s, (wss Unit).run twoMessages = some s ∧ s.polls.length = 3 ∧
      PollBoundary twoMessages s :=
  ⟨_, rfl, by decide, @poll_boundary _ twoMessages _ rfl (by decide)⟩

end Wallbot.Wss
