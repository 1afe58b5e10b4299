import Wallbot.WssDriver

namespace Wallbot

open Wss

/-!
# Contact detection — `ImuRelay.cc` to `wss.c`

The Gazebo plugin latches the first contact and stamps every IMU message with the latch; the
peripheral keeps its own sticky bit.  Both ends of the chain, with the losses in between:

* `Relay.contactMsgCb`, `Relay.msgCb` — the two callbacks of the plugin;
* `world` — the machine of the callbacks, of the server thread, and of the driver's register
  accesses.  The `origin` of a message is the step that wrote it.  Messages arrive one per `recv`,
  until a `recv` that returns anything else ends the thread;
* `World.Inv` — later messages carry later latches, so a sticky bit loses nothing;
* `contacts_detected` — a poll that gets a message reports a bump exactly when some contact
  came before the callback that wrote it.
-/

/-! ### The plugin -/

/-- The two flags of `ImuRelayPrivate`. -/
structure Relay where
  connected : Bool
  bumpDetected : Bool
  deriving DecidableEq, Repr

/-- The data of an IMU message that are relayed.  The sequence number is the text of an integer,
    and the angular velocity the number that `%lf` prints of a finite double. -/
structure Imu where
  sec : ℤ
  nsec : ℤ
  nativeSeqnum : ℤ
  angularVelocityZ : ℚ
  deriving DecidableEq, Repr

/-- `ts_ns`. -/
def Imu.tsNs (msg : Imu) : UInt64 :=
  UInt64.ofInt msg.sec * 1000000000 + UInt64.ofInt msg.nsec

namespace Relay

/-- The plugin as it is constructed. -/
def start : Relay where
  connected := false
  bumpDetected := false

/-- `contact_msg_cb`. -/
def contactMsgCb (r : Relay) : Relay :=
  if !r.bumpDetected then { r with bumpDetected := true } else r

/-- The message that `msg_cb` writes. -/
def encode {ι : Type} (r : Relay) (msg : Imu) (origin : ι) : Message ι where
  simTime := some msg.tsNs.toNat
  seqnum := some msg.nativeSeqnum
  bump := some (if r.bumpDetected then 1 else 0)
  wheelSpeed := some msg.angularVelocityZ
  origin := origin

/-- `msg_cb`, with the answers of `connect` and `write`: the message that is on its way, unless
    the callback returns early or cannot write. -/
def msgCb {ι : Type} (r : Relay) (connectOk writeOk : Bool) (msg : Imu) (origin : ι) :
    Relay × Option (Message ι) :=
  let r := if !r.connected && connectOk then { r with connected := true } else r
  if r.connected then (r, if writeOk then some (r.encode msg origin) else none) else (r, none)

/-- A contact sets the latch. -/
theorem contactMsgCb_bumpDetected (r : Relay) : r.contactMsgCb.bumpDetected = true := by
  unfold contactMsgCb
  cases h : r.bumpDetected <;> simp [h]

/-- A reading leaves the latch as it is. -/
theorem msgCb_bumpDetected {ι : Type} (r : Relay) (connectOk writeOk : Bool) (msg : Imu)
    (origin : ι) : (r.msgCb connectOk writeOk msg origin).1.bumpDetected = r.bumpDetected := by
  obtain ⟨connected, bump⟩ := r
  cases connected <;> cases connectOk <;> rfl

/-- What a callback writes carries the latch of that moment. -/
theorem msgCb_written {ι : Type} {r : Relay} {connectOk writeOk : Bool} {msg : Imu} {origin : ι}
    {m : Message ι} (h : (r.msgCb connectOk writeOk msg origin).2 = some m) :
    m = r.encode msg origin := by
  obtain ⟨connected, bump⟩ := r
  cases connected <;> cases connectOk <;> cases writeOk <;> cases h <;> rfl

end Relay

/-! ### The chain -/

/-- The plugin, the messages that it wrote on the TCP connection, and the firmware's side.
    `clock` counts the steps, and `receiving` says that the server thread still runs. -/
structure World where
  clock : ℕ
  relay : Relay
  wire : List (Message ℕ)
  receiving : Bool
  sensor : Wss.State ℕ

/-- The actions of the relay, of the server thread and of the driver. -/
inductive WorldAction where
  /-- A callback of the contact sensor. -/
  | contact
  /-- A callback of the IMU, with what `connect` and `write` return if it calls them. -/
  | imu (connectOk writeOk : Bool) (msg : Imu)
  /-- The server thread receives the oldest message under way. -/
  | recv
  /-- It receives anything else: a piece of a message, more than one message, or nothing.  Then
      `json.loads` raises or the loop breaks, and the thread ends. -/
  | recvOther
  /-- The driver makes its next register access. -/
  | access
  deriving DecidableEq, Repr

namespace World

/-- Before the first callback. -/
def boot : World where
  clock := 0
  relay := .start
  wire := []
  receiving := true
  sensor := .boot

/-- A callback, a turn of the server thread, or a register access. -/
def step (w : World) (a : WorldAction) : Option World :=
  match a with
  | .contact => some { w with clock := w.clock + 1, relay := w.relay.contactMsgCb }
  | .imu connectOk writeOk msg =>
    let (relay, written) := w.relay.msgCb connectOk writeOk msg w.clock
    some { w with clock := w.clock + 1, relay := relay, wire := w.wire ++ written.toList }
  | .recv =>
    match w.receiving, w.wire with
    | true, msg :: wire =>
      ((wss ℕ).step w.sensor (.enqueue msg)).map fun sensor =>
        { w with clock := w.clock + 1, wire := wire, sensor := sensor }
    | _, _ => none
  | .recvOther =>
    -- Nothing of what is under way, or written later, will be read.
    if w.receiving then some { w with clock := w.clock + 1, receiving := false } else none
  | .access =>
    ((wss ℕ).step w.sensor .access).map fun sensor =>
      { w with clock := w.clock + 1, sensor := sensor }

/-- The messages that the peripheral accepted and those written after them, oldest first. -/
def messages (w : World) : List (Message ℕ) :=
  w.sensor.peripheral.gMsgQ.accepted ++ w.wire

end World

/-- The interleavings of callbacks, arrivals and register accesses. -/
def world : Machine World WorldAction where
  init := .boot
  step := World.step

/-! ### Later messages carry later latches -/

/-- Some contact callback came before the IMU callback that wrote `m`. -/
def ContactBefore (as : List WorldAction) (m : Message ℕ) : Prop :=
  .contact ∈ as.take m.origin

/-- `m` was written by an IMU callback of the run `as`, with the latch of that moment. -/
structure Written (as : List WorldAction) (m : Message ℕ) : Prop where
  callback : ∃ connectOk writeOk msg, as[m.origin]? = some (.imu connectOk writeOk msg)
  image : m.image.isSome
  bump : m.bump = some 1 ∧ ContactBefore as m ∨ m.bump = some 0 ∧ ¬ ContactBefore as m

variable {as : List WorldAction} {m : Message ℕ}

/-- What was written comes from an action of the past. -/
theorem Written.origin_lt (h : Written as m) : m.origin < as.length := by
  obtain ⟨connectOk, writeOk, msg, hget⟩ := h.callback
  exact (List.getElem?_eq_some_iff.mp hget).1

/-- What was written stays so when the run goes on. -/
theorem Written.concat (h : Written as m) (a : WorldAction) : Written (as ++ [a]) m := by
  have hlt := h.origin_lt
  -- The run up to the callback is the same.
  have htake : (as ++ [a]).take m.origin = as.take m.origin :=
    List.take_append_of_le_length hlt.le
  refine ⟨?_, h.image, ?_⟩
  · rw [List.getElem?_append_left hlt]
    exact h.callback
  · simpa only [ContactBefore, htake] using h.bump

/-- A message reports a bump exactly when a contact came before its reading. -/
theorem Written.bumps_iff (h : Written as m) : m.bumps = true ↔ ContactBefore as m := by
  rcases h.bump with ⟨hbump, hbefore⟩ | ⟨hbump, hbefore⟩
  · simp [Message.bumps, h.image, hbump, hbefore]
  · simp [Message.bumps, h.image, hbump, hbefore]

/-- The latch is never released, so every message written by then knows of the contact. -/
structure World.Inv (as : List WorldAction) (w : World) : Prop where
  clock : w.clock = as.length
  latch : w.relay.bumpDetected = true ↔ .contact ∈ as
  written : ∀ m ∈ w.messages, Written as m
  sorted : w.messages.Pairwise fun m m' => m.origin < m'.origin
  sensor : w.sensor.Inv

namespace World

/-- The invariant before the first step. -/
theorem inv_boot : boot.Inv [] where
  clock := rfl
  latch := by simp [boot, Relay.start]
  written := by simp [boot, messages, Wss.State.boot, Peripheral.reset]
  sorted := by simp [boot, messages, Wss.State.boot, Peripheral.reset]
  sensor := Wss.State.inv_boot

variable {w w' : World}

/-- A step that changes none of the messages for the relay keeps what is known of them. -/
theorem Inv.of_sublist {relay : Relay} {wire : List (Message ℕ)} {receiving : Bool}
    {sensor : Wss.State ℕ} (h : w.Inv as) (a : WorldAction)
    (hlatch : relay.bumpDetected = true ↔ .contact ∈ as ++ [a])
    (hsub : (sensor.peripheral.gMsgQ.accepted ++ wire).Sublist w.messages)
    (hsensor : sensor.Inv) :
    Inv (as ++ [a]) ⟨w.clock + 1, relay, wire, receiving, sensor⟩ where
  clock := by simp [h.clock]
  latch := hlatch
  written := fun m hm => (h.written m (hsub.subset hm)).concat a
  sorted := h.sorted.sublist hsub
  sensor := hsensor

/-- The step of a reading, with its message on the connection if it could be written. -/
theorem step_imu (w : World) (connectOk writeOk : Bool) (msg : Imu) :
    w.step (.imu connectOk writeOk msg) =
      some
        { w with
          clock := w.clock + 1
          relay := (w.relay.msgCb connectOk writeOk msg w.clock).1
          wire := w.wire ++ (w.relay.msgCb connectOk writeOk msg w.clock).2.toList } := rfl

/-- A new message is younger than all others and has the latch of this moment. -/
theorem Inv.imu (h : w.Inv as) (connectOk writeOk : Bool) (msg : Imu)
    (hs : w.step (.imu connectOk writeOk msg) = some w') :
    w'.Inv (as ++ [.imu connectOk writeOk msg]) := by
  rw [step_imu, Option.some.injEq] at hs
  subst hs
  have hlatch : (w.relay.msgCb connectOk writeOk msg w.clock).1.bumpDetected = true ↔
      .contact ∈ as ++ [.imu connectOk writeOk msg] := by
    rw [Relay.msgCb_bumpDetected, h.latch]
    simp
  cases hwritten : (w.relay.msgCb connectOk writeOk msg w.clock).2 with
  | none =>
    -- Not connected, or the write failed: the reading is lost.
    refine h.of_sublist _ hlatch ?_ h.sensor
    rw [Option.toList_none, List.append_nil]
    exact List.Sublist.refl _
  | some m =>
    -- The message is marked with this step, and its latch is that of the run so far.
    have hm := Relay.msgCb_written hwritten
    have horigin : m.origin = as.length := by rw [hm, ← h.clock]; rfl
    have hcontact : ContactBefore (as ++ [.imu connectOk writeOk msg]) m ↔
        w.relay.bumpDetected = true := by
      rw [ContactBefore, horigin, List.take_left, h.latch]
    have hmessages : w.sensor.peripheral.gMsgQ.accepted ++ (w.wire ++ [m]) = w.messages ++ [m] :=
      (List.append_assoc _ _ _).symm
    refine ⟨by simp [h.clock], hlatch, ?_, ?_, h.sensor⟩
    · intro m' hm'
      simp only [messages, Option.toList_some, hmessages] at hm'
      rcases List.mem_append.mp hm' with hold | hnew
      · exact (h.written m' hold).concat _
      · rw [List.mem_singleton.mp hnew]
        refine ⟨⟨connectOk, writeOk, msg, by rw [horigin]; simp⟩, by rw [hm]; rfl, ?_⟩
        rw [hcontact, hm]
        cases hb : w.relay.bumpDetected <;> simp [Relay.encode, hb]
    · simp only [messages, Option.toList_some, hmessages]
      rw [List.pairwise_append]
      refine ⟨h.sorted, List.pairwise_singleton _ _, ?_⟩
      intro m' hm' m'' hm''
      rw [List.mem_singleton.mp hm'', horigin]
      exact (h.written m' hm').origin_lt

/-- A message arrives while the thread runs, and is put to the queue. -/
theorem step_recv (hs : w.step .recv = some w') :
    w.receiving = true ∧ ∃ m wire, w.wire = m :: wire ∧
      w' =
        { w with
          clock := w.clock + 1
          wire := wire
          sensor := { w.sensor with peripheral := w.sensor.peripheral.putNowait m } } := by
  simp only [World.step] at hs
  split at hs
  · rename_i m wire hrunning hwire
    exact ⟨hrunning, m, wire, hwire, (Option.some.inj hs).symm⟩
  · cases hs

/-- The end of the thread. -/
theorem step_recvOther (hs : w.step .recvOther = some w') :
    w.receiving = true ∧ w' = { w with clock := w.clock + 1, receiving := false } := by
  simp only [World.step, Option.ite_none_right_eq_some, Option.some.injEq] at hs
  exact ⟨hs.1, hs.2.symm⟩

/-- The server thread: the message moves from the connection to the queue, or is dropped. -/
theorem Inv.recv (h : w.Inv as) (hs : w.step .recv = some w') : w'.Inv (as ++ [.recv]) := by
  have hlatch : w.relay.bumpDetected = true ↔ .contact ∈ as ++ [WorldAction.recv] := by
    rw [h.latch]
    simp
  obtain ⟨-, m, wire, hwire, rfl⟩ := step_recv hs
  refine h.of_sublist _ hlatch ?_ (h.sensor.enqueue m)
  rw [messages, hwire]
  show ((w.sensor.peripheral.putNowait m).gMsgQ.accepted ++ wire).Sublist _
  unfold Peripheral.putNowait
  cases hput : w.sensor.peripheral.gMsgQ.put? m with
  | none =>
    -- The queue is full, and the message is dropped.
    exact (List.sublist_cons_self m wire).append_left _
  | some q =>
    simp only [(Fifo.put?_eq_some hput).2.1, List.append_assoc, List.singleton_append]
    exact List.Sublist.refl _

/-- **The step**: every action keeps the invariant. -/
theorem Inv.step (h : w.Inv as) {a : WorldAction} (hs : w.step a = some w') :
    w'.Inv (as ++ [a]) := by
  cases a with
  | contact =>
    cases hs
    refine h.of_sublist _ ?_ (List.Sublist.refl _) h.sensor
    simp [Relay.contactMsgCb_bumpDetected]
  | imu connectOk writeOk msg => exact h.imu connectOk writeOk msg hs
  | recv => exact h.recv hs
  | recvOther =>
    obtain ⟨-, rfl⟩ := step_recvOther hs
    refine h.of_sublist _ ?_ (List.Sublist.refl _) h.sensor
    rw [h.latch]
    simp
  | access =>
    cases hs
    refine h.of_sublist _ ?_ ?_ h.sensor.access
    · rw [h.latch]
      simp
    · show (w.sensor.access.peripheral.gMsgQ.accepted ++ w.wire).Sublist w.messages
      rw [Wss.State.access_accepted]
      exact List.Sublist.refl _

/-- The invariant holds in every run. -/
theorem inv_run (h : world.run as = some w) : w.Inv as :=
  Machine.run_history (I := fun as w => w.Inv as) inv_boot
    (fun _ _ _ _ hinv hs => hinv.step hs) h

end World

/-! ### Bumps reported -/

/-- The poll traced `bump_detected`. -/
def reportsBump (poll : Poll ℕ) : Bool :=
  poll.forwards.any fun f => f.bumpDetected.isSome

/-- In a list with later latches for later messages, the sticky bit is the bump of the last. -/
theorem any_bumps_concat {ms : List (Message ℕ)} (hw : ∀ m' ∈ ms ++ [m], Written as m')
    (hsorted : (ms ++ [m]).Pairwise fun m m' => m.origin < m'.origin) :
    (ms ++ [m]).any Message.bumps = true ↔ ContactBefore as m := by
  constructor
  · intro hany
    obtain ⟨m', hmem, hbumps⟩ := List.any_eq_true.mp hany
    have hbefore : ContactBefore as m' := (hw m' hmem).bumps_iff.mp hbumps
    rcases List.mem_append.mp hmem with hold | hnew
    · -- An earlier message knew of a contact, so this one does.
      have hlt : m'.origin < m.origin :=
        (List.pairwise_append.mp hsorted).2.2 m' hold m (List.mem_singleton_self m)
      exact (List.take_prefix_take_left hlt.le).subset hbefore
    · rwa [List.mem_singleton.mp hnew] at hbefore
  · intro hbefore
    have hmem : m ∈ ms ++ [m] := by simp
    exact List.any_eq_true.mpr ⟨m, hmem, (hw m hmem).bumps_iff.mpr hbefore⟩

/-- A series of polls of relayed messages reports each as it should. -/
theorem reportsBump_iff {polls : List (Poll ℕ)} (hp : Polls polls)
    (hw : ∀ m ∈ popped polls, Written as m)
    (hsorted : (popped polls).Pairwise fun m m' => m.origin < m'.origin) :
    ∀ poll ∈ polls, reportsBump poll = true ↔ ∃ m, poll.found = some m ∧ ContactBefore as m := by
  induction hp with
  | nil => simp
  | @snoc polls found hp ih =>
    rw [popped_concat] at hw hsorted
    rw [List.forall_mem_append, List.forall_mem_singleton]
    constructor
    · apply ih
      · exact fun m hm => hw m (List.mem_append_left _ hm)
      · exact hsorted.sublist (List.sublist_append_left _ _)
    · -- The last poll reports the sticky bit of all that was popped.
      cases found with
      | none => simp [reportsBump, pollOutcome]
      | some m =>
        obtain ⟨triple, himage⟩ := Option.isSome_iff_exists.mp (hw m (by simp)).image
        have hany := any_bumps_concat hw hsorted
        have hfound : (some m).bind Message.image = some triple := himage
        simp only [reportsBump, pollOutcome_of_image hfound, Option.some.injEq, exists_eq_left',
          ← hany]
        simp

/-- What is known of contacts after the run `as`. -/
structure ContactsDetected (as : List WorldAction) (w : World) : Prop where
  /-- Every message goes back to the IMU callback that wrote it. -/
  callback : ∀ poll ∈ w.sensor.polls, ∀ m, poll.found = some m →
    ∃ connectOk writeOk msg, as[m.origin]? = some (.imu connectOk writeOk msg)
  /-- A poll with a message reports a bump exactly when a contact came before its callback. -/
  reported : ∀ poll ∈ w.sensor.polls, ∀ m, poll.found = some m →
    (reportsBump poll = true ↔ .contact ∈ as.take m.origin)
  /-- No poll without a message reports one, and none does before a contact. -/
  idle : ∀ poll ∈ w.sensor.polls, poll.found = none → reportsBump poll = false
  early : .contact ∉ as → ∀ poll ∈ w.sensor.polls, reportsBump poll = false
  /-- The bump bit of `STATUS` is the bump of the last message popped. -/
  sticky : w.sensor.peripheral.status &&& statusBumpDetected ≠ 0 ↔
    ∃ m, w.sensor.peripheral.gMsgQ.taken.getLast? = some m ∧ m.bump = some 1

/-- **Contact detection**, after any run of callbacks, losses, arrivals and polls. -/
theorem contacts_detected {w : World} (h : world.run as = some w) : ContactsDetected as w := by
  have hinv := World.inv_run h
  have haccepted : w.sensor.peripheral.gMsgQ.taken <+: w.messages := by
    rw [World.messages, w.sensor.peripheral.gMsgQ.law, List.append_assoc]
    exact List.prefix_append _ _
  -- So the messages popped were written by callbacks, in this order.
  have hpopped := hinv.sensor.popped_taken.trans haccepted
  have hreports := reportsBump_iff hinv.sensor.polls
    (fun m hm => hinv.written m (hpopped.subset hm)) (hinv.sorted.sublist hpopped.sublist)
  have hfound : ∀ poll ∈ w.sensor.polls, ∀ m, poll.found = some m → Written as m := by
    intro poll hpoll m hm
    refine hinv.written m (hpopped.subset ?_)
    exact List.mem_filterMap.mpr ⟨poll, hpoll, hm⟩
  refine ⟨?_, ?_, ?_, ?_, ?_⟩
  · exact fun poll hpoll m hm => (hfound poll hpoll m hm).callback
  · intro poll hpoll m hm
    rw [hreports poll hpoll, hm]
    simp [ContactBefore]
  · intro poll hpoll hnone
    rw [← Bool.not_eq_true, hreports poll hpoll, hnone]
    simp
  · intro hcontact poll hpoll
    rw [← Bool.not_eq_true, hreports poll hpoll]
    rintro ⟨m, -, hbefore⟩
    exact hcontact ((List.take_subset _ _) hbefore)
  · rw [hinv.sensor.bump_bit]
    rcases List.eq_nil_or_concat w.sensor.peripheral.gMsgQ.taken with hnil | ⟨ms, m, hms⟩
    · simp [hnil]
    · -- The last message taken has the latest latch.
      rw [List.concat_eq_append] at hms
      have hw : ∀ m' ∈ ms ++ [m], Written as m' :=
        fun m' hm' => hinv.written m' (haccepted.subset (hms ▸ hm'))
      have hsorted := hinv.sorted.sublist haccepted.sublist
      rw [hms] at hsorted
      rw [hms, any_bumps_concat hw hsorted, List.getLast?_concat]
      rcases (hw m (by simp)).bump with ⟨hbump, hbefore⟩ | ⟨hbump, hbefore⟩
      · simp [hbump, hbefore]
      · simp [hbump, hbefore]

/-- A message lost before the server listens, one before the contact and one after it. -/
def bumpRun : List WorldAction :=
  [.imu false true ⟨1, 0, 1, 0⟩, .access, .access, .imu true true ⟨1, 500, 2, 3⟩, .contact,
    .imu true true ⟨2, 0, 3, 3⟩, .recv, .recv, .access, .access, .access, .access, .access,
    .access, .access, .access, .access, .access, .access, .access]

/-- A contact between two readings: the second poll reports it, the first does not. -/
theorem contacts_detected_bumpRun :
    ∃ w, world.run bumpRun = some w ∧ w.sensor.polls.map reportsBump = [false, true] ∧
      ContactsDetected bumpRun w :=
  ⟨_, rfl, by decide, contacts_detected rfl⟩

end Wallbot
