import Wallbot.ImuRelay
import Wallbot.Lib.Tally

namespace Wallbot

open Wss

/-!
# The readings of the relay — from the IMU callback to the driver's trace

What becomes of the IMU messages on their way through the plugin, the TCP connection, the bounded
queue of the peripheral and the polls of the driver.  A message can be lost at three places: the
callback is not connected or cannot write, the thread that reads the connection has ended, or the
queue is full.

* `World.readings` — the readings that are stored or on their way, as the driver sees them.
* `World.losses` — how many messages a step loses.
* `relay_accounting` — what the driver has forwarded, what waits, and what is lost.
* `simulation_times` — the traced simulation time is that of the message, in milliseconds.
-/

/-- The IMU messages that the callback gets in a run. -/
def imus (as : List WorldAction) : List Imu :=
  as.filterMap fun
    | .imu _ _ msg => some msg
    | _ => none

/-- What the driver is to read of an IMU message. -/
def Imu.triple (msg : Imu) : Triple where
  simTimeMs := simTimeToMs msg.tsNs.toNat
  seqnum := .ofInt msg.nativeSeqnum
  wheelSpeed := (wheelSpeedToRegVal msg.angularVelocityZ).toInt32

/-- One action more. -/
theorem imus_concat (as : List WorldAction) (a : WorldAction) :
    imus (as ++ [a]) = imus as ++ imus [a] := by
  rw [imus, List.filterMap_append]
  rfl

namespace World

/-- The messages on the connection that the server thread can still receive. -/
def arriving (w : World) : List (Message ℕ) := if w.receiving then w.wire else []

/-- The readings of the messages that the peripheral accepted and of those that can arrive. -/
def readings (w : World) : List Triple :=
  (w.sensor.peripheral.gMsgQ.accepted ++ w.arriving).filterMap Message.image

/-- The readings of the messages that wait in the queue or can arrive. -/
def waiting (w : World) : List Triple :=
  (w.sensor.peripheral.gMsgQ.items ++ w.arriving).filterMap Message.image

/-- How many messages the step loses.  When the thread ends, nothing that is on the connection will
    be received, nor what is written later. -/
def losses (w : World) : WorldAction → ℕ
  | .contact => 0
  | .imu connectOk writeOk _ =>
    if (w.relay.connected || connectOk) && writeOk && w.receiving then 0 else 1
  | .recv => if w.sensor.peripheral.gMsgQ.items.length < 32 then 0 else 1
  | .recvOther => w.wire.length
  | .access => 0

/-- At this step no message is lost. -/
def LosesNothing (w : World) (a : WorldAction) : Prop := w.losses a = 0

variable {w w' : World} {as : List WorldAction}

/-- A callback that is connected and can write sends its message, and no other does. -/
theorem msgCb_written (r : Relay) (connectOk writeOk : Bool) (msg : Imu) (origin : ℕ) :
    (r.msgCb connectOk writeOk msg origin).2.toList.filterMap Message.image =
      if (r.connected || connectOk) && writeOk then [msg.triple] else [] := by
  obtain ⟨connected, bump⟩ := r
  cases connected <;> cases connectOk <;> cases writeOk <;> rfl

/-- What a callback adds to the readings. -/
theorem readings_imu (w : World) (connectOk writeOk : Bool) (msg : Imu)
    (hs : w.step (.imu connectOk writeOk msg) = some w') :
    w'.readings = w.readings ++
      if w.losses (.imu connectOk writeOk msg) = 0 then [msg.triple] else [] := by
  rw [step_imu] at hs
  obtain rfl := Option.some.inj hs
  have hwritten := msgCb_written w.relay connectOk writeOk msg w.clock
  simp only [readings, arriving, losses]
  by_cases hrunning : w.receiving = true
  · rw [if_pos hrunning, if_pos hrunning, ← List.append_assoc, List.filterMap_append, hwritten]
    simp [hrunning]
  · simp [hrunning]

/-- The message that arrives keeps its place, unless the queue is full. -/
theorem accepted_recv (hs : w.step .recv = some w') :
    ∃ m wire, w.arriving = m :: wire ∧ w'.arriving = wire ∧
      w'.sensor.peripheral.gMsgQ.accepted =
        w.sensor.peripheral.gMsgQ.accepted ++ if w.losses .recv = 0 then [m] else [] := by
  obtain ⟨hrunning, m, wire, hwire, rfl⟩ := step_recv hs
  refine ⟨m, wire, by rw [arriving, if_pos hrunning, hwire], if_pos hrunning, ?_⟩
  show (w.sensor.peripheral.putNowait m).gMsgQ.accepted = _
  rw [losses, Peripheral.putNowait_accepted]
  simp

/-- Messages that all have a reading have as many readings. -/
theorem length_filterMap_image {ms : List (Message ℕ)} (hms : ∀ m ∈ ms, m.image.isSome) :
    (ms.filterMap Message.image).length = ms.length := by
  rw [List.length_filterMap_eq_countP, List.countP_eq_length]
  exact hms

/-- **The step**: of the readings and those that come in, all stay in order but what is lost. -/
theorem readings_step {a : WorldAction} (hw : ∀ m ∈ w.messages, m.image.isSome)
    (hs : w.step a = some w') :
    w'.readings.Sublist (w.readings ++ (imus [a]).map Imu.triple) ∧
      w'.readings.length + w.losses a = w.readings.length + (imus [a]).length := by
  cases a with
  | contact =>
    obtain rfl := Option.some.inj hs
    exact ⟨List.sublist_append_left _ _, rfl⟩
  | imu connectOk writeOk msg =>
    rw [readings_imu w connectOk writeOk msg hs]
    have hone : w.losses (.imu connectOk writeOk msg) ≤ 1 := by
      rw [losses]
      split <;> decide
    by_cases hok : w.losses (.imu connectOk writeOk msg) = 0
    · rw [if_pos hok, hok]
      exact ⟨List.Sublist.refl _, by rw [List.length_append]; rfl⟩
    · rw [if_neg hok, List.append_nil]
      exact ⟨List.sublist_append_left _ _, by simp [imus]; omega⟩
  | recv =>
    obtain ⟨m, wire, hold, hnew, haccepted⟩ := accepted_recv hs
    have hone : w.losses .recv ≤ 1 := by
      rw [losses]
      split <;> decide
    rw [readings, readings, hold, hnew, haccepted]
    by_cases hroom : w.losses .recv = 0
    · rw [if_pos hroom, hroom, List.append_assoc, List.singleton_append]
      exact ⟨List.sublist_append_left _ _, rfl⟩
    · -- The message that is dropped had a reading.
      have hm : m ∈ w.messages := by
        obtain ⟨hrunning, -⟩ := step_recv hs
        rw [arriving, if_pos hrunning] at hold
        rw [messages, hold]
        simp
      obtain ⟨triple, htriple⟩ := Option.isSome_iff_exists.mp (hw m hm)
      rw [if_neg hroom, List.append_nil, List.filterMap_append, List.filterMap_append,
        List.filterMap_cons_some htriple]
      refine ⟨?_, ?_⟩
      · exact ((List.sublist_cons_self _ _).append_left _).trans (List.sublist_append_left _ _)
      · simp [imus]
        omega
  | recvOther =>
    obtain ⟨hrunning, rfl⟩ := step_recvOther hs
    -- What is on the connection is lost at once.
    have hwire := length_filterMap_image fun m hm => hw m (List.mem_append_right _ hm)
    simp only [readings, arriving, hrunning, if_true, Bool.false_eq_true, if_false, losses,
      List.append_nil, List.filterMap_append, List.append_assoc, List.length_append]
    exact ⟨List.sublist_append_left _ _, by rw [hwire]; rfl⟩
  | access =>
    obtain rfl := Option.some.inj hs
    have hsame : readings { w with clock := w.clock + 1, sensor := w.sensor.access } =
        w.readings := by
      rw [readings, readings, Wss.State.access_accepted]
      rfl
    refine ⟨?_, ?_⟩
    · exact (congrArg (List.Sublist · _) hsame).mpr (List.sublist_append_left _ _)
    · exact congrArg (fun rs => List.length rs + 0) hsame

/-- **The run**: the readings are some of those of the messages, in order, and what is missing has
    been lost. -/
theorem readings_run (h : world.run as = some w) :
    w.readings.Sublist ((imus as).map Imu.triple) ∧
      w.readings.length + world.tally losses as = (imus as).length := by
  refine Machine.run_history_of_run (I := fun as w =>
    w.readings.Sublist ((imus as).map Imu.triple) ∧
      w.readings.length + world.tally losses as = (imus as).length)
    ⟨List.Sublist.refl _, rfl⟩ ?_ h
  rintro as w a w' has ⟨hsub, hlen⟩ hs
  have himage : ∀ m ∈ w.messages, m.image.isSome := fun m hm => ((inv_run has).written m hm).image
  obtain ⟨hsub', hlen'⟩ := readings_step himage hs
  rw [imus_concat, List.map_append, List.length_append, Machine.tally_concat has]
  exact ⟨hsub'.trans (hsub.append_right _), by omega⟩

/-- Nothing is missing exactly if no step has lost anything. -/
theorem readings_eq_all_iff (h : world.run as = some w) :
    w.readings = (imus as).map Imu.triple ↔ world.Along LosesNothing as := by
  obtain ⟨hsub, hlen⟩ := readings_run h
  rw [show world.Along LosesNothing as ↔ _ from (Machine.tally_eq_zero_iff h).symm]
  constructor
  · intro hall
    rw [hall, List.length_map] at hlen
    omega
  · intro hzero
    refine hsub.eq_of_length ?_
    rw [List.length_map]
    omega

/-- The readings are those that were taken, and those that wait. -/
theorem readings_eq (w : World) :
    w.readings = w.sensor.peripheral.gMsgQ.taken.filterMap Message.image ++ w.waiting := by
  rw [readings, waiting, w.sensor.peripheral.gMsgQ.law, List.append_assoc, List.filterMap_append]

end World

/-- The polls have forwarded the readings of what they popped. -/
theorem Wss.State.Inv.forwarded_prefix {s : Wss.State ℕ} (h : s.Inv) :
    s.forwarded <+: s.peripheral.gMsgQ.taken.filterMap Message.image := by
  rw [Wss.State.forwarded, h.polls.forwarded_eq]
  exact h.popped_taken.filterMap _

/-- At a poll boundary that is everything that was taken. -/
theorem Wss.State.Inv.forwarded_eq {s : Wss.State ℕ} (h : s.Inv) (hpc : s.pc = .readCtrl) :
    s.forwarded = s.peripheral.gMsgQ.taken.filterMap Message.image := by
  have hafter := h.atPc
  rw [Wss.State.AtPc, hpc] at hafter
  rw [Wss.State.forwarded, h.polls.forwarded_eq, hafter.taken]

/-- The end of a poll adds what it forwards. -/
theorem Wss.State.forwarded_endPoll (s : Wss.State ℕ) (forwards : List Forward) :
    (s.endPoll forwards).forwarded = s.forwarded ++ forwards.map Forward.triple := by
  rw [Wss.State.forwarded, Wss.State.forwarded, Wss.State.endPoll, List.flatMap_append,
    List.flatMap_singleton, List.map_append]

/-- Only the end of a poll forwards anything. -/
theorem Wss.State.forwarded_access (s : Wss.State ℕ) : s.forwarded <+: s.access.forwarded := by
  unfold Wss.State.access
  split
  case h_5 =>
    dsimp only
    split
    · exact List.prefix_refl _
    · rw [forwarded_endPoll]
      exact List.prefix_append _ _
  case h_8 =>
    dsimp only
    rw [forwarded_endPoll]
    exact List.prefix_append _ _
  all_goals exact List.prefix_refl _

variable {w w' : World} {as : List WorldAction}

/-- Nothing that was forwarded is taken back. -/
theorem World.forwarded_step {a : WorldAction} (hs : w.step a = some w') :
    w.sensor.forwarded <+: w'.sensor.forwarded := by
  cases a with
  | contact =>
    obtain rfl := Option.some.inj hs
    exact List.prefix_refl _
  | imu connectOk writeOk msg =>
    rw [step_imu] at hs
    obtain rfl := Option.some.inj hs
    exact List.prefix_refl _
  | recv =>
    obtain ⟨-, m, wire, -, rfl⟩ := step_recv hs
    exact List.prefix_refl _
  | recvOther =>
    obtain ⟨-, rfl⟩ := step_recvOther hs
    exact List.prefix_refl _
  | access =>
    obtain rfl := Option.some.inj hs
    exact w.sensor.forwarded_access

/-- What is forwarded are readings of the run, in their order. -/
theorem World.forwarded_sublist (h : world.run as = some w) :
    w.sensor.forwarded.Sublist ((imus as).map Imu.triple) := by
  have hprefix := (inv_run h).sensor.forwarded_prefix
  have hall := (readings_run h).1
  rw [readings_eq] at hall
  exact hprefix.sublist.trans ((List.sublist_append_left _ _).trans hall)

/-- **Accounting of the relay.**  What the driver has forwarded and what waits are readings of
    IMU messages, each at most once and in their order.  Between two polls the messages that they
    are not of are those that some step has lost, so they are all of them if and only if every
    callback could connect and write, no message met a full queue, and the server thread did not
    end before a message. -/
theorem relay_accounting (h : world.run as = some w) :
    (w.sensor.forwarded ++ w.waiting).Sublist ((imus as).map Imu.triple) ∧
      (w.sensor.pc = .readCtrl →
        (imus as).length =
            w.sensor.forwarded.length + w.waiting.length + world.tally World.losses as ∧
          (w.sensor.forwarded ++ w.waiting = (imus as).map Imu.triple ↔
            world.Along World.LosesNothing as)) := by
  have hsensor := (World.inv_run h).sensor
  obtain ⟨hsub, hlen⟩ := World.readings_run h
  constructor
  · rw [World.readings_eq] at hsub
    exact (hsensor.forwarded_prefix.sublist.append_right _).trans hsub
  · intro hpc
    have hall := World.readings_eq_all_iff h
    rw [World.readings_eq, ← hsensor.forwarded_eq hpc] at hall hlen
    rw [List.length_append] at hlen
    exact ⟨hlen.symm, hall⟩

/-- The thread ends on two joined messages, and the third is written in vain. -/
def joinedRun : List WorldAction :=
  [.access, .access, .imu true true ⟨1, 0, 1, 2⟩, .imu true true ⟨1, 500, 2, 3⟩, .recvOther,
    .imu true true ⟨2, 0, 3, 3⟩, .access, .access, .access]

/-- Three readings are lost in this run, so it is not one that loses nothing. -/
theorem relay_accounting_joinedRun :
    ∃ w, world.run joinedRun = some w ∧ world.tally World.losses joinedRun = 3 ∧
      ¬ world.Along World.LosesNothing joinedRun := by
  obtain ⟨w, hw⟩ : ∃ w, world.run joinedRun = some w := ⟨_, rfl⟩
  have hpc : w.sensor.pc = .readCtrl := by
    obtain rfl := Option.some.inj hw
    rfl
  refine ⟨w, hw, rfl, fun halong => ?_⟩
  have hall := ((relay_accounting hw).2 hpc).2.mpr halong
  obtain rfl := Option.some.inj hw
  exact absurd hall (by decide)

/-! ### Times and sequence numbers -/

/-- The time of a stamp in nanoseconds. -/
def Imu.ns (msg : Imu) : ℤ := msg.sec * 1000000000 + msg.nsec

/-- A stamp of the simulation: it is normalised, and its milliseconds fit into the register. -/
structure Imu.Stamped (msg : Imu) : Prop where
  sec_nonneg : 0 ≤ msg.sec
  nsec_nonneg : 0 ≤ msg.nsec
  nsec_lt : msg.nsec < 1000000000
  ms_lt : msg.ns / 1000000 < 2 ^ 32

variable {msg : Imu}

/-- The time fits into 64 bits, and its milliseconds into 32. -/
theorem Imu.Stamped.ns_bounds (h : msg.Stamped) :
    0 ≤ msg.ns ∧ msg.ns < 4294967296 * 1000000 := by
  obtain ⟨hsec, hnsec, -, hms⟩ := h
  have hnonneg : 0 ≤ msg.ns := by
    rw [Imu.ns]
    omega
  exact ⟨hnonneg, by omega⟩

/-- The 64 bits of the plugin hold the time. -/
theorem Imu.Stamped.tsNs_toNat (h : msg.Stamped) : (msg.tsNs.toNat : ℤ) = msg.ns := by
  have hns := h.ns_bounds
  have hts : msg.tsNs = UInt64.ofInt msg.ns := by
    rw [Imu.ns, UInt64.ofInt_add, UInt64.ofInt_mul]
    rfl
  rw [hts, UInt64.ofInt, UInt64.toNat_ofNat', Int.emod_eq_of_lt hns.1 (by omega)]
  omega

/-- The 32 bits of the register hold its milliseconds. -/
theorem Imu.Stamped.simTimeMs (h : msg.Stamped) :
    (msg.triple.simTimeMs.toNat : ℤ) = msg.ns / 1000000 := by
  have hns := h.ns_bounds
  rw [Imu.triple, simTimeToMs, h.tsNs_toNat, UInt32.ofInt, UInt32.toNat_ofNat',
    Int.emod_eq_of_lt (by omega) (by omega)]
  omega

/-- **Simulation times.**  While Gazebo's clock does not go back and its milliseconds fit into 32
    bits, the simulation times of the trace are the milliseconds of messages, and do not go
    back. -/
theorem simulation_times (h : world.run as = some w) (hstamped : ∀ msg ∈ imus as, msg.Stamped)
    (hclock : (imus as).Pairwise fun msg msg' => msg.ns ≤ msg'.ns) :
    (∀ triple ∈ w.sensor.forwarded, ∃ msg ∈ imus as,
      triple = msg.triple ∧ (triple.simTimeMs.toNat : ℤ) = msg.ns / 1000000) ∧
      w.sensor.forwarded.Pairwise fun t t' => t.simTimeMs ≤ t'.simTimeMs := by
  have hsub := World.forwarded_sublist h
  constructor
  · intro triple htriple
    obtain ⟨msg, hmsg, rfl⟩ := List.mem_map.mp (hsub.subset htriple)
    exact ⟨msg, hmsg, rfl, (hstamped msg hmsg).simTimeMs⟩
  · refine List.Pairwise.sublist hsub (List.pairwise_map.mpr ?_)
    refine hclock.imp_of_mem fun {msg msg'} hmsg hmsg' hle => ?_
    have htime := (hstamped msg hmsg).simTimeMs
    have htime' := (hstamped msg' hmsg').simTimeMs
    rw [UInt32.le_iff_toNat_le]
    have hdiv : msg.ns / 1000000 ≤ msg'.ns / 1000000 := Int.ediv_le_ediv (by decide) hle
    omega

/-- The two messages that the run of the contact forwards. -/
theorem simulation_times_bumpRun :
    ∃ w, world.run bumpRun = some w ∧
      w.sensor.forwarded.Pairwise fun t t' => t.simTimeMs ≤ t'.simTimeMs := by
  have hbounds : ∀ msg ∈ imus bumpRun, 0 ≤ msg.sec ∧ 0 ≤ msg.nsec ∧ msg.nsec < 1000000000 ∧
      msg.ns / 1000000 < 2 ^ 32 := by decide
  have hstamped : ∀ msg ∈ imus bumpRun, msg.Stamped := by
    intro msg hmsg
    obtain ⟨hsec, hnsec, hnsec', hms⟩ := hbounds msg hmsg
    exact ⟨hsec, hnsec, hnsec', hms⟩
  obtain ⟨w, hw⟩ : ∃ w, world.run bumpRun = some w := ⟨_, rfl⟩
  exact ⟨w, hw, (simulation_times hw hstamped (by decide)).2⟩

end Wallbot
