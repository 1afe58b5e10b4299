import Wallbot.FaultBudget
import Wallbot.Lib.Tally

namespace Wallbot

open Freertos

/-!
# Conservation — no measurement vanishes

A message of Gazebo's IMU can be lost at six places on its way to the actuator: in the callback of
the plugin, on a connection that nobody reads any more, at the queue of the peripheral, at the queue
of the firmware, in `sendto`, and in the network.  Everything else is under way, acted on, or
rejected for its header.

* `Loss`, `Demo.losses` — the places, and what a step loses there.
* `Demo.underWay` — the measurements between the plugin and the control loop.
* `conservation` — the balance of every run.
* `exactly_once` — without losses and injected faults, all of them are acted on once.
-/

/-- Where a measurement can be lost. -/
inductive Loss where
  /-- The callback is not connected, or cannot write. -/
  | callback
  /-- The server thread has ended, and leaves it on the connection. -/
  | connection
  /-- `put_nowait` finds the queue of the peripheral full. -/
  | peripheralQueue
  /-- `xQueueSend` finds `g_comms_queue` full. -/
  | commsQueue
  /-- `sendto` fails. -/
  | send
  | network
  deriving DecidableEq, Repr

/-- All the places. -/
def Loss.all : List Loss :=
  [.callback, .connection, .peripheralQueue, .commsQueue, .send, .network]

namespace Demo

/-- How many measurements the step `a` loses at a place. -/
def losses (l : Loss) (s : Demo) (a : DemoAction) : ℕ :=
  match l, a with
  | .callback, .world (.imu connectOk writeOk _) =>
    if (s.sensing.relay.connected || connectOk) && writeOk then 0 else 1
  | .connection, .world (.imu connectOk writeOk _) =>
    if (s.sensing.relay.connected || connectOk) && writeOk && !s.sensing.receiving then 1 else 0
  | .connection, .world .recvOther => s.sensing.wire.length
  | .peripheralQueue, .world .recv =>
    if s.sensing.sensor.peripheral.gMsgQ.items.length < 32 then 0 else 1
  | .commsQueue, .sensorPost =>
    if s.control.firmware.queue.items.length < commsQueueLength then 0 else 1
  | .send, .commsPass false =>
    match s.control.firmware.commsPass with
    | some (_, tx?) => tx?.toList.length
    | none => 0
  | .network, .lose i => if i < s.control.net.length then 1 else 0
  | _, _ => 0

/-- What the run `as` loses at a place. -/
def lost (rand : ℕ → UInt8) (l : Loss) (as : List DemoAction) : ℕ :=
  (demo rand).tally (losses l) as

/-- The measurements between the plugin and the control loop: on the TCP connection while it is
    read, in the peripheral or the poll of the driver, with the driver, in the firmware's queue, and
    in the network. -/
def underWay (s : Demo) : ℕ :=
  (s.sensing.readings.length - s.sensing.sensor.forwarded.length) + s.pending.length +
    (wheelSpeeds s.control.firmware.queue.items).length + s.control.net.length

/-- Those, and the ones that arrived. -/
def stock (s : Demo) : ℕ := s.underWay + s.control.arrived.length

variable {rand : ℕ → UInt8} {s s' : Demo} {a : DemoAction} {as : List DemoAction}

/-! ### The balance of a step -/

/-- A post adds its speed to the queue, if it has one. -/
theorem wheelSpeeds_concat_msg (msgs : List CommsMsg) (p : Post) :
    (wheelSpeeds (msgs ++ [p.msg])).length =
      (wheelSpeeds msgs).length + p.speed?.toList.length := by
  have hone : wheelSpeeds [p.msg] = p.speed?.toList := by cases p <;> rfl
  rw [wheelSpeeds, List.filterMap_append, List.length_append, ← wheelSpeeds, ← wheelSpeeds, hone]

/-- A pass of `comms_task` attempts a send for each wheel speed that it takes. -/
theorem wheelSpeeds_commsPass {f f' : Firmware} {sent queued : List Post} {tx? : Option Tx}
    (hist : f.History sent queued) (hpass : f.commsPass = some (f', tx?)) :
    (wheelSpeeds f'.queue.items).length + tx?.toList.length =
      (wheelSpeeds f.queue.items).length := by
  obtain ⟨p, rest, rfl, hist', hatt, -⟩ := hist.commsPass hpass
  have hlen := hist.sends.length
  have hlen' := hist'.sends.length
  have hrest : speeds (p :: rest) = speeds [p] ++ speeds rest := by
    rw [← List.singleton_append, speeds, List.filterMap_append]
    rfl
  rw [hatt, List.length_append, speeds, List.filterMap_append, List.length_append, ← speeds,
    ← speeds] at hlen'
  rw [hist.wheelSpeeds_items, hist'.wheelSpeeds_items, hrest, List.length_append]
  omega

/-- The first three places are those of the relay. -/
theorem losses_world (b : WorldAction) :
    (Loss.all.map fun l => losses l s (.world b)).sum = s.sensing.losses b := by
  cases b with
  | contact => rfl
  | access => rfl
  | imu connectOk writeOk msg =>
    simp only [Loss.all, losses, World.losses, List.map_cons, List.map_nil, List.sum_cons,
      List.sum_nil]
    cases s.sensing.relay.connected <;> cases connectOk <;> cases writeOk <;>
      cases s.sensing.receiving <;> rfl
  | recv => simp [Loss.all, losses, World.losses]
  | recvOther => simp [Loss.all, losses, World.losses]

/-- What the driver has forwarded is among the readings. -/
theorem forwarded_le (h : (demo rand).run as = some s) :
    s.sensing.sensor.forwarded.length ≤ s.sensing.readings.length := by
  have hprefix := (World.inv_run (world_run h)).sensor.forwarded_prefix
  rw [World.readings_eq, List.length_append]
  exact hprefix.length_le.trans (Nat.le_add_right _ _)

/-- The balance of a step of the relay. -/
theorem stock_world {b : WorldAction} {w : World} (has : (demo rand).run as = some s)
    (hw : s.sensing.step b = some w) (hle : w.sensor.forwarded.length ≤ w.readings.length) :
    stock { s with sensing := w, pending := s.pending ++ newSpeeds s.sensing w } +
        s.sensing.losses b =
      s.stock + (imus [b]).length := by
  have hle₀ := forwarded_le has
  have himage : ∀ m ∈ s.sensing.messages, m.image.isSome := fun m hm =>
    ((World.inv_run (world_run has)).written m hm).image
  -- What is forwarded now waits for its post.
  have hnew : w.sensor.forwarded.length =
      s.sensing.sensor.forwarded.length + (newSpeeds s.sensing w).length := by
    obtain ⟨new, hnew⟩ := World.forwarded_step hw
    rw [newSpeeds, ← hnew, List.drop_left, List.length_append, List.length_map]
  have hreadings := (World.readings_step himage hw).2
  simp only [stock, underWay, List.length_append]
  omega

/-- A speed that is posted moves from the Sensor task to the queue, or is lost there. -/
theorem stock_sensorPost {v : Int32} {rest : List Int32} (hpending : s.pending = v :: rest) :
    stock
        { s with
          pending := rest
          control := { s.control with firmware := s.control.firmware.post (.sensor v) } } +
        (if s.control.firmware.queue.items.length < commsQueueLength then 0 else 1) =
      s.stock := by
  simp only [stock, underWay, hpending, List.length_cons]
  rcases Firmware.post_cases s.control.firmware (.sensor v) with ⟨hroom, hitems, -⟩ | ⟨hfull, hsame⟩
  · have hspeeds := wheelSpeeds_concat_msg s.control.firmware.queue.items (.sensor v)
    have hone : (Post.sensor v).speed?.toList.length = 1 := rfl
    rw [if_pos (show s.control.firmware.queue.items.length < commsQueueLength from hroom), hitems]
    omega
  · rw [if_neg (by rw [hfull]; exact lt_irrefl _), hsame]
    omega

/-- A voltage takes the place of no reading. -/
theorem stock_voltage (walk : VoltageWalk) (mv : Int32) (spike : UInt8) :
    stock
        { s with
          walk := walk
          control := { s.control with firmware := s.control.firmware.post (.voltage mv spike) } } =
      s.stock := by
  simp only [stock, underWay]
  rcases Firmware.post_cases s.control.firmware (.voltage mv spike) with
    ⟨-, hitems, -⟩ | ⟨-, hsame⟩
  · have hspeeds := wheelSpeeds_concat_msg s.control.firmware.queue.items (.voltage mv spike)
    have hzero : (Post.voltage mv spike).speed?.toList.length = 0 := rfl
    rw [hitems]
    omega
  · rw [hsame]

/-- A pass moves a speed from the queue to the network, or loses it with its send. -/
theorem stock_commsPass {sendOk : Bool} {sys : System} (hinv : s.control.Inv)
    (hsys : s.control.step (.commsPass sendOk) = some sys) :
    stock { s with control := sys } + losses .send s (.commsPass sendOk) = s.stock := by
  obtain ⟨sent, queued, hist⟩ := hinv.history
  obtain ⟨⟨f, tx?⟩, hpass, rfl⟩ := Option.map_eq_some_iff.mp hsys
  have hspeeds := wheelSpeeds_commsPass hist hpass
  cases sendOk with
  | true =>
    simp only [stock, underWay, losses, if_true, List.length_append, List.length_map]
    omega
  | false =>
    simp only [stock, underWay, losses, hpass, Bool.false_eq_true, if_false]
    omega

/-- The network loses what it carries. -/
theorem stock_lose (i : ℕ) :
    stock { s with control := { s.control with net := s.control.net.eraseIdx i } } +
        losses .network s (.lose i) = s.stock := by
  simp only [stock, underWay, losses, List.length_eraseIdx]
  split <;> omega

/-- A datagram that the loop takes has arrived, and is under way no more. -/
theorem stock_linuxRecv {i : ℕ} {sys : System} (hsys : s.control.step (.linuxRecv i) = some sys) :
    stock { s with control := sys } = s.stock := by
  obtain ⟨pkt, hi, hrecv⟩ := Option.bind_eq_some_iff.mp hsys
  obtain ⟨l, -, rfl⟩ := Option.map_eq_some_iff.mp hrecv
  have hlt : i < s.control.net.length := (List.getElem?_eq_some_iff.mp hi).1
  simp only [stock, underWay, List.length_eraseIdx, if_pos hlt, List.length_append,
    List.length_singleton]
  omega

/-- **The balance of a step.** -/
theorem stock_step (has : (demo rand).run as = some s) (hs : s.step rand a = some s') :
    s'.stock + (Loss.all.map fun l => losses l s a).sum =
      s.stock + (imus (worldAction a)).length := by
  have hle := forwarded_le ((Machine.run_concat has a).trans hs)
  have hinv := System.inv_reachable (system_reachable has)
  cases a with
  | world b =>
    obtain ⟨c, w, hc, hw, rfl⟩ | ⟨v, rest, hc, -⟩ | ⟨flag, hc, -⟩ | ⟨c, sys, hc, -⟩ | ⟨hc, -⟩ :=
      step_cases hs
    · cases hc
      rw [losses_world]
      exact stock_world has hw hle
    all_goals cases hc
  | sensorPost =>
    simp only [step] at hs
    split at hs
    · cases hs
    · obtain rfl := Option.some.inj hs
      rename_i hpending
      have hstock := stock_sensorPost hpending
      simpa [Loss.all, losses, imus, worldAction] using hstock
  | voltage flag =>
    obtain rfl := Option.some.inj hs
    exact stock_voltage _ _ _
  | commsPass sendOk =>
    obtain ⟨sys, hsys, rfl⟩ := Option.map_eq_some_iff.mp hs
    have hstock := stock_commsPass hinv hsys
    simpa [Loss.all, losses, imus, worldAction] using hstock
  | lose i =>
    obtain rfl := Option.some.inj hs
    have hstock := stock_lose (s := s) i
    simpa [Loss.all, losses, imus, worldAction] using hstock
  | linuxIdle =>
    obtain ⟨sys, hsys, rfl⟩ := Option.map_eq_some_iff.mp (linuxStep_eq_some hs).2
    obtain ⟨l, -, rfl⟩ := Option.map_eq_some_iff.mp hsys
    rfl
  | linuxInterrupted =>
    obtain ⟨sys, hsys, rfl⟩ := Option.map_eq_some_iff.mp (linuxStep_eq_some hs).2
    obtain ⟨l, -, rfl⟩ := Option.map_eq_some_iff.mp hsys
    rfl
  | linuxRecv i =>
    obtain ⟨sys, hsys, rfl⟩ := Option.map_eq_some_iff.mp (linuxStep_eq_some hs).2
    exact stock_linuxRecv hsys
  | stop =>
    simp only [step, Option.ite_none_left_eq_some, Option.some.injEq] at hs
    obtain ⟨-, rfl⟩ := hs
    rfl

/-- The readings that a run publishes, counted action by action. -/
theorem published_length (as : List DemoAction) :
    (as.map fun a => (imus (worldAction a)).length).sum = (published as).length := by
  induction as with
  | nil => rfl
  | cons a as ih =>
    rw [List.map_cons, List.sum_cons, ih, published, published, List.flatMap_cons, imus, imus, imus,
      List.filterMap_append, List.length_append]

/-- **The balance of a run.** -/
theorem stock_run (h : (demo rand).run as = some s) :
    s.stock + (Loss.all.map fun l => lost rand l as).sum = (published as).length := by
  let outflow := fun s a => (Loss.all.map fun l => losses l s a).sum
  have hstep : ∀ as s a s', (demo rand).run as = some s → (demo rand).step s a = some s' →
      s'.stock + outflow s a = s.stock + (imus (worldAction a)).length :=
    fun _ _ _ _ has hs => stock_step has hs
  have hbalance := Machine.tally_balance rfl hstep h
  rw [Machine.tally_sum, Machine.tally_eq_sum h, published_length] at hbalance
  exact hbalance

end Demo

variable {rand : ℕ → UInt8} {s : Demo} {as : List DemoAction}

open Demo

/-- **Conservation**, in every run of the demo: a message that Gazebo publishes is under way, acted
    on, rejected for its header, or lost at one of the six places. -/
theorem conservation (h : (demo rand).run as = some s) :
    (published as).length =
      s.underWay + s.control.acted.length + s.control.rejected +
        (Loss.all.map fun l => lost rand l as).sum := by
  have hstock := stock_run h
  have hacted := System.acted_add_rejected (system_reachable h)
  rw [stock] at hstock
  omega

/-- A message finds the callback not connected, one is polled, and then two are joined by a
    `recv` and one more is written. -/
def joinedMessages : List DemoAction :=
  [.world (.imu false true ⟨1, 0, 0, 2⟩)] ++ oneReading ++
    [.world (.imu true true ⟨1, 500, 2, 3⟩), .world (.imu true true ⟨2, 0, 3, 3⟩),
      .world .recvOther, .world (.imu true true ⟨2, 500, 4, 3⟩)]

/-- Three messages are lost with their connection, and one is under way. -/
theorem conservation_joinedMessages :
    ∃ s, (demo fun _ => 255).run joinedMessages = some s ∧ s.underWay = 1 ∧
      lost (fun _ => 255) .connection joinedMessages = 3 ∧
      (published joinedMessages).length = s.underWay + s.control.acted.length +
        s.control.rejected +
          (Loss.all.map fun l => lost (fun _ => 255) l joinedMessages).sum := by
  have hone : ((demo fun _ => 255).run joinedMessages).map underWay = some 1 := by
    decide +kernel
  obtain ⟨s, hs, hone⟩ := Option.map_eq_some_iff.mp hone
  exact ⟨s, hs, hone, by decide +kernel, conservation hs⟩

/-- The messages of a run that loses none and has come to rest, with no fault injected. -/
structure ExactlyOnce (as : List DemoAction) (s : Demo) : Prop where
  /-- The speeds that the loop acts on are those of all messages. -/
  speeds : (s.control.acted.map fun pkt => (Linux.seenMsg pkt.payload).wheelSpeed).Perm
    ((published as).map fun msg => msg.triple.wheelSpeed)
  /-- One command for each of them, beside the one of the start-up and that of a stop. -/
  commands : (Linux.twists s.main.events).length =
    (published as).length + 1 + if s.stopped then 1 else 0
  duty : s.main.duty.toNat = min 1000 (10 * (published as).length)

/-- Every position of the messages is the number of one datagram that was acted on. -/
theorem numbers_perm (h : (demo rand).run as = some s)
    (hall : s.control.acted.length = (published as).length) :
    (s.control.acted.map Packet.number).Perm (List.range (published as).length) ∧
      ∀ pkt ∈ s.control.acted, ∃ msg, (published as)[pkt.number]? = some msg ∧
        (Linux.seenMsg pkt.payload).wheelSpeed = msg.triple.wheelSpeed := by
  obtain ⟨sources, hsources, -, hacted⟩ := sources_of_run h
  have hsubperm := List.subperm_of_subset (System.acted_nodup (system_reachable h))
    (System.numbers_subset hacted)
  have hle := hsubperm.length_le
  rw [List.length_map, List.length_range] at hle
  -- As many datagrams as messages, so all messages are sources.
  obtain rfl := hsources.eq_of_length_le (by omega)
  refine ⟨hsubperm.perm_of_length_le ?_, hacted⟩
  rw [List.length_map, List.length_range]
  exact hall.ge

/-- **Exactly once.**  Whatever the interleaving and the order of arrival, a run without losses and
    injected faults acts on every message once when nothing is under way any more. -/
theorem exactly_once (h : (demo rand).run as = some s) (hlost : ∀ l, lost rand l as = 0)
    (hfaults : ∀ a ∈ as, a.injects = false) (hrest : s.underWay = 0) : ExactlyOnce as s := by
  have hsystem := system_reachable h
  have hall : s.control.acted.length = (published as).length := by
    have hstock := stock_run h
    have hacted := System.acted_add_rejected hsystem
    have hrejected := rejected_le h
    have hnone : as.countP DemoAction.injects = 0 := by
      rw [List.countP_eq_zero]
      simpa using hfaults
    have hzero : (Loss.all.map fun l => lost rand l as).sum = 0 := by
      simp [Loss.all, hlost]
    rw [stock] at hstock
    omega
  obtain ⟨hperm, hacted⟩ := numbers_perm h hall
  refine ⟨?_, ?_, ?_⟩
  · -- Both lists are what stands at the numbers.
    have hget : s.control.acted.map (fun pkt => some (Linux.seenMsg pkt.payload).wheelSpeed) =
        (s.control.acted.map Packet.number).map fun k =>
          ((published as).map fun msg => msg.triple.wheelSpeed)[k]? := by
      rw [List.map_map]
      refine List.map_congr_left fun pkt hpkt => ?_
      obtain ⟨msg, hmsg, hspeed⟩ := hacted pkt hpkt
      simp [hmsg, hspeed]
    have hrange : (List.range (published as).length).map (fun k =>
        ((published as).map fun msg => msg.triple.wheelSpeed)[k]?) =
        ((published as).map fun msg => msg.triple.wheelSpeed).map some := by
      apply List.ext_getElem
      · simp
      · intro k hk _
        have hlt : k < (published as).length := by simpa using hk
        simp [List.getElem?_eq_getElem hlt]
    rw [← List.map_perm_map_iff (Option.some_injective _), List.map_map, ← hrange]
    exact (List.Perm.of_eq hget).trans (hperm.map _)
  · rw [twists_main, List.length_append, (System.inv_reachable hsystem).commands, hall, halt_length]
  · rw [main_duty, (System.ramp_reachable hsystem).duty, hall]

/-- Two readings, both acted on, and then a stop. -/
theorem exactly_once_twoCommands :
    ∃ s, (demo fun _ => 255).run twoCommands = some s ∧ (published twoCommands).length = 2 ∧
      ExactlyOnce twoCommands s := by
  have hrest : ((demo fun _ => 255).run twoCommands).map underWay = some 0 := by decide +kernel
  obtain ⟨s, hs, hrest⟩ := Option.map_eq_some_iff.mp hrest
  have hlost : ∀ l, lost (fun _ => 255) l twoCommands = 0 := by
    intro l
    cases l <;> decide +kernel
  have hfaults : ∀ a ∈ twoCommands, a.injects = false := by
    simp [twoCommands, twoReadings, DemoAction.injects]
  exact ⟨s, hs, rfl, exactly_once hs hlost hfaults hrest⟩

end Wallbot
