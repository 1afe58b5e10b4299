import Wallbot.Conservation
import Wallbot.Lib.Backlog

namespace Wallbot

open Freertos Wss

/-!
# Bursts and waiting at the queues of the demo

Two bounded queues stand between Gazebo and the network: `g_msg_q` of the peripheral, from which
the driver takes at most one message a poll, and `g_comms_queue` of the firmware, on which
`comms_task` waits.  Both refuse what comes while they are full.

* `Demo.peripheralQueue`, `Demo.commsQueue` — the two queues, as queues of the demo.
* `bursts` — which orders of arrivals, polls, posts and passes lose nothing there.
* `staleness` — how long what was accepted may wait.
-/

/-! ### The queue of the peripheral -/

section

variable {ι : Type} {p p' : Peripheral ι}

/-- The queue after a measurement request. -/
def Wss.Peripheral.popped (p : Peripheral ι) : Fifo (Message ι) 32 :=
  match p.gMsgQ.take? with
  | some (_, q) => q
  | none => p.gMsgQ

/-- A request takes the oldest message, whether its assignments raise or not. -/
theorem Wss.Peripheral.handleRequest_gMsgQ (p : Peripheral ι) (value : UInt32) :
    Halting.Ends
      (fun p' => p'.gMsgQ = if value &&& ctrlRequestMeasurement ≠ 0 then p.popped else p.gMsgQ)
      (fun p' => p'.gMsgQ = if value &&& ctrlRequestMeasurement ≠ 0 then p.popped else p.gMsgQ)
      (p.handleRequest value) := by
  unfold handleRequest popped
  by_cases hrequest : value &&& ctrlRequestMeasurement ≠ 0
  · simp only [if_pos hrequest]
    cases p.gMsgQ.take? with
    | none => rfl
    | some r => exact assign_gMsgQ { p with gMsgQ := r.2 } r.1
  · simp only [if_neg hrequest]
    rfl

/-- Of the writes to `CTRL`, those with the request bit take a message. -/
theorem Wss.Peripheral.write_gMsgQ (p : Peripheral ι) (value : UInt32) :
    (p.write Register.ctrl.offset value).gMsgQ =
      if value &&& ctrlRequestMeasurement ≠ 0 then p.popped else p.gMsgQ := by
  have hinit : (p.handleInit value).gMsgQ = p.gMsgQ := by
    unfold handleInit
    split <;> rfl
  have hrequest := handleRequest_gMsgQ (p.handleInit value) value
  rw [hinit, popped, hinit, ← popped] at hrequest
  unfold write
  rw [if_pos (show Register.ctrl.offset = 0 from rfl)]
  cases hreq : (p.handleInit value).handleRequest value with
  | ok p' =>
    rw [hreq] at hrequest
    show (p'.handleUsingSimulator value).gMsgQ = _
    unfold handleUsingSimulator
    split <;> exact hrequest
  | error p' =>
    rw [hreq] at hrequest
    exact hrequest

/-- The next access of the driver requests a measurement. -/
def Wss.State.requests (s : State ι) : Bool :=
  match s.pc with
  | .writeCtrl _ => true
  | _ => false

/-- Only a request takes a message. -/
theorem Wss.State.Inv.access_gMsgQ {s : State ι} (h : s.Inv) :
    s.access.peripheral.gMsgQ =
      if s.requests then s.peripheral.popped else s.peripheral.gMsgQ := by
  have hread (offset : ℕ) : (s.peripheral.read offset 0).1.gMsgQ = s.peripheral.gMsgQ :=
    Peripheral.read_gMsgQ _ _ _
  have hpc := h.atPc
  obtain ⟨p, pc, found, polls⟩ := s
  cases pc with
  | initReadCtrl => exact hread Register.ctrl.offset
  | initWriteCtrl ctrl =>
    -- CTRL read as 0, so the request bit is not among those that are written.
    obtain ⟨rfl, -⟩ := hpc
    exact Peripheral.write_gMsgQ _ _
  | readCtrl => exact hread Register.ctrl.offset
  | writeCtrl ctrl =>
    obtain ⟨rfl, -⟩ := hpc
    exact Peripheral.write_gMsgQ _ _
  | readStatus =>
    unfold State.access
    dsimp only
    split <;> exact hread _
  | readSimTime status => exact hread Register.simTime.offset
  | readSeqnum status simTimeMs => exact hread Register.seqnum.offset
  | readWheelSpeed status simTimeMs seqnum => exact hread Register.wheelSpeed.offset

end

namespace Demo

variable {rand : ℕ → UInt8} {s s' : Demo} {a : DemoAction} {as bs : List DemoAction}

/-- What a step does to `g_msg_q`. -/
def peripheralStep (s : Demo) : DemoAction → Machine.QueueStep
  | .world .recv => .arrival
  | .world .access => if s.sensing.sensor.requests then .service else .other
  | _ => .other

/-- The server thread's put is an arrival. -/
theorem moves_putNowait (p : Peripheral ℕ) (msg : Message ℕ) :
    Machine.QueueStep.arrival.Moves p.gMsgQ (p.putNowait msg).gMsgQ := by
  rw [Peripheral.putNowait]
  cases hput : p.gMsgQ.put? msg with
  | none => exact .inr ⟨Fifo.put?_eq_none_iff.mp hput, rfl⟩
  | some q => exact .inl ⟨msg, hput⟩

/-- A measurement request is a service. -/
theorem moves_popped (p : Peripheral ℕ) : Machine.QueueStep.service.Moves p.gMsgQ p.popped := by
  rw [Peripheral.popped]
  cases htake : p.gMsgQ.take? with
  | none => exact .inr ⟨Fifo.take?_eq_none_iff.mp htake, rfl⟩
  | some r => exact .inl ⟨r.1, htake⟩

/-- The queue of the peripheral: messages arrive, and requests take them. -/
def peripheralQueue (rand : ℕ → UInt8) : (demo rand).QueueIn (Message ℕ) 32 where
  queue s := s.sensing.sensor.peripheral.gMsgQ
  kind := peripheralStep
  queue_init := rfl
  queue_step := by
    intro as s a s' has hs
    rcases step_cases hs with ⟨b, w, rfl, hw, rfl⟩ | ⟨v, rest, rfl, -, rfl⟩ | ⟨flag, rfl, rfl⟩ |
      ⟨b, sys, hworld, -, -, -, rfl⟩ | ⟨rfl, -, rfl⟩
    · cases b with
      | contact =>
        obtain rfl := Option.some.inj hw
        rfl
      | imu connectOk writeOk msg =>
        rw [World.step_imu] at hw
        obtain rfl := Option.some.inj hw
        rfl
      | recv =>
        obtain ⟨-, m, wire, -, rfl⟩ := World.step_recv hw
        exact moves_putNowait _ m
      | recvOther =>
        obtain ⟨-, rfl⟩ := World.step_recvOther hw
        rfl
      | access =>
        obtain rfl := Option.some.inj hw
        have hqueue := (World.inv_run (world_run has)).sensor.access_gMsgQ
        simp only [peripheralStep]
        rw [hqueue]
        split
        · exact moves_popped _
        · rfl
    · rfl
    · rfl
    · cases a with
      | world b => cases hworld
      | _ => rfl
    · rfl

/-! ### The queue of the firmware -/

/-- What a step does to `g_comms_queue`. -/
def commsStep : DemoAction → Machine.QueueStep
  | .sensorPost => .arrival
  | .voltage _ => .arrival
  | .commsPass _ => .service
  | _ => .other

/-- A post is an arrival at the queue of `comms_task`. -/
theorem moves_post (f : Firmware) (p : Post) :
    Machine.QueueStep.arrival.Moves f.queue (f.post p).queue := by
  rw [Firmware.post_eq, xQueueSend]
  cases hput : f.queue.put? p.msg with
  | none => exact .inr ⟨Fifo.put?_eq_none_iff.mp hput, rfl⟩
  | some q => exact .inl ⟨p.msg, hput⟩

/-- A pass of `comms_task` is only made when there is a message. -/
theorem take_of_commsPass {f f' : Firmware} {tx? : Option Tx}
    (h : f.commsPass = some (f', tx?)) : ∃ msg, f.queue.take? = some (msg, f'.queue) := by
  obtain ⟨⟨msg, q⟩, htake, hrest⟩ := Option.bind_eq_some_iff.mp h
  obtain ⟨⟨t, tx'⟩, -, heq⟩ := Option.map_eq_some_iff.mp hrest
  cases heq
  exact ⟨msg, htake⟩

/-- What a step of the system does to the queue, by the step of the demo. -/
theorem moves_system {b : SystemAction} {sys : System} (hb : s.systemAction a = [b])
    (hpost : ∀ p, b ≠ .post p) (hworld : worldAction a = []) (hsys : s.control.step b = some sys) :
    (commsStep a).Moves s.control.firmware.queue sys.firmware.queue := by
  have hsame (hother : ∀ sendOk, b ≠ .commsPass sendOk) :
      sys.firmware.queue = s.control.firmware.queue := by
    rcases System.step_firmware hsys with ⟨p, rfl, -⟩ | ⟨sendOk, tx?, rfl, -⟩ | ⟨-, -, h⟩
    · exact absurd rfl (hpost p)
    · exact absurd rfl (hother sendOk)
    · rw [h]
  cases a with
  | world b => cases hworld
  | sensorPost =>
    rw [systemAction, List.map_eq_singleton_iff] at hb
    obtain ⟨v, -, rfl⟩ := hb
    exact absurd rfl (hpost _)
  | voltage flag =>
    cases hb
    exact absurd rfl (hpost _)
  | commsPass sendOk =>
    cases hb
    obtain ⟨⟨f, tx?⟩, hpass, rfl⟩ := Option.map_eq_some_iff.mp hsys
    exact .inl (take_of_commsPass hpass)
  | lose i =>
    cases hb
    exact hsame (by simp)
  | linuxIdle =>
    cases hb
    exact hsame (by simp)
  | linuxInterrupted =>
    cases hb
    exact hsame (by simp)
  | linuxRecv i =>
    cases hb
    exact hsame (by simp)
  | stop => cases hb

/-- The queue of the firmware: both tasks post, and the passes of `comms_task` take. -/
def commsQueue (rand : ℕ → UInt8) : (demo rand).QueueIn CommsMsg commsQueueLength where
  queue s := s.control.firmware.queue
  kind _ := commsStep
  queue_init := rfl
  queue_step := by
    intro as s a s' has hs
    rcases step_cases hs with ⟨b, w, rfl, -, rfl⟩ | ⟨v, rest, rfl, -, rfl⟩ | ⟨flag, rfl, rfl⟩ |
      ⟨b, sys, hworld, hb, hpost, hsys, rfl⟩ | ⟨rfl, -, rfl⟩
    · rfl
    · exact moves_post _ _
    · exact moves_post _ _
    · exact moves_system hb hpost hworld hsys
    · rfl

/-! ### What the two queues count -/

/-- A message arrives at the peripheral. -/
def isArrival : DemoAction → Bool
  | .world .recv => true
  | _ => false

/-- A task calls `comms_send_sensor_data` or `comms_send_voltage_data`. -/
def isPost : DemoAction → Bool
  | .sensorPost => true
  | .voltage _ => true
  | _ => false

/-- The pass of `comms_task`, which takes the oldest post. -/
def isPass : DemoAction → Bool
  | .commsPass _ => true
  | _ => false

/-- The measurement requests of a run. -/
def requests (rand : ℕ → UInt8) (as : List DemoAction) : ℕ := (peripheralQueue rand).services as

/-- The posts of a run that found `g_comms_queue` full. -/
def refusedPosts (rand : ℕ → UInt8) (as : List DemoAction) : ℕ := (commsQueue rand).refused as

/-- What arrives at `g_msg_q` does so when the server thread hands over a message. -/
theorem peripheralStep_eq_arrival_iff (s : Demo) (a : DemoAction) :
    peripheralStep s a = .arrival ↔ isArrival a = true := by
  cases a with
  | world b =>
    cases b with
    | access =>
      simp only [peripheralStep]
      split <;> simp [isArrival]
    | _ => simp [peripheralStep, isArrival]
  | _ => simp [peripheralStep, isArrival]

/-- Arrivals at `g_msg_q` can be counted by the actions alone. -/
theorem arrivals_peripheralQueue (h : (demo rand).run as = some s) :
    (peripheralQueue rand).arrivals as = as.countP isArrival := by
  rw [← Machine.tally_eq_countP h]
  exact Machine.tally_congr (fun _ s a _ => if_congr (peripheralStep_eq_arrival_iff s a) rfl rfl) h

/-- Arrivals at the queue of `comms_task` are the posts. -/
theorem arrivals_commsQueue (h : (demo rand).run as = some s) :
    (commsQueue rand).arrivals as = as.countP isPost := by
  rw [← Machine.tally_eq_countP h]
  refine Machine.tally_congr (fun _ _ a _ => if_congr ?_ rfl rfl) h
  show commsStep a = .arrival ↔ isPost a = true
  cases a <;> simp [commsStep, isPost]

/-- Its services are the passes. -/
theorem services_commsQueue (h : (demo rand).run as = some s) :
    (commsQueue rand).services as = as.countP isPass := by
  rw [← Machine.tally_eq_countP h]
  refine Machine.tally_congr (fun _ _ a _ => if_congr ?_ rfl rfl) h
  show commsStep a = .service ↔ isPass a = true
  cases a <;> simp [commsStep, isPass]

/-- What is lost at the peripheral is what its queue refuses. -/
theorem lost_peripheralQueue (h : (demo rand).run as = some s) :
    lost rand .peripheralQueue as = (peripheralQueue rand).refused as := by
  refine Machine.tally_congr (fun _ s a _ => ?_) h
  have hle : (peripheralQueue rand).length s ≤ 32 := Machine.QueueIn.length_le s
  have hkind := peripheralStep_eq_arrival_iff s a
  cases a with
  | world b =>
    cases b with
    | recv =>
      show (if (peripheralQueue rand).length s < 32 then 0 else 1) = if _ then 1 else 0
      by_cases hfull : (peripheralQueue rand).length s = 32
      · rw [if_neg (by omega), if_pos ⟨rfl, hfull⟩]
      · rw [if_pos (by omega), if_neg (fun hboth => hfull hboth.2)]
    | _ => exact (if_neg (by simp [peripheralQueue, hkind, isArrival])).symm
  | _ => exact (if_neg (by simp [peripheralQueue, hkind, isArrival])).symm

/-- `comms_task` waits for a message. -/
theorem length_pos_of_service (hs : (demo rand).step s a = some s')
    (hkind : commsStep a = .service) : 0 < (commsQueue rand).length s := by
  cases a with
  | commsPass sendOk =>
    obtain ⟨sys, hsys, -⟩ := Option.map_eq_some_iff.mp hs
    obtain ⟨⟨f, tx?⟩, hpass, -⟩ := Option.map_eq_some_iff.mp hsys
    have htaken := (Firmware.commsPass_cases hpass).1
    show 0 < s.control.firmware.queue.items.length
    omega
  | _ => cases hkind

end Demo

variable {rand : ℕ → UInt8} {s s' : Demo} {as bs : List DemoAction}

open Demo

/-- Between any two moments at most 32 more messages arrive than measurements are requested. -/
def DriverKeepsUp (rand : ℕ → UInt8) (as : List DemoAction) : Prop :=
  ∀ p q, p <+: q → q <+: as →
    q.countP isArrival + requests rand p ≤ p.countP isArrival + requests rand q + 32

/-- At no moment are there more than eight posts ahead of the passes of `comms_task`. -/
def CommsKeepsUp (as : List DemoAction) : Prop :=
  ∀ q, q <+: as → q.countP isPost ≤ q.countP isPass + commsQueueLength

/-- **Bursts**: when the queues lose nothing. -/
theorem bursts (h : (demo rand).run as = some s) :
    (lost rand .peripheralQueue as = 0 ↔ DriverKeepsUp rand as) ∧
      (refusedPosts rand as = 0 ↔ CommsKeepsUp as) := by
  constructor
  · rw [lost_peripheralQueue h, Machine.QueueIn.refused_eq_zero_iff h]
    refine forall₂_congr fun p q => forall₂_congr fun hp hq => ?_
    obtain ⟨t, ht⟩ := Machine.run_of_beginning h hq
    obtain ⟨u, hu⟩ := Machine.run_of_beginning h (hp.trans hq)
    rw [arrivals_peripheralQueue ht, arrivals_peripheralQueue hu]
    rfl
  · rw [refusedPosts, Machine.QueueIn.refused_eq_zero_iff_of_blocking
      (fun _ _ _ _ _ hs hkind => length_pos_of_service hs hkind) h]
    refine forall₂_congr fun q hq => ?_
    obtain ⟨t, ht⟩ := Machine.run_of_beginning h hq
    rw [arrivals_commsQueue ht, services_commsQueue ht]

/-- Nine voltages are posted before the first pass, and two readings afterwards. -/
def nineVoltages : List DemoAction :=
  List.replicate 9 (.voltage 0) ++ List.replicate 8 (.commsPass true) ++ twoCommands

/-- The ninth voltage comes too soon, but no message does. -/
theorem bursts_nineVoltages :
    DriverKeepsUp (fun _ => 255) nineVoltages ∧ ¬ CommsKeepsUp nineVoltages := by
  have hrest : ((demo fun _ => 255).run nineVoltages).map underWay = some 0 := by decide +kernel
  obtain ⟨s, hs, -⟩ := Option.map_eq_some_iff.mp hrest
  obtain ⟨hdriver, hcomms⟩ := bursts hs
  refine ⟨hdriver.mp (by decide +kernel), fun hkeeps => ?_⟩
  exact absurd (hcomms.mpr hkeeps) (by decide +kernel)

/-- **Staleness.**  A message that the peripheral has accepted is taken by the driver after as many
    requests as there were messages in the queue, and what the firmware has queued is taken after
    as many passes of `comms_task`. -/
theorem staleness (h : (demo rand).run as = some s) (h' : (demo rand).run (as ++ bs) = some s') :
    (requests rand as + s.sensing.sensor.peripheral.gMsgQ.items.length ≤
        requests rand (as ++ bs) →
      s.sensing.sensor.peripheral.gMsgQ.accepted <+: s'.sensing.sensor.peripheral.gMsgQ.taken) ∧
    (s.control.firmware.queue.items.length ≤ bs.countP isPass →
      s.control.firmware.queue.accepted <+: s'.control.firmware.queue.taken) := by
  constructor
  · exact Machine.QueueIn.taken_of_services (Q := peripheralQueue rand) h h'
  · intro hpasses
    refine Machine.QueueIn.taken_of_services (Q := commsQueue rand) h h' ?_
    rw [services_commsQueue h, services_commsQueue h', List.countP_append]
    exact Nat.add_le_add_left hpasses _

/-- Two voltages are queued by the firmware, and two messages by the peripheral. -/
def twoWaiting : List DemoAction :=
  [.world .access, .world .access, .world (.imu true true ⟨1, 0, 1, 2⟩),
    .world (.imu true true ⟨1, 500, 2, 3⟩), .world .recv, .world .recv, .voltage 0, .voltage 0]

/-- Two polls and two passes take them, while another message arrives. -/
def twoTaken : List DemoAction :=
  List.replicate 6 (.world .access) ++ [.world (.imu true true ⟨2, 0, 3, 3⟩), .world .recv,
    .commsPass true, .sensorPost, .commsPass true] ++ List.replicate 6 (.world .access)

/-- Two messages wait in each queue, and two requests and two passes take them all. -/
theorem staleness_twoTaken :
    ∃ s s', (demo fun _ => 255).run twoWaiting = some s ∧
      (demo fun _ => 255).run (twoWaiting ++ twoTaken) = some s' ∧
      s.sensing.sensor.peripheral.gMsgQ.items.length = 2 ∧
      s.control.firmware.queue.items.length = 2 ∧
      s.sensing.sensor.peripheral.gMsgQ.accepted <+: s'.sensing.sensor.peripheral.gMsgQ.taken ∧
      s.control.firmware.queue.accepted <+: s'.control.firmware.queue.taken := by
  have hwaiting : ((demo fun _ => 255).run twoWaiting).map
      (fun s => (s.sensing.sensor.peripheral.gMsgQ.items.length,
        s.control.firmware.queue.items.length)) = some (2, 2) := by decide +kernel
  have htaken : ((demo fun _ => 255).run (twoWaiting ++ twoTaken)).isSome := by decide +kernel
  obtain ⟨s, hs, hpair⟩ := Option.map_eq_some_iff.mp hwaiting
  obtain ⟨s', hs'⟩ := Option.isSome_iff_exists.mp htaken
  obtain ⟨hmessages, hvoltages⟩ := Prod.mk.inj hpair
  obtain ⟨hperipheral, hcomms⟩ := staleness hs hs'
  refine ⟨s, s', hs, hs', hmessages, hvoltages, hperipheral ?_, hcomms ?_⟩
  · rw [hmessages]
    decide +kernel
  · rw [hvoltages]
    decide +kernel

end Wallbot
