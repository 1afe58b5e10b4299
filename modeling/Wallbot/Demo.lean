import Wallbot.DutyRamp
import Wallbot.EndToEnd
import Wallbot.Lib.Component
import Wallbot.RelayOrder
import Wallbot.VoltageWalk

namespace Wallbot

open Freertos

/-!
# The demo — from Gazebo's IMU to the velocity commands

All components of the demo in one machine, in any interleaving: the plugin, its TCP connection and
the emulated peripheral (`world`), the loop of the voltage monitor (`voltageMonitorTask`), and the
firmware's queue with `comms_task`, the UDP network and the Linux control loop (`system`).  What
they hand to each other is the data of a step: a poll of the driver leaves the speed that
`wss_task` posts, and the walk of the voltage the message that `voltage_monitor_task` posts.
Speeds and velocities are rational numbers: the arithmetic of the doubles is taken to be exact.

* `demo` — the machine, and its components `worldPart` and `systemPart`.
* `Demo.main` — the control loop, or what a stop signal made of it.
* `Demo.Posted` — the speeds that were posted are those that the driver read.
* `pipeline` — every command goes back to an IMU message of its own.
-/

/-- A pass of `comms_task` takes the oldest message, and may attempt a send. -/
theorem Firmware.commsPass_cases {f f' : Firmware} {tx? : Option Tx}
    (h : f.commsPass = some (f', tx?)) :
    f.queue.items.length = f'.queue.items.length + 1 ∧ f'.queue.accepted = f.queue.accepted ∧
      f'.attempted = f.attempted ++ tx?.toList := by
  obtain ⟨⟨msg, q⟩, htake, hrest⟩ := Option.bind_eq_some_iff.mp h
  obtain ⟨⟨t, tx'⟩, -, heq⟩ := Option.map_eq_some_iff.mp hrest
  cases heq
  obtain ⟨hitems, haccepted, -⟩ := Fifo.take?_eq_some htake
  exact ⟨by rw [hitems, List.length_cons], haccepted, rfl⟩

/-- A post is queued if there is room, and refused otherwise. -/
theorem Firmware.post_cases (f : Firmware) (p : Post) :
    (f.queue.items.length < 8 ∧ (f.post p).queue.items = f.queue.items ++ [p.msg] ∧
      (f.post p).queue.accepted = f.queue.accepted ++ [p.msg]) ∨
    (f.queue.items.length = 8 ∧ f.post p = f) := by
  rw [post_eq, xQueueSend]
  cases hput : f.queue.put? p.msg with
  | none => exact .inr ⟨Fifo.put?_eq_none_iff.mp hput, rfl⟩
  | some q =>
    obtain ⟨hitems, haccepted, -⟩ := Fifo.put?_eq_some hput
    have hbound : q.items.length ≤ 8 := q.bound
    rw [hitems, List.length_append, List.length_singleton] at hbound
    exact .inl ⟨by omega, hitems, haccepted⟩

/-- **The firmware in a step of the system**: a post, a pass of `comms_task`, or nothing. -/
theorem System.step_firmware {s s' : System} {b : SystemAction} (hs : s.step b = some s') :
    (∃ p, b = .post p ∧ s'.firmware = s.firmware.post p) ∨
    (∃ sendOk tx?, b = .commsPass sendOk ∧ s.firmware.commsPass = some (s'.firmware, tx?)) ∨
    ((∀ p, b ≠ .post p) ∧ (∀ sendOk, b ≠ .commsPass sendOk) ∧ s'.firmware = s.firmware) := by
  cases b with
  | post p =>
    obtain rfl := Option.some.inj hs
    exact .inl ⟨p, rfl, rfl⟩
  | commsPass sendOk =>
    obtain ⟨⟨f, tx?⟩, hpass, rfl⟩ := Option.map_eq_some_iff.mp hs
    exact .inr (.inl ⟨sendOk, tx?, rfl, hpass⟩)
  | lose i =>
    obtain rfl := Option.some.inj hs
    exact .inr (.inr ⟨nofun, nofun, rfl⟩)
  | linuxIdle =>
    obtain ⟨l, -, rfl⟩ := Option.map_eq_some_iff.mp hs
    exact .inr (.inr ⟨nofun, nofun, rfl⟩)
  | linuxInterrupted =>
    obtain ⟨l, -, rfl⟩ := Option.map_eq_some_iff.mp hs
    exact .inr (.inr ⟨nofun, nofun, rfl⟩)
  | linuxRecv i =>
    obtain ⟨pkt, -, hrecv⟩ := Option.bind_eq_some_iff.mp hs
    obtain ⟨l, -, rfl⟩ := Option.map_eq_some_iff.mp hrecv
    exact .inr (.inr ⟨nofun, nofun, rfl⟩)

/-- The components, the speeds that `wss_task` has read but not posted, and whether a stop signal
    has ended the loop of `main`. -/
structure Demo where
  sensing : World
  pending : List Int32
  walk : VoltageWalk
  control : System
  stopped : Bool

/-- The actions of the demo.  Each is one step of one component, with what that step meets from
    outside: a message of Gazebo, the flag, how `sendto` ends, which datagram comes next. -/
inductive DemoAction where
  /-- A callback of the plugin, a turn of the server thread, or a register access. -/
  | world (a : WorldAction)
  /-- `wss_task` calls `comms_send_sensor_data`. -/
  | sensorPost
  /-- An iteration of `voltage_monitor_task`, with the value it reads from
      `g_do_voltage_spike`. -/
  | voltage (doVoltageSpike : UInt32)
  /-- A pass of `comms_task`, which sends what it has to send if `sendOk`. -/
  | commsPass (sendOk : Bool)
  /-- The network loses a datagram. -/
  | lose (i : ℕ)
  | linuxIdle
  | linuxInterrupted
  /-- The loop receives a datagram of the network, in any order. -/
  | linuxRecv (i : ℕ)
  /-- `main` finds `g_exit_signaled` set, and leaves its loop. -/
  | stop
  deriving Repr

namespace Demo

/-- The speeds that the driver has read between two states. -/
def newSpeeds (w w' : World) : List Int32 :=
  (w'.sensor.forwarded.drop w.sensor.forwarded.length).map Wss.Triple.wheelSpeed

/-- The post of an iteration of `voltage_monitor_task`. -/
def voltagePost (walk : VoltageWalk) : Post :=
  .voltage walk.monitor.posted.1 walk.monitor.posted.2

/-- The action of the firmware, the network or the control loop, if it is one. -/
def systemAction (s : Demo) : DemoAction → List SystemAction
  | .world _ => []
  | .sensorPost => s.pending.head?.toList.map fun v => .post (.sensor v)
  | .voltage _ => [.post (voltagePost s.walk)]
  | .commsPass sendOk => [.commsPass sendOk]
  | .lose i => [.lose i]
  | .linuxIdle => [.linuxIdle]
  | .linuxInterrupted => [.linuxInterrupted]
  | .linuxRecv i => [.linuxRecv i]
  | .stop => []

/-- A pass of the loop of `main`. -/
def linuxStep (s : Demo) (b : SystemAction) : Option Demo :=
  if s.stopped then none else (s.control.step b).map fun sys => { s with control := sys }

/-- A step of one of the components, with what it hands to the next one. -/
def step (rand : ℕ → UInt8) (s : Demo) (a : DemoAction) : Option Demo :=
  match a with
  | .world b =>
    -- `wss_task` posts what it has read before its next access.
    if b = .access ∧ s.pending ≠ [] then none
    else
      (s.sensing.step b).map fun w =>
        { s with sensing := w, pending := s.pending ++ newSpeeds s.sensing w }
  | .sensorPost =>
    match s.pending with
    | [] => none
    | v :: rest =>
      (s.control.step (.post (.sensor v))).map fun sys =>
        { s with pending := rest, control := sys }
  | .voltage flag =>
    (s.control.step (.post (voltagePost s.walk))).map fun sys =>
      { s with walk := s.walk.next rand flag, control := sys }
  | .commsPass sendOk =>
    (s.control.step (.commsPass sendOk)).map fun sys => { s with control := sys }
  | .lose i => (s.control.step (.lose i)).map fun sys => { s with control := sys }
  | .linuxIdle => s.linuxStep .linuxIdle
  | .linuxInterrupted => s.linuxStep .linuxInterrupted
  | .linuxRecv i => s.linuxStep (.linuxRecv i)
  | .stop => if s.stopped then none else some { s with stopped := true }

/-- `main`: in its loop, or behind it. -/
def main (s : Demo) : Linux.LoopState :=
  if s.stopped then Linux.loopPass s.control.linux .stop else s.control.linux

end Demo

/-- The interleavings of all components; `rand` is the sequence of bytes of `rand8`. -/
def demo (rand : ℕ → UInt8) : Machine Demo DemoAction where
  init :=
    { sensing := .boot
      pending := []
      walk := (voltageMonitorTask rand).init
      control := .boot
      stopped := false }
  step := Demo.step rand

namespace Demo

variable {rand : ℕ → UInt8} {s s' : Demo} {a : DemoAction} {as : List DemoAction}

/-! ### The components -/

/-- The loop of `main` makes no pass after a stop. -/
theorem linuxStep_eq_some {b : SystemAction} (hs : s.linuxStep b = some s') :
    s.stopped = false ∧ (s.control.step b).map (fun sys => { s with control := sys }) = some s' := by
  rw [linuxStep, Option.ite_none_left_eq_some] at hs
  exact ⟨by simpa using hs.1, hs.2⟩

/-- The action of the plugin, the peripheral or the driver, if it is one. -/
def worldAction : DemoAction → List WorldAction
  | .world a => [a]
  | _ => []

/-- **The steps**: one of the plugin's side, one of the two posts, one of the others, or the
    stop. -/
theorem step_cases (hs : s.step rand a = some s') :
    (∃ b w, a = .world b ∧ s.sensing.step b = some w ∧
      s' = { s with sensing := w, pending := s.pending ++ newSpeeds s.sensing w }) ∨
    (∃ v rest, a = .sensorPost ∧ s.pending = v :: rest ∧
      s' =
        { s with
          pending := rest
          control := { s.control with firmware := s.control.firmware.post (.sensor v) } }) ∨
    (∃ flag, a = .voltage flag ∧
      s' =
        { s with
          walk := s.walk.next rand flag
          control :=
            { s.control with firmware := s.control.firmware.post (voltagePost s.walk) } }) ∨
    (∃ b sys, worldAction a = [] ∧ s.systemAction a = [b] ∧ (∀ p, b ≠ .post p) ∧
      s.control.step b = some sys ∧ s' = { s with control := sys }) ∨
    (a = .stop ∧ s.stopped = false ∧ s' = { s with stopped := true }) := by
  have hother {b : SystemAction} (hworld : worldAction a = []) (hb : s.systemAction a = [b])
      (hpost : ∀ p, b ≠ .post p)
      (hstep : (s.control.step b).map (fun sys => { s with control := sys }) = some s') :
      ∃ b sys, worldAction a = [] ∧ s.systemAction a = [b] ∧ (∀ p, b ≠ .post p) ∧
        s.control.step b = some sys ∧ s' = { s with control := sys } := by
    obtain ⟨sys, hsys, rfl⟩ := Option.map_eq_some_iff.mp hstep
    exact ⟨b, sys, hworld, hb, hpost, hsys, rfl⟩
  cases a with
  | world b =>
    left
    simp only [step] at hs
    split at hs
    · cases hs
    · obtain ⟨w, hw, rfl⟩ := Option.map_eq_some_iff.mp hs
      exact ⟨b, w, rfl, hw, rfl⟩
  | sensorPost =>
    right
    left
    simp only [step] at hs
    split at hs
    · cases hs
    · exact ⟨_, _, rfl, ‹_›, (Option.some.inj hs).symm⟩
  | voltage flag => exact .inr (.inr (.inl ⟨flag, rfl, (Option.some.inj hs).symm⟩))
  | commsPass sendOk => exact .inr (.inr (.inr (.inl (hother rfl rfl nofun hs))))
  | lose i => exact .inr (.inr (.inr (.inl (hother rfl rfl nofun hs))))
  | linuxIdle => exact .inr (.inr (.inr (.inl (hother rfl rfl nofun (linuxStep_eq_some hs).2))))
  | linuxInterrupted =>
    exact .inr (.inr (.inr (.inl (hother rfl rfl nofun (linuxStep_eq_some hs).2))))
  | linuxRecv i => exact .inr (.inr (.inr (.inl (hother rfl rfl nofun (linuxStep_eq_some hs).2))))
  | stop =>
    simp only [step, Option.ite_none_left_eq_some, Option.some.injEq] at hs
    obtain ⟨hrunning, rfl⟩ := hs
    exact .inr (.inr (.inr (.inr ⟨rfl, by simpa using hrunning, rfl⟩)))

/-- The plugin, the connection, the peripheral and the driver. -/
def worldPart (rand : ℕ → UInt8) : Machine.Component (demo rand) world where
  part := Demo.sensing
  own _ := worldAction
  part_init := rfl
  part_step := by
    intro s a s' hs
    rcases step_cases hs with ⟨b, w, rfl, hw, rfl⟩ | ⟨v, rest, rfl, -, rfl⟩ | ⟨flag, rfl, rfl⟩ |
      ⟨b, sys, hworld, -, -, -, rfl⟩ | ⟨rfl, -, rfl⟩
    · rw [worldAction, Machine.runFrom_cons]
      show (s.sensing.step b).bind _ = _
      rw [hw]
      rfl
    · rfl
    · rfl
    · rw [hworld]
      rfl
    · rfl

/-- The queue, `comms_task`, the network and the control loop. -/
def systemPart (rand : ℕ → UInt8) : Machine.Component (demo rand) system where
  part := Demo.control
  own := systemAction
  part_init := rfl
  part_step := by
    intro s a s' hs
    rcases step_cases hs with ⟨b, w, rfl, hw, rfl⟩ | ⟨v, rest, rfl, hpending, rfl⟩ |
      ⟨flag, rfl, rfl⟩ | ⟨b, sys, -, hb, -, hsys, rfl⟩ | ⟨rfl, -, rfl⟩
    · rfl
    · rw [systemAction, hpending]
      rfl
    · rfl
    · rw [hb, Machine.runFrom_cons]
      show (s.control.step b).bind _ = _
      rw [hsys]
      rfl
    · rfl

/-- The IMU messages that Gazebo publishes in a run. -/
def published (as : List DemoAction) : List Imu := imus (as.flatMap worldAction)

/-- The relay and the sensor run as they do on their own. -/
theorem world_run (h : (demo rand).run as = some s) :
    world.run (as.flatMap worldAction) = some s.sensing := by
  have htrace : (worldPart rand).trace as = as.flatMap worldAction :=
    (worldPart rand).trace_eq_flatMap (fun _ _ => rfl) h
  rw [← htrace]
  exact (worldPart rand).run h

/-- The firmware, the network and the loop run as they do on their own. -/
theorem system_reachable (h : (demo rand).run as = some s) : system.Reachable s.control :=
  (systemPart rand).reachable ⟨as, h⟩

/-! ### The speeds that are posted -/

/-- The speeds that were posted are the first that the driver read, and the queue accepted some of
    them, in their order. -/
def Posted (s : Demo) : Prop :=
  ∃ posted, s.sensing.sensor.forwarded.map Wss.Triple.wheelSpeed = posted ++ s.pending ∧
    (wheelSpeeds s.control.firmware.queue.accepted).Sublist posted

/-- Before the first step nothing is forwarded and nothing posted. -/
theorem posted_init (rand : ℕ → UInt8) : (demo rand).init.Posted :=
  ⟨[], rfl, List.Sublist.refl _⟩

/-- A post adds its speed, if it has one, or is refused. -/
theorem accepted_post (f : Firmware) (p : Post) :
    (wheelSpeeds (f.post p).queue.accepted).Sublist
      (wheelSpeeds f.queue.accepted ++ p.speed?.toList) := by
  rw [Firmware.post_eq, xQueueSend]
  cases hput : f.queue.put? p.msg with
  | none => exact List.sublist_append_left _ _
  | some q =>
    have hspeed : wheelSpeeds [p.msg] = p.speed?.toList := by cases p <;> rfl
    simp only
    rw [(Fifo.put?_eq_some hput).2.1, wheelSpeeds, List.filterMap_append, ← wheelSpeeds,
      ← wheelSpeeds, hspeed]

/-- Nothing but a post is accepted. -/
theorem accepted_step {s s' : System} {b : SystemAction} (hb : ∀ p, b ≠ .post p)
    (hs : s.step b = some s') :
    s'.firmware.queue.accepted = s.firmware.queue.accepted := by
  rcases System.step_firmware hs with ⟨p, rfl, -⟩ | ⟨sendOk, tx?, rfl, hpass⟩ | ⟨-, -, hsame⟩
  · exact absurd rfl (hb p)
  · exact (Firmware.commsPass_cases hpass).2.1
  · rw [hsame]

/-- A step posts the speeds that were forwarded, in their order. -/
theorem Posted.step (h : s.Posted) (hs : s.step rand a = some s') : s'.Posted := by
  obtain ⟨posted, hread, hsub⟩ := h
  rcases step_cases hs with ⟨b, w, rfl, hw, rfl⟩ | ⟨v, rest, rfl, hpending, rfl⟩ |
    ⟨flag, rfl, rfl⟩ | ⟨b, sys, -, -, hb, hsys, rfl⟩ | ⟨rfl, -, rfl⟩
  · -- What the driver has read now waits behind what it had read before.
    refine ⟨posted, ?_, hsub⟩
    obtain ⟨new, hnew⟩ := World.forwarded_step hw
    rw [newSpeeds, ← hnew, List.drop_left, List.map_append, hread, List.append_assoc]
  · refine ⟨posted ++ [v], ?_, (accepted_post _ _).trans (hsub.append_right _)⟩
    rw [hread, hpending, List.append_assoc, List.singleton_append]
  · refine ⟨posted, hread, (accepted_post _ _).trans ?_⟩
    exact (List.append_nil _).symm ▸ hsub
  · refine ⟨posted, hread, ?_⟩
    rw [accepted_step hb hsys]
    exact hsub
  · exact ⟨posted, hread, hsub⟩

/-- In every run the speeds posted are those forwarded, but for the ones that wait. -/
theorem posted_of_run (h : (demo rand).run as = some s) : s.Posted :=
  Machine.run_history (I := fun _ s => s.Posted) (posted_init rand)
    (fun _ _ _ _ hs hstep => hs.step hstep) h

end Demo

/-! ### The end of the loop -/

namespace Demo

/-- The command behind the loop, once it was stopped. -/
def halt (s : Demo) : Option Linux.Twist :=
  if s.stopped then some (Linux.twistOf s.control.linux.actuator.seqnum 0) else none

/-- The stop is a pass of the loop, and the last one. -/
theorem main_stop (h : (demo rand).run as = some s) (hs : s.step rand .stop = some s') :
    Linux.controlLoop.step s.main .stop = some s'.main := by
  simp only [step, Option.ite_none_left_eq_some, Option.some.injEq] at hs
  obtain ⟨hrunning, rfl⟩ := hs
  have hmain : s.main = s.control.linux := if_neg hrunning
  rw [hmain]
  exact Linux.controlLoop_step_eq_some.mpr ⟨(System.inv_reachable (system_reachable h)).running, rfl⟩

/-- The stop leaves `duty` as it is. -/
theorem main_duty (s : Demo) : s.main.duty = s.control.linux.duty := by
  unfold main
  split <;> rfl

/-- What is published in the loop, and then the halt. -/
theorem twists_main (s : Demo) :
    Linux.twists s.main.events = Linux.twists s.control.linux.events ++ s.halt.toList := by
  unfold main halt
  split
  · show Linux.twists (Linux.afterLoop _).events = _
    rw [Linux.afterLoop_events]
    simp [Linux.twists]
  · simp

/-- A stop publishes one command. -/
theorem halt_length (s : Demo) : s.halt.toList.length = if s.stopped then 1 else 0 := by
  unfold halt
  split <;> rfl

end Demo

/-! ### The commands -/

namespace System

variable {s s' : System}

/-- The loop handles a packet of the network as the message that its sender built. -/
theorem Inv.loopPass_recv (h : s.Inv) {i : ℕ} {pkt : Packet} (hi : s.net[i]? = some pkt) :
    Linux.loopPass s.linux (.datagram pkt.payload) =
      Linux.handleMsg s.linux (Linux.seenMsg pkt.payload) := by
  obtain ⟨sent, queued, hist⟩ := h.history
  have hgenuine := h.genuine pkt (List.mem_append_left _ (List.mem_of_getElem? hi))
  exact Linux.loopPass_datagram s.linux (hgenuine.length hist).ge

/-- **The steps of the loop**: it handles a packet of the network, or nothing it shows changes. -/
theorem Inv.step_loop {a : SystemAction} (h : s.Inv) (hs : s.step a = some s') :
    (∃ pkt, s'.linux = Linux.handleMsg s.linux (Linux.seenMsg pkt.payload) ∧
      s'.arrived = s.arrived ++ [pkt] ∧
      s'.acted = if isValid pkt.payload then s.acted ++ [pkt] else s.acted) ∨
    (s'.linux.events = s.linux.events ∧ s'.linux.duty = s.linux.duty ∧
      s'.linux.actuator = s.linux.actuator ∧ s'.arrived = s.arrived ∧ s'.acted = s.acted) := by
  cases a with
  | post p =>
    obtain rfl := Option.some.inj hs
    exact .inr ⟨rfl, rfl, rfl, rfl, rfl⟩
  | commsPass sendOk =>
    obtain ⟨⟨f, tx?⟩, -, rfl⟩ := Option.map_eq_some_iff.mp hs
    exact .inr ⟨rfl, rfl, rfl, rfl, rfl⟩
  | lose i =>
    obtain rfl := Option.some.inj hs
    exact .inr ⟨rfl, rfl, rfl, rfl, rfl⟩
  | linuxIdle =>
    obtain ⟨l, hl, rfl⟩ := Option.map_eq_some_iff.mp hs
    obtain ⟨-, rfl⟩ := Linux.controlLoop_step_eq_some.mp hl
    exact .inr ⟨rfl, rfl, rfl, rfl, rfl⟩
  | linuxInterrupted =>
    obtain ⟨l, hl, rfl⟩ := Option.map_eq_some_iff.mp hs
    obtain ⟨-, rfl⟩ := Linux.controlLoop_step_eq_some.mp hl
    exact .inr ⟨rfl, rfl, rfl, rfl, rfl⟩
  | linuxRecv i =>
    obtain ⟨pkt, hi, hrecv⟩ := Option.bind_eq_some_iff.mp hs
    obtain ⟨l, hl, rfl⟩ := Option.map_eq_some_iff.mp hrecv
    obtain ⟨-, rfl⟩ := Linux.controlLoop_step_eq_some.mp hl
    exact .inl ⟨pkt, h.loopPass_recv hi, rfl, rfl⟩

/-- **The ramp of the system**: `duty` counts the datagrams that were acted on. -/
theorem ramp_reachable (h : system.Reachable s) : Linux.Ramp s.acted.length s.linux := by
  refine (h.invariant (I := fun s => s.Inv ∧ Linux.Ramp s.acted.length s.linux)
    ⟨inv_boot, Linux.ramp_start⟩ ?_).2
  rintro s a s' ⟨hinv, hramp⟩ hs
  refine ⟨hinv.step hs, ?_⟩
  rcases hinv.step_loop hs with ⟨pkt, hlinux, -, hacted⟩ | ⟨hevents, hduty, hactuator, -, hacted⟩
  · rw [hlinux, hacted]
    by_cases hvalid : isValid pkt.payload = true
    · rw [if_pos hvalid, List.length_append]
      exact hramp.commands (Linux.commands_handleMsg _ (of_decide_eq_true hvalid))
    · rw [if_neg hvalid]
      refine hramp.leavesAlone (Linux.leavesAlone_handleMsg _ fun hnone => ?_)
      exact hvalid (decide_eq_true hnone)
  · rw [hacted]
    exact hramp.leavesAlone ⟨hduty, hactuator, by rw [hevents]⟩

/-- What is acted on was accepted by the queue, once, and carries the speed of its number. -/
theorem Inv.acted_speed (h : s.Inv) {pkt : Packet} (hpkt : pkt ∈ s.acted) :
    (wheelSpeeds s.firmware.queue.accepted)[pkt.number]? =
      some (Linux.seenMsg pkt.payload).wheelSpeed := by
  obtain ⟨sent, queued, hist⟩ := h.history
  rw [h.acted, List.mem_filter] at hpkt
  obtain ⟨tx, htx, hpay⟩ := h.genuine pkt (List.mem_append_right _ hpkt.1)
  rw [hist.wheelSpeeds_accepted, ← hist.sends.wheelSpeeds]
  have hget : (s.firmware.attempted.map fun tx => tx.received.wheelSpeed)[pkt.number]? =
      some (Linux.seenMsg pkt.payload).wheelSpeed := by
    rw [List.getElem?_map, htx, ← hpay]
    rfl
  rw [List.getElem?_append_left (List.getElem?_eq_some_iff.mp hget).1, hget]

/-- No send is acted on twice. -/
theorem acted_nodup (h : system.Reachable s) : (s.acted.map Packet.number).Nodup := by
  have hsound := Delivery.reachable_sound (refinesLedger.reachable h)
  exact hsound.once.sublist (hsound.acted.trans (List.sublist_append_right _ _))

end System

variable {rand : ℕ → UInt8} {s : Demo} {as : List DemoAction}

/-- The messages that the accepted speeds come from: a datagram that is acted on carries the speed
    of the one that has its number. -/
theorem Demo.sources_of_run (h : (demo rand).run as = some s) :
    ∃ sources : List Imu, sources.Sublist (published as) ∧
      wheelSpeeds s.control.firmware.queue.accepted =
        sources.map (fun msg => msg.triple.wheelSpeed) ∧
      ∀ pkt ∈ s.control.acted, ∃ msg, sources[pkt.number]? = some msg ∧
        (Linux.seenMsg pkt.payload).wheelSpeed = msg.triple.wheelSpeed := by
  have hmeasured := World.forwarded_sublist (world_run h)
  obtain ⟨posted, hread, hsub⟩ := posted_of_run h
  have hspeeds : (wheelSpeeds s.control.firmware.queue.accepted).Sublist
      ((published as).map fun msg => msg.triple.wheelSpeed) := by
    have hmap := hmeasured.map Wss.Triple.wheelSpeed
    rw [hread, List.map_map] at hmap
    exact hsub.trans ((List.sublist_append_left _ _).trans hmap)
  obtain ⟨sources, hsources, heq⟩ := List.sublist_map_iff.mp hspeeds
  refine ⟨sources, hsources, heq, ?_⟩
  intro pkt hpkt
  have hget := (System.inv_reachable (system_reachable h)).acted_speed hpkt
  rw [heq, List.getElem?_map, Option.map_eq_some_iff] at hget
  obtain ⟨msg, hmsg, hspeed⟩ := hget
  exact ⟨msg, hmsg, hspeed.symm⟩

/-- Numbers that are positions are below the length. -/
theorem System.numbers_subset {s : System} {sources : List Imu}
    (hacted : ∀ pkt ∈ s.acted, ∃ msg, sources[pkt.number]? = some msg ∧
      (Linux.seenMsg pkt.payload).wheelSpeed = msg.triple.wheelSpeed) :
    s.acted.map Packet.number ⊆ List.range sources.length := by
  intro k hk
  obtain ⟨pkt, hpkt, rfl⟩ := List.mem_map.mp hk
  obtain ⟨msg, hmsg, -⟩ := hacted pkt hpkt
  exact List.mem_range.mpr (List.getElem?_eq_some_iff.mp hmsg).1

open Demo

/-- What the run `as` that leads to `s` makes of the IMU messages. -/
structure Pipeline (as : List DemoAction) (s : Demo) : Prop where
  /-- The readings that the driver traces are those of IMU messages, in their order. -/
  measured : s.sensing.sensor.forwarded.Sublist ((published as).map Imu.triple)
  /-- So are the speeds that the queue accepts.  A datagram that is acted on carries the speed of
      the message that has its number among them. -/
  sources : ∃ sources : List Imu, sources.Sublist (published as) ∧
    wheelSpeeds s.control.firmware.queue.accepted =
      sources.map (fun msg => msg.triple.wheelSpeed) ∧
    ∀ pkt ∈ s.control.acted, ∃ msg, sources[pkt.number]? = some msg ∧
      (Linux.seenMsg pkt.payload).wheelSpeed = msg.triple.wheelSpeed
  /-- No two of them have the same number. -/
  once : (s.control.acted.map Packet.number).Nodup
  /-- One command is published for each, beside the one of the start-up and that of a stop. -/
  commands : (Linux.twists s.main.events).length =
    s.control.acted.length + 1 + if s.stopped then 1 else 0
  bounded : s.control.acted.length ≤ (published as).length
  /-- They drive the ramp. -/
  duty : s.main.duty.toNat = min 1000 (10 * s.control.acted.length)
  velocities : ∀ v ∈ Linux.velocities s.main.events, 0 ≤ v ∧ v ≤ 1

/-- All velocities lie between 0 and 1. -/
theorem Demo.velocities_main {n : ℕ} (hramp : Linux.Ramp n s.control.linux) :
    ∀ v ∈ Linux.velocities s.main.events, 0 ≤ v ∧ v ≤ 1 := by
  intro v hv
  rw [Linux.velocities, twists_main, List.map_append, List.mem_append] at hv
  rcases hv with hloop | hhalt
  · exact hramp.range v hloop
  · obtain ⟨twist, htwist, rfl⟩ := List.mem_map.mp hhalt
    rw [Option.mem_toList, halt] at htwist
    split at htwist
    · obtain rfl := Option.some.inj htwist
      exact ⟨le_rfl, zero_le_one⟩
    · cases htwist

/-- **The pipeline**, in any interleaving of all components and with any losses: every command
    goes back to an IMU message, and no two commands to the same one. -/
theorem pipeline (h : (demo rand).run as = some s) : Pipeline as s := by
  have hsystem := system_reachable h
  have hinv := System.inv_reachable hsystem
  have hramp := System.ramp_reachable hsystem
  have honce := System.acted_nodup hsystem
  obtain ⟨sources, hsources, heq, hacted⟩ := sources_of_run h
  have hcommands : (Linux.twists s.main.events).length =
      s.control.acted.length + 1 + if s.stopped then 1 else 0 := by
    rw [twists_main, List.length_append, hinv.commands, halt_length]
  refine ⟨World.forwarded_sublist (world_run h), ⟨sources, hsources, heq, hacted⟩, honce,
    hcommands, ?_, s.main_duty ▸ hramp.duty, velocities_main hramp⟩
  -- The numbers are different and below the number of sources.
  have hbelow := System.numbers_subset hacted
  calc s.control.acted.length = (s.control.acted.map Packet.number).length :=
        (List.length_map _).symm
    _ ≤ (List.range sources.length).length := honce.length_le_of_subset hbelow
    _ = sources.length := List.length_range
    _ ≤ (published as).length := hsources.length_le

/-- The driver is initialised, and an IMU message comes in and is polled. -/
def oneReading : List DemoAction :=
  [.world .access, .world .access, .world (.imu true true ⟨1, 0, 1, 2⟩), .world .recv] ++
    List.replicate 6 (.world .access)

/-- Two IMU messages come in and are polled, and their speeds are posted around a voltage. -/
def twoReadings : List DemoAction :=
  [.world .access, .world .access, .world (.imu true true ⟨1, 0, 1, 2⟩),
    .world (.imu true true ⟨1, 500, 2, 3⟩), .world .recv, .world .recv] ++
    List.replicate 6 (.world .access) ++ [.sensorPost] ++ List.replicate 6 (.world .access) ++
      [.voltage 0, .sensorPost]

/-- They are sent, arrive in the other order, and the loop is stopped. -/
def twoCommands : List DemoAction :=
  twoReadings ++ [.commsPass true, .commsPass true, .commsPass true, .linuxRecv 1, .linuxIdle,
    .linuxRecv 0, .stop]

/-- Two readings are acted on, and then `main` stops. -/
theorem pipeline_twoCommands :
    ∃ s, (demo fun _ => 255).run twoCommands = some s ∧ s.control.acted.length = 2 ∧
      s.stopped = true ∧ Pipeline twoCommands s := by
  have hend : ((demo fun _ => 255).run twoCommands).map
      (fun s => (s.control.acted.length, s.stopped)) = some (2, true) := by decide +kernel
  obtain ⟨s, hs, hpair⟩ := Option.map_eq_some_iff.mp hend
  obtain ⟨hacted, hstopped⟩ := Prod.mk.inj hpair
  exact ⟨s, hs, hacted, hstopped, pipeline hs⟩

end Wallbot
