import Wallbot.Demo

namespace Wallbot

open Freertos

/-!
# The budget of fault injection

How many datagrams fault injection can spoil.  A nonzero `g_do_voltage_spike` lets one iteration
of the voltage monitor leave a spike behind; a spike that is posted may spoil one datagram; and a
spoiled datagram may arrive, once.

* `Firmware.faults` — the datagrams that are spoiled, and the spikes that may spoil another one.
* `System.spoiledSent_reachable` — no more spoiled datagrams arrive than were attempted.
* `fault_budget` — no more arrive than iterations read a nonzero value.
-/

/-- The receiver rejects the header of the datagram. -/
def spoiled (payload : List UInt8) : Bool := !System.isValid payload

/-- The iteration reads a nonzero value from `g_do_voltage_spike`. -/
def DemoAction.injects : DemoAction → Bool
  | .voltage flag => flag ≠ 0
  | _ => false

/-- The message makes `comms_task` note a spike. -/
def Freertos.CommsMsg.isSpike (msg : CommsMsg) : Bool :=
  msg.type = msgTypeVoltage ∧ msg.voltageSpike ≠ 0

/-- 1 if a spike is noted for the next datagram. -/
def Freertos.CommsTask.noted (t : CommsTask) : ℕ := if t.voltageSpiked ≠ 0 then 1 else 0

namespace Firmware

variable {f f' : Firmware}

/-- The spoiled datagrams, and the spikes that are noted or queued. -/
def faults (f : Firmware) : ℕ :=
  f.attempted.countP (fun tx => spoiled tx.datagram) + f.comms.noted +
    f.queue.items.countP CommsMsg.isSpike

/-- The queue's message and the post agree on what a spike is. -/
theorem isSpike_msg (p : Post) : p.msg.isSpike = p.isSpike := by
  cases p with
  | sensor v => rfl
  | voltage mv spike => simp [CommsMsg.isSpike, Post.msg, voltageMsg, Post.isSpike]

/-- A post adds its spike, if it is one. -/
theorem faults_post (f : Firmware) (p : Post) :
    (f.post p).faults ≤ f.faults + if p.isSpike then 1 else 0 := by
  rw [post_eq, xQueueSend]
  cases hput : f.queue.put? p.msg with
  | none => exact Nat.le_add_right _ _
  | some q =>
    simp only [faults]
    rw [(Fifo.put?_eq_some hput).1, List.countP_append, List.countP_singleton, isSpike_msg]
    omega

/-- A message that no spike was noted for has a good header. -/
theorem spoiled_nextWireMsg (t : CommsTask) (v : Int32) :
    spoiled (txOf (t.nextWireMsg v)).datagram = false := by
  have hfault : Linux.headerFault (txOf (t.nextWireMsg v)).received = none := by
    rw [txOf_received]
    exact (headerFault_nextWireMsg t v).1
  rw [spoiled, System.isValid, ← Tx.received, hfault]
  rfl

/-- A message makes a spike noted, or spends the one that is noted on its datagram. -/
theorem noted_pass {t t' : CommsTask} {msg : CommsMsg} {tx? : Option Tx}
    (h : commsTaskPass t msg = some (t', tx?)) :
    tx?.toList.countP (fun tx => spoiled tx.datagram) + t'.noted ≤
      t.noted + if msg.isSpike then 1 else 0 := by
  rw [commsTaskPass] at h
  by_cases hvoltage : msg.type = msgTypeVoltage
  · rw [if_pos hvoltage] at h
    obtain ⟨rfl, rfl⟩ := Prod.mk.inj (Option.some.inj h)
    by_cases hspike : msg.voltageSpike = 0
    · simp [hspike]
    · simp [hspike, CommsMsg.isSpike, hvoltage, CommsTask.noted, CommsTask.noteSpike]
  · rw [if_neg hvoltage] at h
    by_cases hsensor : msg.type = msgTypeWheelSpeed
    · rw [if_pos hsensor] at h
      by_cases hnoted : t.voltageSpiked = 0
      · rw [if_neg (not_not.mpr hnoted)] at h
        obtain ⟨rfl, rfl⟩ := Prod.mk.inj (Option.some.inj h)
        simp [spoiled_nextWireMsg, CommsTask.noted, hnoted]
      · rw [if_pos hnoted] at h
        obtain ⟨rfl, rfl⟩ := Prod.mk.inj (Option.some.inj h)
        have hone := List.countP_le_length (p := fun tx => spoiled tx.datagram)
          (l := [txOf (mutate t.mutatorState (t.nextWireMsg msg.wheelSpeed))])
        simp only [CommsTask.noted, if_pos hnoted, Option.toList_some]
        rw [List.length_singleton] at hone
        simp only [ne_eq, not_true_eq_false, if_false]
        omega
    · rw [if_neg hsensor] at h
      cases h

/-- **A pass of `comms_task`** uses up at least the faults that it causes. -/
theorem faults_commsPass {tx? : Option Tx} (h : f.commsPass = some (f', tx?)) :
    f'.faults ≤ f.faults := by
  obtain ⟨⟨msg, q⟩, htake, hrest⟩ := Option.bind_eq_some_iff.mp h
  obtain ⟨⟨t, tx'⟩, htask, heq⟩ := Option.map_eq_some_iff.mp hrest
  obtain ⟨rfl, rfl⟩ := Prod.mk.inj heq
  have hitems := (Fifo.take?_eq_some htake).1
  have hnoted := noted_pass htask
  simp only [faults]
  rw [hitems, List.countP_cons, List.countP_append]
  omega

end Firmware

namespace System

variable {s s' : System}

/-- The spoiled datagrams in the network and past it. -/
def spoiledSent (s : System) : ℕ :=
  (s.net ++ s.arrived).countP fun pkt => spoiled pkt.payload

/-- The spoiled datagrams that were attempted. -/
def spoiledAttempted (s : System) : ℕ :=
  s.firmware.attempted.countP fun tx => spoiled tx.datagram

/-- Only a send puts a datagram into the network. -/
theorem spoiledSent_step {b : SystemAction} (h : s.spoiledSent ≤ s.spoiledAttempted)
    (hs : s.step b = some s') : s'.spoiledSent ≤ s'.spoiledAttempted := by
  rw [spoiledSent, spoiledAttempted, List.countP_append] at h ⊢
  cases b with
  | post p =>
    obtain rfl := Option.some.inj hs
    simp only [Firmware.post_eq]
    exact h
  | commsPass sendOk =>
    obtain ⟨⟨f, tx?⟩, hpass, rfl⟩ := Option.map_eq_some_iff.mp hs
    obtain ⟨⟨msg, q⟩, -, hrest⟩ := Option.bind_eq_some_iff.mp hpass
    obtain ⟨⟨t, tx'⟩, -, heq⟩ := Option.map_eq_some_iff.mp hrest
    obtain ⟨rfl, rfl⟩ := Prod.mk.inj heq
    simp only [List.countP_append]
    cases tx' with
    | none => cases sendOk <;> simpa using h
    | some tx =>
      cases sendOk
      · simp only [Bool.false_eq_true, if_false]
        omega
      · simp only [if_true, List.countP_append, Option.toList_some, List.map_singleton,
          List.countP_singleton]
        omega
  | lose i =>
    obtain rfl := Option.some.inj hs
    have hless := (List.eraseIdx_sublist s.net i).countP_le (p := fun pkt => spoiled pkt.payload)
    simp only
    omega
  | linuxIdle =>
    obtain ⟨l, -, rfl⟩ := Option.map_eq_some_iff.mp hs
    exact h
  | linuxInterrupted =>
    obtain ⟨l, -, rfl⟩ := Option.map_eq_some_iff.mp hs
    exact h
  | linuxRecv i =>
    obtain ⟨pkt, hi, hrecv⟩ := Option.bind_eq_some_iff.mp hs
    obtain ⟨l, -, rfl⟩ := Option.map_eq_some_iff.mp hrecv
    -- The datagram only moves.
    obtain ⟨hlt, rfl⟩ := List.getElem?_eq_some_iff.mp hi
    have hmove := (List.getElem_cons_eraseIdx_perm hlt).countP_eq fun pkt => spoiled pkt.payload
    rw [List.countP_cons] at hmove
    simp only [List.countP_append, List.countP_singleton]
    omega

/-- No more spoiled datagrams are on their way or past it than were attempted. -/
theorem spoiledSent_reachable (h : system.Reachable s) : s.spoiledSent ≤ s.spoiledAttempted :=
  h.invariant (Nat.le_refl 0) fun _ _ _ hs hstep => spoiledSent_step hs hstep

/-- The arrivals that the loop did not act on. -/
def rejected (s : System) : ℕ := s.arrived.countP fun pkt => spoiled pkt.payload

/-- Each arrival is acted on or rejected. -/
theorem acted_add_rejected (h : system.Reachable s) :
    s.acted.length + s.rejected = s.arrived.length := by
  rw [(inv_reachable h).acted, ← List.countP_eq_length_filter,
    List.length_eq_countP_add_countP (fun pkt : Packet => isValid pkt.payload), rejected]
  simp only [spoiled, Bool.not_eq_true, Bool.decide_eq_false]

/-- Only a post can raise the faults of the firmware. -/
theorem faults_step {b : SystemAction} (hb : ∀ p, b ≠ .post p) (hs : s.step b = some s') :
    s'.firmware.faults ≤ s.firmware.faults := by
  rcases step_firmware hs with ⟨p, rfl, -⟩ | ⟨sendOk, tx?, rfl, hpass⟩ | ⟨-, -, hsame⟩
  · exact absurd rfl (hb p)
  · exact Firmware.faults_commsPass hpass
  · rw [hsame]

end System

namespace Demo

variable {rand : ℕ → UInt8} {s s' : Demo} {a : DemoAction} {as : List DemoAction}

/-- The faults of the firmware, and the spike that the voltage monitor is about to post. -/
def faults (s : Demo) : ℕ :=
  s.control.firmware.faults + if s.walk.monitor.isSpike then 1 else 0

/-- The post says what the walk says. -/
theorem voltagePost_isSpike (walk : VoltageWalk) :
    (voltagePost walk).isSpike = walk.monitor.isSpike := by
  rw [Bool.eq_iff_iff, ← walk.monitor.posted_spike, voltagePost, Post.isSpike, decide_eq_true_eq]

/-- **The step**: only an iteration that reads a nonzero value adds a fault. -/
theorem faults_step (hs : s.step rand a = some s') :
    s'.faults ≤ s.faults + if a.injects then 1 else 0 := by
  rcases step_cases hs with ⟨b, w, rfl, hw, rfl⟩ | ⟨v, rest, rfl, hpending, rfl⟩ |
    ⟨flag, rfl, rfl⟩ | ⟨b, sys, -, -, hb, hsys, rfl⟩ | ⟨rfl, -, rfl⟩
  · exact Nat.le_add_right _ _
  · have hpost := Firmware.faults_post s.control.firmware (.sensor v)
    exact (Nat.add_le_add_right hpost _).trans (Nat.le_add_right _ _)
  · -- The spike goes from the monitor to the queue, and the monitor may leave another one.
    have hpost := Firmware.faults_post s.control.firmware (voltagePost s.walk)
    rw [voltagePost_isSpike] at hpost
    have hnext : (if (s.walk.next rand flag).monitor.isSpike then 1 else 0) ≤
        if (DemoAction.voltage flag).injects then 1 else 0 := by
      by_cases hflag : flag = 0
      · have hno : (s.walk.next rand flag).monitor.isSpike = false := by
          rw [hflag]
          exact s.walk.monitor.next_not_isSpike _
        rw [hno]
        exact Nat.zero_le _
      · have hinjects : (DemoAction.voltage flag).injects = true := decide_eq_true hflag
        rw [hinjects]
        split <;> simp
    simp only [faults]
    omega
  · have hless := System.faults_step hb hsys
    exact (Nat.add_le_add_right hless _).trans (Nat.le_add_right _ _)
  · exact Nat.le_add_right _ _

/-- **The budget of a run**: every fault comes from an iteration that reads a nonzero flag. -/
theorem faults_run (h : (demo rand).run as = some s) :
    s.faults ≤ as.countP DemoAction.injects := by
  refine Machine.run_history (I := fun as s => s.faults ≤ as.countP DemoAction.injects)
    (Nat.le_refl 0) ?_ h
  intro as s a s' ih hs
  have hstep := faults_step hs
  rw [List.countP_append, List.countP_singleton]
  omega

/-- So does everything that is rejected. -/
theorem rejected_le (h : (demo rand).run as = some s) :
    s.control.rejected ≤ as.countP DemoAction.injects := by
  have hsent := System.spoiledSent_reachable (system_reachable h)
  have hfaults := faults_run h
  rw [System.spoiledSent, System.spoiledAttempted, List.countP_append] at hsent
  simp only [faults, Firmware.faults] at hfaults
  rw [System.rejected]
  omega

end Demo

/-- **The budget of fault injection.**  Of the datagrams that arrive, the control loop acts on all
    but at most one for each iteration of the voltage monitor that reads a nonzero
    `g_do_voltage_spike`, and `duty` follows. -/
theorem fault_budget {rand : ℕ → UInt8} {as : List DemoAction} {s : Demo}
    (h : (demo rand).run as = some s) :
    s.control.arrived.length ≤ s.control.acted.length + as.countP DemoAction.injects ∧
      min 1000 (10 * (s.control.arrived.length - as.countP DemoAction.injects)) ≤
        s.control.linux.duty.toNat := by
  have hacted := System.acted_add_rejected (Demo.system_reachable h)
  have hrejected := Demo.rejected_le h
  have hduty := (System.ramp_reachable (Demo.system_reachable h)).duty
  constructor <;> omega

/-- The walk climbs to the upper rail, and its spike spoils the datagram of a reading. -/
def spoiledReading : List DemoAction :=
  oneReading ++ List.replicate 8 (.voltage 1) ++ List.replicate 8 (.commsPass true) ++
    [.voltage 1, .sensorPost, .commsPass true, .commsPass true, .linuxRecv 0]

/-- One injection, one reading spoiled. -/
theorem fault_budget_spoiledReading :
    ∃ s, (demo fun _ => 255).run spoiledReading = some s ∧ s.control.acted.length = 0 ∧
      1 ≤ s.control.acted.length + spoiledReading.countP DemoAction.injects := by
  have hlengths : ((demo fun _ => 255).run spoiledReading).map
      (fun s => (s.control.acted.length, s.control.arrived.length)) = some (0, 1) := by
    decide +kernel
  obtain ⟨s, hs, hpair⟩ := Option.map_eq_some_iff.mp hlengths
  obtain ⟨hacted, harrived⟩ := Prod.mk.inj hpair
  have hbudget := (fault_budget hs).1
  rw [harrived] at hbudget
  exact ⟨s, hs, hacted, hbudget⟩

end Wallbot
