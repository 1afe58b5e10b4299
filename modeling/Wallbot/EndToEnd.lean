import Wallbot.ControlLoopTrace
import Wallbot.Firmware
import Wallbot.Lib.Delivery

namespace Wallbot

open Freertos

/-!
# End to end — from the sensor's posts to the actuator's commands

The firmware, a UDP network and the Linux control loop, in any interleaving.  A packet keeps
the number of the attempt that sent it; no step reads the number, it only tells which
datagram an arrival is.  The network may lose packets and hand them over in any order.

* `system` — the machine of all interleavings;
* `System.Inv` — its invariant: every packet is a datagram that was attempted, and the
  commands of the actuator are the valid arrivals;
* `refinesLedger` — the system refines the accounting of `Delivery.ledger`, which is where
  "at most once" comes from;
* `endToEnd` — the accounting of every reachable state.
-/

/-- A datagram in the network, with the number of the attempt that sent it. -/
structure Packet where
  number : ℕ
  payload : List UInt8
  deriving DecidableEq, Repr

/-- The firmware, the network and the control loop.  `arrived` and `acted` record the packets
    the loop has received, and those of them it has handled as valid messages. -/
structure System where
  firmware : Firmware
  net : List Packet
  linux : Linux.LoopState
  arrived : List Packet
  acted : List Packet

/-- What the tasks, the network and the loop do: a step is one action of one of them. -/
inductive SystemAction where
  /-- The Sensor or the VoltageMonitor task posts. -/
  | post (p : Post)
  /-- An iteration of `comms_task`; `sendOk` when `sendto` succeeds. -/
  | commsPass (sendOk : Bool)
  /-- The network loses the `i`-th packet. -/
  | lose (i : ℕ)
  | linuxIdle
  | linuxInterrupted
  /-- An iteration of the receive loop that takes the `i`-th packet from the network. -/
  | linuxRecv (i : ℕ)
  deriving Repr

namespace System

/-- Before the first step. -/
def boot : System where
  firmware := .boot
  net := []
  linux := Linux.mainStart
  arrived := []
  acted := []

/-- The receive loop handles the datagram as a valid message. -/
def isValid (payload : List UInt8) : Bool :=
  Linux.headerFault (Linux.seenMsg payload) = none

/-- The step of whoever moves; `none` where there is nothing to do or nothing to take. -/
def step (s : System) : SystemAction → Option System
  | .post p => some { s with firmware := s.firmware.post p }
  | .commsPass sendOk =>
    s.firmware.commsPass.map fun (f, tx?) =>
      let sent := tx?.toList.map fun tx => ⟨s.firmware.attempted.length, tx.datagram⟩
      { s with firmware := f, net := if sendOk then s.net ++ sent else s.net }
  | .lose i => some { s with net := s.net.eraseIdx i }
  | .linuxIdle =>
    (Linux.controlLoop.step s.linux .idle).map fun l => { s with linux := l }
  | .linuxInterrupted =>
    (Linux.controlLoop.step s.linux (.selectFails .eintr)).map fun l => { s with linux := l }
  | .linuxRecv i =>
    s.net[i]?.bind fun pkt =>
      (Linux.controlLoop.step s.linux (.datagram pkt.payload)).map fun l =>
        { s with
          net := s.net.eraseIdx i
          linux := l
          arrived := s.arrived ++ [pkt]
          acted := if isValid pkt.payload then s.acted ++ [pkt] else s.acted }

end System

/-- The interleavings of the firmware, the network and the receive loop. -/
def system : Machine System SystemAction where
  init := .boot
  step := System.step

namespace System

/-! ### The invariant -/

/-- The packet carries the datagram of the attempt it is numbered by. -/
def Genuine (f : Firmware) (pkt : Packet) : Prop :=
  ∃ tx, f.attempted[pkt.number]? = some tx ∧ tx.datagram = pkt.payload

/-- What every interleaving keeps. -/
structure Inv (s : System) : Prop where
  history : ∃ sent queued, s.firmware.History sent queued
  genuine : ∀ pkt ∈ s.net ++ s.arrived, Genuine s.firmware pkt
  acted : s.acted = s.arrived.filter fun pkt => isValid pkt.payload
  running : s.linux.phase = .running
  commands : (Linux.twists s.linux.events).length = s.acted.length + 1

/-- The invariant before the first step. -/
theorem inv_boot : boot.Inv where
  history := ⟨[], [], Firmware.history_boot⟩
  genuine := by simp [boot]
  acted := rfl
  running := rfl
  commands := rfl

/-- A packet stays genuine while more is sent. -/
theorem Genuine.mono {f f' : Firmware} {pkt : Packet} (h : Genuine f pkt)
    (hf : f.attempted <+: f'.attempted) : Genuine f' pkt := by
  obtain ⟨tx, htx, hpay⟩ := h
  obtain ⟨txs, htxs⟩ := hf
  refine ⟨tx, ?_, hpay⟩
  rw [← htxs, List.getElem?_append_left (List.getElem?_eq_some_iff.mp htx).1, htx]

/-- A genuine packet fills the receive buffer. -/
theorem Genuine.length {f : Firmware} {sent queued : List Post} {pkt : Packet}
    (h : Genuine f pkt) (hf : f.History sent queued) :
    pkt.payload.length = Linux.wireMsgSize := by
  obtain ⟨tx, htx, hpay⟩ := h
  obtain ⟨_, _, _, _, _, _, hfaith⟩ := hf.sends.getElem? htx
  rw [← hpay, hfaith.length]

/-- A handled message publishes one command if it is valid, and none otherwise. -/
theorem twists_handleMsg (l : Linux.LoopState) (payload : List UInt8) :
    (Linux.twists (Linux.handleMsg l (Linux.seenMsg payload)).events).length
      = (Linux.twists l.events).length + if isValid payload then 1 else 0 := by
  cases hf : Linux.headerFault (Linux.seenMsg payload) with
  | some reason =>
    rw [Linux.handleMsg_of_fault l hf]
    simp [Linux.twists, isValid, hf]
  | none =>
    rw [Linux.handleMsg_of_valid l hf]
    simp [Linux.twists, isValid, hf]

/-- A post changes the queue of `comms_task` only. -/
theorem Inv.post {s : System} (h : s.Inv) (p : Post) :
    Inv { s with firmware := s.firmware.post p } := by
  obtain ⟨sent, queued, hist⟩ := h.history
  rcases hist.post p with ⟨hist', hatt, -⟩ | ⟨-, hsame⟩
  · -- A post attempts nothing.
    exact
      { history := ⟨_, _, hist'⟩
        genuine := fun pkt hpkt => (h.genuine pkt hpkt).mono (hatt ▸ List.prefix_refl _)
        acted := h.acted
        running := h.running
        commands := h.commands }
  · rw [hsame]; exact h

/-- A pass puts at most one packet into the network, numbered after all sends before it. -/
theorem Inv.commsPass {s : System} (h : s.Inv) {f : Firmware} {tx? : Option Tx}
    (hpass : s.firmware.commsPass = some (f, tx?)) (sendOk : Bool) :
    let sent : List Packet := tx?.toList.map fun tx => ⟨s.firmware.attempted.length, tx.datagram⟩
    Inv { s with firmware := f, net := if sendOk then s.net ++ sent else s.net } := by
  obtain ⟨sent, queued, hist⟩ := h.history
  obtain ⟨p, rest, rfl, hist', hatt, -⟩ := hist.commsPass hpass
  refine ⟨⟨_, _, hist'⟩, ?_, h.acted, h.running, h.commands⟩
  -- The attempts only grow, so the packets under way stay genuine.
  have hold : ∀ pkt ∈ s.net ++ s.arrived, Genuine f pkt :=
    fun pkt hpkt => (h.genuine pkt hpkt).mono ⟨_, hatt.symm⟩
  cases sendOk with
  | false => exact hold
  | true =>
    intro pkt hpkt
    simp only [if_true, List.append_assoc, List.mem_append, List.mem_map,
      Option.mem_toList] at hpkt
    rcases hpkt with hnet | ⟨tx, rfl, rfl⟩ | harr
    · exact hold pkt (List.mem_append_left _ hnet)
    · -- The new packet carries the number of the attempt just made.
      exact ⟨tx, by simp [hatt], rfl⟩
    · exact hold pkt (List.mem_append_right _ harr)

/-- A packet that is lost was sent as well. -/
theorem Inv.lose {s : System} (h : s.Inv) (i : ℕ) : Inv { s with net := s.net.eraseIdx i } where
  history := h.history
  genuine := fun pkt hpkt =>
    h.genuine pkt (((List.eraseIdx_sublist _ _).append_right _).subset hpkt)
  acted := h.acted
  running := h.running
  commands := h.commands

/-- A packet that arrives leaves the network, and is acted on or rejected. -/
theorem Inv.linuxRecv {s : System} (h : s.Inv) {i : ℕ} {pkt : Packet} (hi : s.net[i]? = some pkt) :
    Inv
      { s with
        net := s.net.eraseIdx i
        linux := Linux.loopPass s.linux (.datagram pkt.payload)
        arrived := s.arrived ++ [pkt]
        acted := if isValid pkt.payload then s.acted ++ [pkt] else s.acted } := by
  obtain ⟨sent, queued, hist⟩ := h.history
  have hmem : pkt ∈ s.net := List.mem_of_getElem? hi
  have hgen : Genuine s.firmware pkt := h.genuine pkt (List.mem_append_left _ hmem)
  -- A genuine packet fills the buffer, so the loop handles it and goes on.
  have hpass := Linux.loopPass_datagram s.linux (hgen.length hist).ge
  refine ⟨⟨_, _, hist⟩, ?_, ?_, ?_, ?_⟩
  · intro q hq
    rw [← List.append_assoc, List.mem_append, List.mem_singleton] at hq
    rcases hq with hq | rfl
    · exact h.genuine q (((List.eraseIdx_sublist _ _).append_right _).subset hq)
    · exact hgen
  · rw [List.filter_append, ← h.acted]
    by_cases hv : isValid pkt.payload = true <;> simp [hv]
  · rw [hpass, Linux.handleMsg_phase]
    exact h.running
  · rw [hpass, twists_handleMsg, h.commands]
    by_cases hv : isValid pkt.payload = true <;> simp [hv]

/-- **The step**: every action keeps the invariant. -/
theorem Inv.step {s s' : System} {a : SystemAction} (h : s.Inv) (hs : s.step a = some s') :
    s'.Inv := by
  cases a with
  | post p => cases hs; exact h.post p
  | commsPass sendOk =>
    obtain ⟨⟨f, tx?⟩, hpass, rfl⟩ := Option.map_eq_some_iff.mp hs
    exact h.commsPass hpass sendOk
  | lose i => cases hs; exact h.lose i
  | linuxIdle =>
    obtain ⟨l, hl, rfl⟩ := Option.map_eq_some_iff.mp hs
    obtain ⟨-, rfl⟩ := Linux.controlLoop_step_eq_some.mp hl
    exact h
  | linuxInterrupted =>
    obtain ⟨l, hl, rfl⟩ := Option.map_eq_some_iff.mp hs
    obtain ⟨-, rfl⟩ := Linux.controlLoop_step_eq_some.mp hl
    exact ⟨h.history, h.genuine, h.acted, h.running, h.commands⟩
  | linuxRecv i =>
    obtain ⟨pkt, hi, hrecv⟩ := Option.bind_eq_some_iff.mp hs
    obtain ⟨l, hl, rfl⟩ := Option.map_eq_some_iff.mp hrecv
    obtain ⟨-, rfl⟩ := Linux.controlLoop_step_eq_some.mp hl
    exact h.linuxRecv hi

/-- The invariant holds in every reachable state. -/
theorem inv_reachable {s : System} (h : system.Reachable s) : s.Inv :=
  h.invariant inv_boot fun _ _ _ hs hstep => hs.step hstep

/-! ### Refinement of the accounting -/

/-- The state as the accounting sees it. -/
def ledgerOf (s : System) : Delivery.Ledger Int32 where
  accepted := wheelSpeeds s.firmware.queue.accepted
  attempted := s.firmware.attempted.length
  live := s.net.map Packet.number
  arrived := s.arrived.map Packet.number
  acted := s.acted.map Packet.number

/-- A post is the acceptance of its wheel speed, or nothing. -/
theorem ledgerOf_post {s : System} (h : s.Inv) (p : Post) :
    ∃ bs, (Delivery.ledger Int32).runFrom s.ledgerOf bs
      = some (ledgerOf { s with firmware := s.firmware.post p }) := by
  obtain ⟨sent, queued, hist⟩ := h.history
  rcases hist.post p with ⟨-, hatt, hacc⟩ | ⟨-, hsame⟩
  · have hspeeds : wheelSpeeds (s.firmware.queue.accepted ++ [p.msg])
        = wheelSpeeds s.firmware.queue.accepted ++ p.speed?.toList := by
      rw [wheelSpeeds, List.filterMap_append]
      cases p <;> rfl
    cases hp : p.speed? with
    | none =>
      rw [hp, Option.toList_none, List.append_nil] at hspeeds
      exact ⟨[], by simp [ledgerOf, hatt, hacc, hspeeds]⟩
    | some v =>
      rw [hp, Option.toList_some] at hspeeds
      exact ⟨[.accept v],
        by simp [ledgerOf, hatt, hacc, hspeeds, Delivery.ledger, Delivery.Ledger.step]⟩
  · rw [hsame]; exact ⟨[], rfl⟩

/-- An iteration of `comms_task` is an attempt if it sends. -/
theorem ledgerOf_commsPass {s : System} (h : s.Inv) {f : Firmware} {tx? : Option Tx}
    (hpass : s.firmware.commsPass = some (f, tx?)) (sendOk : Bool) :
    let sent : List Packet := tx?.toList.map fun tx => ⟨s.firmware.attempted.length, tx.datagram⟩
    ∃ bs, (Delivery.ledger Int32).runFrom s.ledgerOf bs
      = some (ledgerOf { s with firmware := f, net := if sendOk then s.net ++ sent else s.net }) := by
  obtain ⟨sent, queued, hist⟩ := h.history
  obtain ⟨p, rest, rfl, hist', hatt, hacc⟩ := hist.commsPass hpass
  cases tx? with
  | none =>
    refine ⟨[], ?_⟩
    cases sendOk <;> simp [ledgerOf, hatt, hacc]
  | some tx =>
    -- The speed attempted was accepted before.
    have hlt : s.firmware.attempted.length
        < (wheelSpeeds s.firmware.queue.accepted).length := by
      have hlen := hist'.sends.length
      rw [hatt, List.length_append] at hlen
      rw [← hacc, hist'.wheelSpeeds_accepted, List.length_append, ← hlen]
      simp only [Option.toList_some, List.length_singleton]
      omega
    refine ⟨[.attempt sendOk], ?_⟩
    cases sendOk <;>
      simp [ledgerOf, hatt, hacc, Delivery.ledger, Delivery.Ledger.step, hlt]

/-- **Refinement.**  The system keeps the accounting of `Delivery`. -/
def refinesLedger : Machine.Refinement system (Delivery.ledger Int32) where
  abs := ledgerOf
  inv := Inv
  inv_init := inv_boot
  inv_step := fun _ _ _ h hs => h.step hs
  abs_init := rfl
  abs_step := by
    intro s a s' h hs
    cases a with
    | post p => cases hs; exact ledgerOf_post h p
    | commsPass sendOk =>
      obtain ⟨⟨f, tx?⟩, hpass, rfl⟩ := Option.map_eq_some_iff.mp hs
      exact ledgerOf_commsPass h hpass sendOk
    | lose i =>
      cases hs
      refine ⟨[.lose i], ?_⟩
      simp [ledgerOf, Delivery.ledger, Delivery.Ledger.step, List.eraseIdx_map]
    | linuxIdle =>
      obtain ⟨l, -, rfl⟩ := Option.map_eq_some_iff.mp hs
      exact ⟨[], rfl⟩
    | linuxInterrupted =>
      obtain ⟨l, -, rfl⟩ := Option.map_eq_some_iff.mp hs
      exact ⟨[], rfl⟩
    | linuxRecv i =>
      obtain ⟨pkt, hi, hrecv⟩ := Option.bind_eq_some_iff.mp hs
      obtain ⟨l, -, rfl⟩ := Option.map_eq_some_iff.mp hrecv
      refine ⟨[.arrive i (isValid pkt.payload)], ?_⟩
      by_cases hv : isValid pkt.payload = true <;>
        simp [ledgerOf, Delivery.ledger, Delivery.Ledger.step, List.eraseIdx_map, hi, hv]

end System

/-! ### The accounting of reachable states -/

/-- The accounting from the posts to the commands. -/
structure EndToEnd (s : System) : Prop where
  /-- The queue is bounded, and only refuses a post when it is full. -/
  bounded : s.firmware.queue.items.length ≤ 8
  refused : ∀ p : Post, (xQueueSend s.firmware.queue p.msg).2 = false →
    s.firmware.queue.items.length = 8
  /-- The accepted wheel speeds are those attempted, then those queued. -/
  inOrder : wheelSpeeds s.firmware.queue.accepted
    = s.firmware.attempted.map (fun tx => tx.received.wheelSpeed)
      ++ wheelSpeeds s.firmware.queue.items
  /-- Attempt `k`, counted from 0, carries speed `k` and sequence number `k + 1`. -/
  numbered : ∀ k tx, s.firmware.attempted[k]? = some tx →
    (wheelSpeeds s.firmware.queue.accepted)[k]? = some tx.received.wheelSpeed ∧
      tx.received.seqnum.toNat = (k + 1) % 2 ^ 32
  /-- No reading is acted on twice, and each one acted on was attempted and is valid. -/
  once : (s.acted.map Packet.number).Nodup
  genuine : ∀ pkt ∈ s.acted, ∃ tx, s.firmware.attempted[pkt.number]? = some tx ∧
    tx.datagram = pkt.payload ∧ Linux.headerFault tx.received = none
  /-- The readings acted on are the valid arrivals, one published command for each beside
      the one of the start-up. -/
  acted : s.acted = s.arrived.filter fun pkt => System.isValid pkt.payload
  commands : (Linux.twists s.linux.events).length = s.acted.length + 1
  running : s.linux.phase = .running
  /-- An arrival is invalid exactly when a spike was dequeued between the wheel speed before
      its own and its own. -/
  corrupted : ∀ pkt ∈ s.arrived, ∃ pre v post,
    s.firmware.queue.taken = (pre ++ .sensor v :: post).map Post.msg ∧
      (speeds pre).length = pkt.number ∧
      (System.isValid pkt.payload = false ↔ spikePending pre = true)

/-- **End-to-end accounting** in every reachable state of every interleaving. -/
theorem endToEnd {s : System} (h : system.Reachable s) : EndToEnd s := by
  have hinv := System.inv_reachable h
  have hsound := Delivery.reachable_sound (System.refinesLedger.reachable h)
  obtain ⟨sent, queued, hist⟩ := hinv.history
  refine ⟨s.firmware.queue.bound, ?_, ?_, ?_, ?_, ?_, hinv.acted, hinv.commands, hinv.running, ?_⟩
  · intro p hp
    cases hput : s.firmware.queue.put? p.msg with
    | none => exact Fifo.put?_eq_none_iff.mp hput
    | some q => simp [xQueueSend, hput] at hp
  · rw [hist.wheelSpeeds_accepted, hist.sends.wheelSpeeds, hist.wheelSpeeds_items]
  · intro k tx htx
    obtain ⟨pre, v, post, -, hlen, hv, hfaith⟩ := hist.sends.getElem? htx
    constructor
    · rw [hist.wheelSpeeds_accepted, hfaith.wheelSpeed,
        List.getElem?_append_left (List.getElem?_eq_some_iff.mp hv).1, hv]
    · rw [hfaith.seqnum, hlen]; rfl
  · -- At most once: the readings acted on are among those that arrived.
    exact hsound.once.sublist (hsound.acted.trans (List.sublist_append_right _ _))
  · intro pkt hpkt
    rw [hinv.acted, List.mem_filter] at hpkt
    obtain ⟨tx, htx, hpay⟩ := hinv.genuine pkt (List.mem_append_right _ hpkt.1)
    refine ⟨tx, htx, hpay, ?_⟩
    rw [Tx.received, hpay]
    simpa [System.isValid] using hpkt.2
  · -- What the receiver makes of an arrival is decided by the history before its attempt.
    intro pkt hpkt
    obtain ⟨tx, htx, hpay⟩ := hinv.genuine pkt (List.mem_append_right _ hpkt)
    obtain ⟨pre, v, post, hps, hlen, -, hfaith⟩ := hist.sends.getElem? htx
    refine ⟨pre, v, post, by rw [hist.taken, hps], hlen, ?_⟩
    have hfault : Linux.headerFault (Linux.seenMsg pkt.payload) = headerFaultAfter pre := by
      rw [← hpay]; exact hfaith.fault
    by_cases hp : spikePending pre = true <;> simp [System.isValid, hfault, headerFaultAfter, hp]

/-- Three readings with a spike before the second, the third of which arrives first. -/
def reorderedRun : List SystemAction :=
  [.post (.sensor 100), .post (.voltage 13000 1), .commsPass true, .post (.sensor (-3)),
    .commsPass true, .post (.sensor 7), .commsPass true, .commsPass true, .linuxRecv 2,
    .linuxIdle, .linuxRecv 0, .linuxRecv 0]

/-- Three sends arrive in another order, and one of them is spoiled. -/
theorem endToEnd_reordered :
    ∃ s, system.run reorderedRun = some s ∧ s.arrived.map Packet.number = [2, 0, 1] ∧
      s.acted.map Packet.number = [2, 0] ∧ EndToEnd s := by
  have hsome : (system.run reorderedRun).isSome := by decide
  have hrun : system.run reorderedRun = some ((system.run reorderedRun).get hsome) :=
    (Option.some_get hsome).symm
  exact ⟨_, hrun, rfl, rfl, endToEnd ⟨reorderedRun, hrun⟩⟩

end Wallbot
