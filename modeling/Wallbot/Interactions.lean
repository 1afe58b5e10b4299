import Wallbot.Demo
import Wallbot.Lib.Correlation

namespace Wallbot

open Freertos

/-!
# The interactions of the logs — `workspace.toml`

The components log what they send and receive, and the workspace draws an interaction between two
entries with the same sequence number: from the published IMU message to `wheel_speed` of the
Sensor, from `comms_tx` to `received_msg`, and from `set_pwm` to the velocity command in Gazebo.
Nothing but the numbers tells the entries apart, so this rests on who counts what: the simulator
counts the IMU messages, `comms_task` its sends, and the actuator its commands.  The command behind
the loop, which a stop brings about, is the only one that no `set_pwm` announces.

* `Linux.receivedMsgs`, `Linux.pwms` — the logged receipts and duties.
* `System.receivedMsgs_reachable` — what the loop logs as received has arrived.
* `interactions` — in every run that does not wrap the counters, the interactions are exact, and
  the halt has none.
-/

namespace Linux

/-- The messages that `received_msg` logs. -/
def receivedMsgs (es : List Event) : List WireMsg :=
  es.filterMap fun
    | .receivedMsg magic0 magic1 type seqnum wheelSpeed =>
      some ⟨magic0, magic1, type, seqnum, wheelSpeed⟩
    | _ => none

/-- The numbers and duties that `set_pwm` logs. -/
def pwms (es : List Event) : List (UInt32 × UInt16) :=
  es.filterMap fun
    | .setPwm seqnum duty => some (seqnum, duty)
    | _ => none

/-- A message that is handled is logged, valid or not. -/
@[simp] theorem receivedMsgs_handleMsg (l : LoopState) (msg : WireMsg) :
    receivedMsgs (handleMsg l msg).events = receivedMsgs l.events ++ [msg] := by
  cases hf : headerFault msg with
  | some reason =>
    rw [handleMsg_of_fault l hf]
    simp [receivedMsgs]
  | none =>
    rw [handleMsg_of_valid l hf]
    simp [receivedMsgs]

/-- The command of a `set_pwm`. -/
def pwmTwist (pwm : UInt32 × UInt16) : Twist := twistOf pwm.1 ((pwm.2.toNat : ℚ) / 1000)

/-- Paired events publish the commands of their `set_pwm`s. -/
theorem Paired.twists_eq {es : List Event} (h : Paired es) :
    twists es = (pwms es).map pwmTwist := by
  fun_induction Paired es with
  | case1 => rfl
  | case2 seqnum duty twist es ih =>
    obtain ⟨rfl, hrest⟩ := h
    have hes := ih hrest
    simp only [twists, pwms] at hes
    simp [twists, pwms, pwmTwist, hes]
  | case3 => exact h.elim
  | case4 => exact h.elim
  | case5 e es _ hset hpub ih =>
    have hes := ih h
    simp only [twists, pwms] at hes
    cases e with
    | setPwm seqnum duty => exact (hset seqnum duty rfl).elim
    | published twist => exact (hpub twist rfl).elim
    | _ => simpa [twists, pwms] using hes

/-- Decimal strings tell numbers apart. -/
theorem toString_nat_inj {m n : ℕ} (h : toString m = toString n) : m = n := by
  have hdigits := congrArg (fun text => Nat.ofDigitChars 10 text.toList 0) h
  simpa [Nat.toString_eq_ofList_toDigits] using hdigits

/-- The counter does not repeat a number before it wraps. -/
theorem countedTo_nodup {n : ℕ} (h : n ≤ 2 ^ 32) : (countedTo n).Nodup := by
  refine List.Nodup.map_on ?_ List.nodup_range
  intro i hi j hj heq
  have hmod := toString_nat_inj heq
  rw [List.mem_range] at hi hj
  omega

end Linux

namespace System

variable {s : System}

/-- **Receipts**: the loop logs every datagram that arrives, as the sender built it. -/
theorem receivedMsgs_reachable (h : system.Reachable s) :
    Linux.receivedMsgs s.linux.events = s.arrived.map fun pkt => Linux.seenMsg pkt.payload := by
  refine (h.invariant (I := fun s => s.Inv ∧ Linux.receivedMsgs s.linux.events =
    s.arrived.map fun pkt => Linux.seenMsg pkt.payload) ⟨inv_boot, rfl⟩ ?_).2
  rintro s a s' ⟨hinv, hlog⟩ hs
  refine ⟨hinv.step hs, ?_⟩
  rcases hinv.step_loop hs with ⟨pkt, hlinux, harrived, -⟩ | ⟨hevents, -, -, harrived, -⟩
  · rw [hlinux, harrived, Linux.receivedMsgs_handleMsg, hlog, List.map_append]
    rfl
  · rw [hevents, harrived, hlog]

/-- The loop keeps the event language of `main`. -/
theorem loopTrace_reachable (h : system.Reachable s) : Linux.LoopTrace s.linux := by
  refine (h.invariant (I := fun s => s.Inv ∧ Linux.LoopTrace s.linux)
    ⟨inv_boot, Linux.loopTrace_start⟩ ?_).2
  rintro s a s' ⟨hinv, htrace⟩ hs
  refine ⟨hinv.step hs, ?_⟩
  rcases hinv.step_loop hs with ⟨pkt, hlinux, -, -⟩ | ⟨hevents, hduty, hactuator, -, -⟩
  · rw [hlinux]
    exact htrace.handleMsg _
  · obtain ⟨hhandled, hpaired, hcounted, hnext, hramped⟩ := htrace
    rw [← hevents] at hhandled hpaired hcounted hnext hramped
    rw [← hactuator] at hnext
    rw [← hduty] at hramped
    exact ⟨hhandled, hpaired, hcounted, hnext, hramped⟩

/-! ### The numbers of the sends -/

/-- The `k`-th send is logged with the number `k + 1`, and logged as it was sent. -/
theorem Inv.tx_logged (h : s.Inv) {k : ℕ} {tx : Tx} (htx : s.firmware.attempted[k]? = some tx) :
    tx.seqnum = .ofNat (k + 1) ∧
      (tx.type, tx.seqnum, tx.wheelSpeed) =
        (tx.received.type, tx.received.seqnum, tx.received.wheelSpeed) := by
  obtain ⟨sent, queued, hist⟩ := h.history
  obtain ⟨pre, v, post, -, hlen, -, hfaith⟩ := hist.sends.getElem? htx
  have htraced := hfaith.traced
  simp only [Prod.mk.injEq] at htraced
  exact ⟨by rw [htraced.2.1, hfaith.seqnum, hlen], hfaith.traced⟩

/-- The sends are numbered from 1 on. -/
theorem Inv.tx_seqnums (h : s.Inv) :
    s.firmware.attempted.map Tx.seqnum =
      (List.range s.firmware.attempted.length).map fun k => .ofNat (k + 1) := by
  apply List.ext_getElem
  · rw [List.length_map, List.length_map, List.length_range]
  intro k hk _
  rw [List.length_map] at hk
  rw [List.getElem_map, List.getElem_map, List.getElem_range]
  exact (h.tx_logged (List.getElem?_eq_getElem hk)).1

/-- The 32-bit counter tells fewer than `2 ^ 32` numbers apart. -/
theorem ofNat_succ_inj {j k : ℕ} (hj : j < 2 ^ 32) (hk : k < 2 ^ 32)
    (h : UInt32.ofNat (j + 1) = UInt32.ofNat (k + 1)) : j = k := by
  have hmod := congrArg UInt32.toNat h
  simp only [UInt32.toNat_ofNat'] at hmod
  omega

/-- What arrives is the send that it is numbered by. -/
theorem Inv.arrived_logged (h : s.Inv) {pkt : Packet} (hpkt : pkt ∈ s.arrived) :
    ∃ tx ∈ s.firmware.attempted, tx.seqnum = (Linux.seenMsg pkt.payload).seqnum ∧
      tx.type = (Linux.seenMsg pkt.payload).type ∧
      tx.wheelSpeed = (Linux.seenMsg pkt.payload).wheelSpeed ∧
      tx.seqnum = .ofNat (pkt.number + 1) := by
  obtain ⟨tx, htx, hpay⟩ := h.genuine pkt (List.mem_append_right _ hpkt)
  obtain ⟨hseqnum, htraced⟩ := h.tx_logged htx
  rw [Tx.received, hpay] at htraced
  simp only [Prod.mk.injEq] at htraced
  obtain ⟨htype, hseq, hspeed⟩ := htraced
  exact ⟨tx, List.mem_of_getElem? htx, hseq, htype, hspeed, hseqnum⟩

end System

open Demo

variable {rand : ℕ → UInt8} {s : Demo} {as : List DemoAction}

/-- The number of `wheel_speed`, as it is compared with that of the published message. -/
def Wss.Triple.key (triple : Wss.Triple) : ℤ := triple.seqnum.toNat

/-- The register holds every number below `2 ^ 32`. -/
theorem Imu.key_triple {msg : Imu} (hnonneg : 0 ≤ msg.nativeSeqnum)
    (hlt : msg.nativeSeqnum < 2 ^ 32) : msg.triple.key = msg.nativeSeqnum := by
  rw [Wss.Triple.key, Imu.triple, UInt32.ofInt, UInt32.toNat_ofNat']
  omega

/-- The number of a `set_pwm`, as it is compared with the text in a command. -/
def pwmKey (pwm : UInt32 × UInt16) : String := toString pwm.1

/-- The interactions that the logs of the run `as` give. -/
structure Interactions (as : List DemoAction) (s : Demo) : Prop where
  /-- `publish_message` of `wheel_imu` to `wheel_speed`. -/
  wheelImu : Correlation.Exact Imu.nativeSeqnum Wss.Triple.key
    (fun msg triple => triple = msg.triple) (published as) s.sensing.sensor.forwarded
  /-- `comms_tx` to `received_msg`. -/
  commsTx : Correlation.Exact Tx.seqnum Linux.WireMsg.seqnum
    (fun tx msg => tx.type = msg.type ∧ tx.wheelSpeed = msg.wheelSpeed)
    s.control.firmware.attempted (Linux.receivedMsgs s.control.linux.events)
  /-- `set_pwm` to `receive_message` of `cmd_vel`, whichever commands Gazebo gets, in any
      order. -/
  cmdVel : ∀ received : List Linux.Twist, received.Subperm (Linux.twists s.main.events) →
    Correlation.Exact pwmKey Linux.Twist.seq
      (fun pwm twist => twist.linearX = (pwm.2.toNat : ℚ) / 1000)
      (Linux.pwms s.main.events) (received.filter fun twist => s.halt ≠ some twist)
  /-- The command of a stop has no `set_pwm`, and is drawn none. -/
  halted : ∀ twist, s.halt = some twist →
    Correlation.pairs pwmKey Linux.Twist.seq (Linux.pwms s.main.events) [twist] = []

/-- The published messages, each told apart by its number. -/
theorem wheelImu_exact (h : (demo rand).run as = some s)
    (hseqnums : ((published as).map Imu.nativeSeqnum).Nodup)
    (hbounds : ∀ msg ∈ published as, 0 ≤ msg.nativeSeqnum ∧ msg.nativeSeqnum < 2 ^ 32) :
    Correlation.Exact Imu.nativeSeqnum Wss.Triple.key (fun msg triple => triple = msg.triple)
      (published as) s.sensing.sensor.forwarded := by
  have hsub := World.forwarded_sublist (world_run h)
  have hkey : ∀ msg ∈ published as, msg.triple.key = msg.nativeSeqnum := by
    intro msg hmsg
    obtain ⟨hnonneg, hlt⟩ := hbounds msg hmsg
    exact Imu.key_triple hnonneg hlt
  have hnodup : (((published as).map Imu.triple).map Wss.Triple.key).Nodup := by
    have hmap : (published as).map (Wss.Triple.key ∘ Imu.triple) =
        (published as).map Imu.nativeSeqnum := List.map_congr_left hkey
    rw [List.map_map, hmap]
    exact hseqnums
  refine Correlation.exact_of_partner hseqnums (hnodup.sublist (hsub.map _)) ?_
  intro triple htriple
  obtain ⟨msg, hmsg, rfl⟩ := List.mem_map.mp (hsub.subset htriple)
  exact ⟨msg, hmsg, (hkey msg hmsg).symm, rfl⟩

/-- The sends, each told apart by its number. -/
theorem commsTx_exact {s : System} (h : system.Reachable s)
    (hfew : s.firmware.attempted.length < 2 ^ 32) :
    Correlation.Exact Tx.seqnum Linux.WireMsg.seqnum
      (fun tx msg => tx.type = msg.type ∧ tx.wheelSpeed = msg.wheelSpeed)
      s.firmware.attempted (Linux.receivedMsgs s.linux.events) := by
  have hinv := System.inv_reachable h
  have hsound := Delivery.reachable_sound (System.refinesLedger.reachable h)
  rw [System.receivedMsgs_reachable h]
  refine Correlation.exact_of_partner ?_ ?_ ?_
  · rw [hinv.tx_seqnums]
    refine List.Nodup.map_on ?_ List.nodup_range
    intro j hj k hk heq
    rw [List.mem_range] at hj hk
    exact System.ofNat_succ_inj (by omega) (by omega) heq
  · -- Arrivals have different numbers, below the number of sends.
    have hnumbers : (s.arrived.map Packet.number).Nodup :=
      hsound.once.sublist (List.sublist_append_right _ _)
    rw [List.map_map]
    refine List.Nodup.map_on ?_ (List.Nodup.of_map _ hnumbers)
    intro pkt hpkt pkt' hpkt' heq
    obtain ⟨tx, -, hseq, -, -, hnumber⟩ := hinv.arrived_logged hpkt
    obtain ⟨tx', -, hseq', -, -, hnumber'⟩ := hinv.arrived_logged hpkt'
    have hlt : ∀ pkt ∈ s.arrived, pkt.number < s.firmware.attempted.length := fun pkt hpkt =>
      hsound.known _ (List.mem_append_right _ (List.mem_map_of_mem hpkt))
    have hsame : pkt.number = pkt'.number := by
      refine System.ofNat_succ_inj ((hlt pkt hpkt).trans hfew) ((hlt pkt' hpkt').trans hfew) ?_
      rw [← hnumber, ← hnumber', hseq, hseq']
      exact heq
    exact List.inj_on_of_nodup_map hnumbers hpkt hpkt' hsame
  · intro msg hmsg
    obtain ⟨pkt, hpkt, rfl⟩ := List.mem_map.mp hmsg
    obtain ⟨tx, htx, hseq, htype, hspeed, -⟩ := hinv.arrived_logged hpkt
    exact ⟨tx, htx, hseq, htype, hspeed⟩

/-- A stop adds nothing to the `set_pwm`s. -/
theorem Demo.pwms_main (s : Demo) :
    Linux.pwms s.main.events = Linux.pwms s.control.linux.events := by
  unfold main
  split
  · show Linux.pwms (Linux.afterLoop _).events = _
    rw [Linux.afterLoop_events]
    simp [Linux.pwms]
  · rfl

/-- The commands are numbered one by one, that of a stop included. -/
theorem Demo.twists_nodup (h : (demo rand).run as = some s)
    (hfew : s.control.firmware.attempted.length + 1 < 2 ^ 32) :
    ((Linux.twists s.main.events).map Linux.Twist.seq).Nodup := by
  have hsystem := system_reachable h
  have hinv := System.inv_reachable hsystem
  have htrace := System.loopTrace_reachable hsystem
  have hsound := Delivery.reachable_sound (System.refinesLedger.reachable hsystem)
  -- One command for each datagram that was acted on, and the one of the start-up.
  have hacted : s.control.acted.length ≤ s.control.firmware.attempted.length := by
    have hbelow : s.control.acted.map Packet.number ⊆
        List.range s.control.firmware.attempted.length :=
      fun k hk => List.mem_range.mpr
        (hsound.known k (List.mem_append_right _ (hsound.acted.subset hk)))
    have hle := (System.acted_nodup hsystem).length_le_of_subset hbelow
    rwa [List.length_map, List.length_range] at hle
  have hcommands := hinv.commands
  have hcounted : (Linux.twists s.main.events).map Linux.Twist.seq =
      Linux.countedTo (Linux.twists s.main.events).length := by
    rw [twists_main, halt]
    split
    · exact Linux.counted_concat 0 htrace.counted htrace.next
    · rw [Option.toList_none, List.append_nil]
      exact htrace.counted
  rw [hcounted]
  refine Linux.countedTo_nodup ?_
  have hhalt : s.halt.toList.length ≤ 1 := by
    cases s.halt <;> simp
  rw [twists_main, List.length_append]
  omega

/-- The commands of the loop are those of the `set_pwm`s. -/
theorem Demo.twists_eq (h : (demo rand).run as = some s) :
    Linux.twists s.main.events = (Linux.pwms s.main.events).map Linux.pwmTwist ++ s.halt.toList := by
  rw [twists_main, pwms_main, (System.loopTrace_reachable (system_reachable h)).paired.twists_eq]

/-- The commands, each told apart by its number. -/
theorem cmdVel_exact (h : (demo rand).run as = some s)
    (hfew : s.control.firmware.attempted.length + 1 < 2 ^ 32) {received : List Linux.Twist}
    (hreceived : received.Subperm (Linux.twists s.main.events)) :
    Correlation.Exact pwmKey Linux.Twist.seq
      (fun pwm twist => twist.linearX = (pwm.2.toNat : ℚ) / 1000)
      (Linux.pwms s.main.events) (received.filter fun twist => s.halt ≠ some twist) := by
  have hnodup := twists_nodup h hfew
  have htwists := twists_eq h
  refine Correlation.exact_of_partner ?_ ?_ ?_
  · rw [htwists, List.map_append, List.map_map] at hnodup
    exact hnodup.sublist (List.sublist_append_left _ _)
  · obtain ⟨taken, hperm, hsub⟩ := hreceived
    have hseqs := (hperm.map _).nodup_iff.mp (hnodup.sublist (hsub.map _))
    exact hseqs.sublist (List.filter_sublist.map _)
  · intro twist htwist
    obtain ⟨hmem, hloop⟩ := List.mem_filter.mp htwist
    have hpublished := hreceived.subset hmem
    rw [htwists, List.mem_append, Option.mem_toList] at hpublished
    rcases hpublished with hannounced | hhalt
    · obtain ⟨pwm, hpwm, rfl⟩ := List.mem_map.mp hannounced
      exact ⟨pwm, hpwm, rfl, rfl⟩
    · exact absurd hhalt (of_decide_eq_true hloop)

/-- The number of the halt is none of those before. -/
theorem halt_unpaired (h : (demo rand).run as = some s)
    (hfew : s.control.firmware.attempted.length + 1 < 2 ^ 32) {twist : Linux.Twist}
    (hhalt : s.halt = some twist) :
    Correlation.pairs pwmKey Linux.Twist.seq (Linux.pwms s.main.events) [twist] = [] := by
  have hnodup := twists_nodup h hfew
  rw [twists_eq h, hhalt, List.map_append, List.map_map] at hnodup
  have hfresh := (List.nodup_append.mp hnodup).2.2
  rw [List.eq_nil_iff_forall_not_mem]
  rintro ⟨pwm, twist'⟩ hpair
  obtain ⟨hpwm, htwist, hkey⟩ := Correlation.mem_pairs.mp hpair
  obtain rfl := List.mem_singleton.mp htwist
  exact hfresh _ (List.mem_map_of_mem hpwm) _ (by simp) hkey

/-- **The interactions of the logs**, in any interleaving and with any losses: as long as the
    simulator's numbers fit into 32 bits and do not repeat, and the counters do not wrap, every
    interaction that the sequence numbers draw is that of one message, and each receipt has one but
    that of the halt. -/
theorem interactions (h : (demo rand).run as = some s)
    (hseqnums : ((published as).map Imu.nativeSeqnum).Nodup)
    (hbounds : ∀ msg ∈ published as, 0 ≤ msg.nativeSeqnum ∧ msg.nativeSeqnum < 2 ^ 32)
    (hfew : s.control.firmware.attempted.length + 1 < 2 ^ 32) : Interactions as s where
  wheelImu := wheelImu_exact h hseqnums hbounds
  commsTx := commsTx_exact (system_reachable h) (Nat.lt_of_succ_lt hfew)
  cmdVel _ hreceived := cmdVel_exact h hfew hreceived
  halted _ hhalt := halt_unpaired h hfew hhalt

/-- The logs of two readings, which are acted on in the other order, and of a stop. -/
theorem interactions_twoCommands :
    ∃ s, (demo fun _ => 255).run twoCommands = some s ∧
      s.control.firmware.attempted.length = 2 ∧ (Linux.twists s.main.events).length = 4 ∧
      Interactions twoCommands s := by
  have hend : ((demo fun _ => 255).run twoCommands).map
      (fun s => (s.control.firmware.attempted.length, (Linux.twists s.main.events).length)) =
        some (2, 4) := by decide +kernel
  obtain ⟨s, hs, hpair⟩ := Option.map_eq_some_iff.mp hend
  obtain ⟨htwo, hfour⟩ := Prod.mk.inj hpair
  exact ⟨s, hs, htwo, hfour, interactions hs (by decide) (by decide) (by omega)⟩

end Wallbot
