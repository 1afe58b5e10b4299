import Mathlib.Data.List.DropRight
import Wallbot.Comms
import Wallbot.ControlLoop

namespace Wallbot

open Freertos

/-!
# Fault injection — the sender against the receiver

A voltage message with a nonzero spike byte makes `comms_task` spoil the header of its next
datagram.  What the receiver makes of each datagram is a function of the messages posted
before it, stated here in terms of that history alone:

* `speeds`, `spikes`, `spikePending` — the wheel speeds of a history, the number of spikes
  in it, and whether one arrived after the last wheel speed;
* `headerFaultAfter` — the fault the next datagram is to have;
* `Faithful` — what is required of the datagram sent for a speed after a history;
* `commsTask_faithful` — every datagram of every message sequence meets it.
-/

/-- A call of one of the two posting functions. -/
inductive Post where
  | sensor (wheelSpeed : Int32)
  | voltage (millivolts : Int32) (voltageSpike : UInt8)
  deriving DecidableEq, Repr

/-- The message the call posts. -/
def Post.msg : Post → CommsMsg
  | .sensor wheelSpeed => sensorMsg wheelSpeed
  | .voltage millivolts voltageSpike => voltageMsg millivolts voltageSpike

/-- A wheel speed, not a voltage. -/
def Post.isSensor : Post → Bool
  | .sensor _ => true
  | .voltage _ _ => false

/-- The spike byte of the message is nonzero. -/
def Post.isSpike : Post → Bool
  | .sensor _ => false
  | .voltage _ voltageSpike => voltageSpike ≠ 0

/-- The wheel speed that is posted, if it is one. -/
def Post.speed? : Post → Option Int32
  | .sensor wheelSpeed => some wheelSpeed
  | .voltage _ _ => none

/-! ### Histories -/

/-- The wheel speeds of a history. -/
def speeds (ps : List Post) : List Int32 := ps.filterMap Post.speed?

/-- The number of spikes in a history. -/
def spikes (ps : List Post) : ℕ := ps.countP Post.isSpike

/-- A spike arrived since the last wheel speed, or since the start. -/
def spikePending (ps : List Post) : Bool :=
  (ps.rtakeWhile fun p => !p.isSensor).any Post.isSpike

/-- The reason that the `k`-th spike selects. -/
def faultReason (k : ℕ) : Linux.InvalidMsgKind :=
  if k % 3 = 0 then .badMagic0 else if k % 3 = 1 then .badMagic1 else .badType

/-- The header fault of the datagram sent for a wheel speed after `ps`. -/
def headerFaultAfter (ps : List Post) : Option Linux.InvalidMsgKind :=
  if spikePending ps then some (faultReason (spikes ps)) else none

/-- A wheel speed more at the end. -/
@[simp] theorem speeds_concat_sensor (ps : List Post) (v : Int32) :
    speeds (ps ++ [.sensor v]) = speeds ps ++ [v] := by
  simp [speeds, Post.speed?]

/-- Voltages have no wheel speed. -/
@[simp] theorem speeds_concat_voltage (ps : List Post) (mv : Int32) (b : UInt8) :
    speeds (ps ++ [.voltage mv b]) = speeds ps := by
  simp [speeds, Post.speed?]

/-- A spike more at the end, if the post is one. -/
@[simp] theorem spikes_concat (ps : List Post) (p : Post) :
    spikes (ps ++ [p]) = spikes ps + if p.isSpike then 1 else 0 := by
  simp [spikes, List.countP_append, List.countP_singleton]

/-- A wheel speed uses up what was pending. -/
@[simp] theorem spikePending_concat_sensor (ps : List Post) (v : Int32) :
    spikePending (ps ++ [.sensor v]) = false := by
  simp [spikePending, Post.isSensor]

/-- A voltage adds to what is pending. -/
@[simp] theorem spikePending_concat_voltage (ps : List Post) (mv : Int32) (b : UInt8) :
    spikePending (ps ++ [.voltage mv b]) = (spikePending ps || (Post.voltage mv b).isSpike) := by
  simp [spikePending, Post.isSensor]

/-! ### What a datagram is to look like -/

/-- The datagram of `tx` as the receiver reads it. -/
def Freertos.Tx.received (tx : Tx) : Linux.WireMsg :=
  Linux.seenMsg tx.datagram

/-- What is required of the send for the speed `v` after the history `ps`. -/
structure Faithful (ps : List Post) (v : Int32) (tx : Tx) : Prop where
  /-- The datagram has the size of the wire message. -/
  length : tx.datagram.length = Linux.wireMsgSize
  /-- The loop takes it for the message the Linux header reads in it. -/
  handled : ∀ s, Linux.loopPass s (.datagram tx.datagram) = Linux.handleMsg s tx.received
  /-- The receiver classifies it by the spikes of the history. -/
  fault : Linux.headerFault tx.received = headerFaultAfter ps
  /-- Only the header field that the reason names is altered. -/
  magic0 : tx.received.magic0 ≠ Linux.wireMagic0 ↔ headerFaultAfter ps = some .badMagic0
  magic1 : tx.received.magic1 ≠ Linux.wireMagic1 ↔ headerFaultAfter ps = some .badMagic1
  type : tx.received.type ≠ Linux.wireTypeWheelSpeed ↔ headerFaultAfter ps = some .badType
  /-- The other fields never are. -/
  seqnum : tx.received.seqnum = UInt32.ofNat ((speeds ps).length + 1)
  wheelSpeed : tx.received.wheelSpeed = v
  /-- The trace on `comms_tx` tells what was sent. -/
  traced : (tx.type, tx.seqnum, tx.wheelSpeed)
    = (tx.received.type, tx.received.seqnum, tx.received.wheelSpeed)

/-- The receiver reads back the message that was sent. -/
@[simp] theorem txOf_received (msg : WireMsg) : (txOf msg).received = msg.toLinux := by
  have hlen : msg.image.length ≤ Linux.wireMsgSize := msg.image_length.le
  rw [Tx.received, Linux.seenMsg, txOf, List.take_of_length_le hlen, ofImage_image]

/-! ### The invariant of the task -/

/-- The locals of `comms_task` after the history `ps`. -/
structure TaskAfter (ps : List Post) (t : CommsTask) : Prop where
  mutatorState : t.mutatorState.toNat = spikes ps % 3
  voltageSpiked : t.voltageSpiked ≠ 0 ↔ spikePending ps = true
  seqnum : t.wireMsg.seqnum = UInt32.ofNat (speeds ps).length

/-- The task before any post. -/
theorem taskAfter_start : TaskAfter [] CommsTask.start where
  mutatorState := rfl
  voltageSpiked := by decide
  seqnum := rfl

/-- The mutator cycles through its three faults. -/
theorem noteSpike_mutatorState (t : CommsTask) {n : ℕ} (h : t.mutatorState.toNat = n % 3) :
    t.noteSpike.mutatorState.toNat = (n + 1) % 3 := by
  -- The byte does not overflow, because the state is below 3.
  have hadd : (t.mutatorState + 1).toNat = n % 3 + 1 := by
    rw [UInt8.toNat_add, h]
    apply Nat.mod_eq_of_lt
    show n % 3 + 1 < 256
    omega
  simp only [CommsTask.noteSpike]
  split
  · -- The state has reached 3 and wraps.
    rename_i h3
    have hthree : (3 : UInt8).toNat = 3 := rfl
    rw [h3, hthree] at hadd
    show 0 = (n + 1) % 3
    omega
  · rename_i h3
    have hne : (t.mutatorState + 1).toNat ≠ 3 := fun he => h3 (UInt8.toNat_inj.mp he)
    omega

/-- What a voltage leaves in the task. -/
theorem TaskAfter.voltage {ps : List Post} {t : CommsTask} (h : TaskAfter ps t) (mv : Int32)
    (b : UInt8) :
    TaskAfter (ps ++ [.voltage mv b]) (if b ≠ 0 then t.noteSpike else t) := by
  by_cases hb : b = 0
  · -- No spike: the task only skips the message.
    rw [if_neg (not_not.mpr hb)]
    exact ⟨by simp [Post.isSpike, hb, h.mutatorState],
      by simp [Post.isSpike, hb, ← h.voltageSpiked], by rw [speeds_concat_voltage, h.seqnum]⟩
  · rw [if_pos hb]
    refine ⟨?_, ?_, ?_⟩
    · simpa [Post.isSpike, hb] using noteSpike_mutatorState t h.mutatorState
    · simp [Post.isSpike, hb, CommsTask.noteSpike]
    · rw [speeds_concat_voltage, ← h.seqnum]; rfl

/-- What a wheel speed leaves in the task. -/
theorem TaskAfter.sensor {ps : List Post} {t : CommsTask} (h : TaskAfter ps t) (v : Int32) :
    TaskAfter (ps ++ [.sensor v]) { t with wireMsg := t.sentMsg v, voltageSpiked := 0 } where
  mutatorState := by simpa [Post.isSpike] using h.mutatorState
  voltageSpiked := by simp
  seqnum := by simp [h.seqnum]

/-! ### The datagrams -/

/-- The fault that the mutation `k` of a fresh message causes, and the only one. -/
theorem headerFault_mutate (t : CommsTask) (v : Int32) {k : UInt8} (hk : k.toNat < 3) :
    let msg := (mutate k (t.nextWireMsg v)).toLinux
    Linux.headerFault msg = some (faultReason k.toNat) ∧
      (msg.magic0 ≠ Linux.wireMagic0 ↔ faultReason k.toNat = .badMagic0) ∧
      (msg.magic1 ≠ Linux.wireMagic1 ↔ faultReason k.toNat = .badMagic1) ∧
      (msg.type ≠ Linux.wireTypeWheelSpeed ↔ faultReason k.toNat = .badType) := by
  -- One case for each value of `mutator_state`, with all header bytes known.
  have hcases : k = 0 ∨ k = 1 ∨ k = 2 := by
    simp only [← UInt8.toNat_inj, UInt8.reduceToNat]
    omega
  rcases hcases with rfl | rfl | rfl <;>
    simp [mutate, CommsTask.nextWireMsg, Freertos.WireMsg.toLinux, Linux.headerFault, faultReason,
      wireMagic0, wireMagic1, wireTypeWheelSpeed, Linux.wireMagic0, Linux.wireMagic1,
      Linux.wireTypeWheelSpeed]

/-- A fresh message has no fault. -/
theorem headerFault_nextWireMsg (t : CommsTask) (v : Int32) :
    let msg := (t.nextWireMsg v).toLinux
    Linux.headerFault msg = none ∧ msg.magic0 = Linux.wireMagic0 ∧
      msg.magic1 = Linux.wireMagic1 ∧ msg.type = Linux.wireTypeWheelSpeed :=
  ⟨rfl, rfl, rfl, rfl⟩

/-- The kind of a fault depends on the count of spikes modulo 3 only. -/
theorem faultReason_mod (n : ℕ) : faultReason (n % 3) = faultReason n := by
  rw [faultReason, faultReason, Nat.mod_mod]

/-- The header that is sent after the history `ps`: its spikes decide what is altered. -/
theorem TaskAfter.header {ps : List Post} {t : CommsTask} (h : TaskAfter ps t) (v : Int32) :
    let msg := (t.sentMsg v).toLinux
    Linux.headerFault msg = headerFaultAfter ps ∧
      (msg.magic0 ≠ Linux.wireMagic0 ↔ headerFaultAfter ps = some .badMagic0) ∧
      (msg.magic1 ≠ Linux.wireMagic1 ↔ headerFaultAfter ps = some .badMagic1) ∧
      (msg.type ≠ Linux.wireTypeWheelSpeed ↔ headerFaultAfter ps = some .badType) := by
  by_cases hp : spikePending ps = true
  · -- The spike's mutation reaches the receiver.
    have hsent : t.sentMsg v = mutate t.mutatorState (t.nextWireMsg v) :=
      if_pos (h.voltageSpiked.mpr hp)
    have hk : t.mutatorState.toNat < 3 := h.mutatorState ▸ Nat.mod_lt _ (by decide)
    have hreason : faultReason t.mutatorState.toNat = faultReason (spikes ps) := by
      rw [h.mutatorState, faultReason_mod]
    have hfault : headerFaultAfter ps = some (faultReason (spikes ps)) := if_pos hp
    obtain ⟨h1, h2, h3, h4⟩ := headerFault_mutate t v hk
    rw [← hsent, hreason] at h1 h2 h3 h4
    simp only [hfault, Option.some.injEq]
    exact ⟨h1, h2, h3, h4⟩
  · -- The fresh message is sent as it is.
    have hsent : t.sentMsg v = t.nextWireMsg v := if_neg (h.voltageSpiked.not.mpr hp)
    have hfault : headerFaultAfter ps = none := if_neg hp
    obtain ⟨h1, h2, h3, h4⟩ := headerFault_nextWireMsg t v
    rw [← hsent] at h1 h2 h3 h4
    simp [h1, h2, h3, h4, hfault]

/-- The send of a task that has seen the history `ps`. -/
theorem TaskAfter.faithful {ps : List Post} {t : CommsTask} (h : TaskAfter ps t) (v : Int32) :
    Faithful ps v (txOf (t.sentMsg v)) := by
  have hseq : (t.sentMsg v).toLinux.seqnum = UInt32.ofNat ((speeds ps).length + 1) := by
    rw [Freertos.WireMsg.toLinux, sentMsg_seqnum, h.seqnum, UInt32.ofNat_add]; rfl
  have hspeed : (t.sentMsg v).toLinux.wheelSpeed = v := sentMsg_wheelSpeed t v
  have hlen : (txOf (t.sentMsg v)).datagram.length = Linux.wireMsgSize := txOf_datagram_length _
  obtain ⟨hfault, hmagic0, hmagic1, htype⟩ := h.header v
  exact
    { length := hlen
      handled := fun s => Linux.loopPass_datagram s hlen.ge
      fault := by rw [txOf_received, hfault]
      magic0 := by rw [txOf_received, hmagic0]
      magic1 := by rw [txOf_received, hmagic1]
      type := by rw [txOf_received, htype]
      seqnum := by rw [txOf_received, hseq]
      wheelSpeed := by rw [txOf_received, hspeed]
      traced := by rw [txOf_received]; rfl }

/-! ### Whole message sequences -/

/-- The sends of a history: one for each wheel speed, faithful to what preceded it. -/
structure SentAfter (ps : List Post) (txs : List Tx) : Prop where
  length : txs.length = (speeds ps).length
  each : ∀ pre v post, ps = pre ++ .sensor v :: post →
    ∃ tx, txs[(speeds pre).length]? = some tx ∧ Faithful pre v tx

/-- Nothing is sent for no posts. -/
theorem sentAfter_nil : SentAfter [] [] where
  length := rfl
  each := by simp

/-- Where a message of a longer history stands: it is the last one, or in the shorter. -/
theorem concat_eq_append_cons {α : Type} {xs pre post : List α} {x y : α}
    (h : xs ++ [x] = pre ++ y :: post) :
    (pre = xs ∧ y = x ∧ post = []) ∨ ∃ post', xs = pre ++ y :: post' ∧ post = post' ++ [x] := by
  rcases List.eq_nil_or_concat post with rfl | ⟨post', z, rfl⟩
  · obtain ⟨hxs, hx⟩ := List.append_inj' h rfl
    exact .inl ⟨hxs.symm, (List.singleton_inj.mp hx).symm, rfl⟩
  · rw [List.concat_eq_append] at h ⊢
    rw [← List.cons_append, ← List.append_assoc] at h
    obtain ⟨hxs, hx⟩ := List.append_inj' h rfl
    exact .inr ⟨post', hxs, by rw [List.singleton_inj.mp hx]⟩

/-- A voltage adds no send to a history. -/
theorem SentAfter.voltage {ps : List Post} {txs : List Tx} (h : SentAfter ps txs) (mv : Int32)
    (b : UInt8) : SentAfter (ps ++ [.voltage mv b]) txs where
  length := by rw [speeds_concat_voltage, h.length]
  each := by
    intro pre v post heq
    rcases concat_eq_append_cons heq with ⟨-, hp, -⟩ | ⟨post', hps, -⟩
    · cases hp
    · exact h.each pre v post' hps

/-- A wheel speed adds one, faithful to the posts before it. -/
theorem SentAfter.sensor {ps : List Post} {txs : List Tx} (h : SentAfter ps txs) {v : Int32}
    {tx : Tx} (htx : Faithful ps v tx) : SentAfter (ps ++ [.sensor v]) (txs ++ [tx]) where
  length := by simp [h.length]
  each := by
    intro pre w post heq
    rcases concat_eq_append_cons heq with ⟨rfl, hw, -⟩ | ⟨post', hps, -⟩
    · -- The new speed is answered by the new send.
      cases hw
      exact ⟨tx, by rw [← h.length, List.getElem?_concat_length], htx⟩
    · obtain ⟨tx', htx', hfaith⟩ := h.each pre w post' hps
      exact ⟨tx', by rw [List.getElem?_append_left (List.getElem?_eq_some_iff.mp htx').1, htx'],
        hfaith⟩

/-- The `k`-th wheel speed of a history stands after `k` others. -/
theorem exists_sensor_of_getElem? {ps : List Post} {k : ℕ} {v : Int32}
    (h : (speeds ps)[k]? = some v) :
    ∃ pre post, ps = pre ++ .sensor v :: post ∧ (speeds pre).length = k := by
  induction ps generalizing k with
  | nil => cases h
  | cons p ps ih =>
    cases p with
    | voltage mv b =>
      obtain ⟨pre, post, rfl, hlen⟩ := ih (k := k) h
      exact ⟨.voltage mv b :: pre, post, rfl, hlen⟩
    | sensor w =>
      cases k with
      | zero =>
        cases h
        exact ⟨[], ps, rfl, rfl⟩
      | succ k =>
        obtain ⟨pre, post, rfl, hlen⟩ := ih (k := k) h
        exact ⟨.sensor w :: pre, post, rfl, congrArg (· + 1) hlen⟩

/-- The `k`-th send carries the `k`-th wheel speed. -/
theorem SentAfter.getElem? {ps : List Post} {txs : List Tx} (h : SentAfter ps txs) {k : ℕ}
    {tx : Tx} (htx : txs[k]? = some tx) :
    ∃ pre v post, ps = pre ++ .sensor v :: post ∧ (speeds pre).length = k ∧
      (speeds ps)[k]? = some v ∧ Faithful pre v tx := by
  have hk : k < (speeds ps).length := h.length ▸ (List.getElem?_eq_some_iff.mp htx).1
  obtain ⟨pre, post, hps, hlen⟩ := exists_sensor_of_getElem? (List.getElem?_eq_getElem hk)
  obtain ⟨tx', htx', hfaith⟩ := h.each pre _ post hps
  rw [hlen, htx] at htx'
  cases htx'
  exact ⟨pre, _, post, hps, hlen, List.getElem?_eq_getElem hk, hfaith⟩

/-- The receiver finds the wheel speeds in the sends, in order. -/
theorem SentAfter.wheelSpeeds {ps : List Post} {txs : List Tx} (h : SentAfter ps txs) :
    txs.map (fun tx => tx.received.wheelSpeed) = speeds ps := by
  apply List.ext_getElem
  · rw [List.length_map, h.length]
  intro k hk _
  rw [List.length_map] at hk
  obtain ⟨pre, v, post, -, -, hv, hfaith⟩ := h.getElem? (List.getElem?_eq_getElem hk)
  obtain ⟨hk', rfl⟩ := List.getElem?_eq_some_iff.mp hv
  rw [List.getElem_map, hfaith.wheelSpeed]

/-- What one more message makes of the task and of its sends. -/
theorem commsTaskPass_after {ps : List Post} {t : CommsTask} {txs : List Tx} (p : Post)
    (ht : TaskAfter ps t) (hs : SentAfter ps txs) :
    ∃ t' tx?, commsTaskPass t p.msg = some (t', tx?) ∧ TaskAfter (ps ++ [p]) t' ∧
      SentAfter (ps ++ [p]) (txs ++ tx?.toList) := by
  cases p with
  | sensor v =>
    exact ⟨_, _, commsTaskPass_sensorMsg t v, ht.sensor v, hs.sensor (ht.faithful v)⟩
  | voltage mv b =>
    refine ⟨_, _, commsTaskPass_voltageMsg t mv b, ht.voltage mv b, ?_⟩
    simpa using hs.voltage mv b

/-- **The task as a function of its history**: it accepts any posts, and both its state and its
    sends are told by them. -/
theorem commsTask_after (ps : List Post) :
    ∃ t txs, commsTask.run (ps.map Post.msg) = some (t, txs) ∧ TaskAfter ps t ∧
      SentAfter ps txs := by
  induction ps using List.reverseRecOn with
  | nil => exact ⟨_, _, rfl, taskAfter_start, sentAfter_nil⟩
  | append_singleton ps p ih =>
    -- The run over `ps` ends in `t`, and one more pass takes it on.
    obtain ⟨t, txs, hrun, ht, hs⟩ := ih
    obtain ⟨t', tx?, hpass, ht', hs'⟩ := commsTaskPass_after p ht hs
    refine ⟨t', txs ++ tx?.toList, ?_, ht', hs'⟩
    rw [List.map_append, List.map_singleton]
    exact Machine.runFrom_concat_eq_some.mpr ⟨(t, txs), hrun, by simp [commsTask, hpass]⟩

/-- **The fault-injection protocol.**  Every message sequence is turned into one datagram for
    each wheel speed, and the receiver finds in each exactly the fault that the spikes before
    it call for. -/
theorem commsTask_faithful (ps : List Post) :
    ∃ t txs, commsTask.run (ps.map Post.msg) = some (t, txs) ∧
      txs.length = (speeds ps).length ∧
      ∀ pre v post, ps = pre ++ .sensor v :: post →
        ∃ tx, txs[(speeds pre).length]? = some tx ∧ Faithful pre v tx := by
  obtain ⟨t, txs, hrun, -, hs⟩ := commsTask_after ps
  exact ⟨t, txs, hrun, hs.length, hs.each⟩

end Wallbot
