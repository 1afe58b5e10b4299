import Wallbot.ControlLoopTraffic
import Wallbot.Firmware
import Wallbot.VoltageMonitor

namespace Wallbot

open Freertos

/-!
# Noninterference of the voltage monitor

With fault injection off, the voltage monitor must not be visible in the datagrams.  The
three tasks of the firmware run in any interleaving, with any bytes from `rand8`:

* `cleanTxs` — the datagrams of a list of wheel speeds when nothing is injected;
* `commsTask_quiet` — a message sequence without spikes is sent as the clean datagrams of its
  wheel speeds, whatever voltages lie between them;
* `sensorFirmware` — the machine of the three tasks, and `QuietState`, its invariant while
  `g_do_voltage_spike` reads 0;
* `noninterference` — the two-run statement.
-/

/-! ### Quiet message sequences -/

/-- The message for the wheel speed `v` after `k` others, with nothing injected. -/
def cleanMsg (k : ℕ) (v : Int32) : WireMsg where
  magic0 := wireMagic0
  magic1 := wireMagic1
  type := wireTypeWheelSpeed
  seqnum := UInt32.ofNat (k + 1)
  wheelSpeed := v

/-- The sends for the wheel speeds `vs`, with nothing injected. -/
def cleanTxs (vs : List Int32) : List Tx :=
  vs.mapIdx fun k v => txOf (cleanMsg k v)

/-- One wheel speed more is one send more, with the next number. -/
theorem cleanTxs_concat (vs : List Int32) (v : Int32) :
    cleanTxs (vs ++ [v]) = cleanTxs vs ++ [txOf (cleanMsg vs.length v)] :=
  List.mapIdx_concat

/-- No voltage of the sequence is a spike. -/
def Quiet (ps : List Post) : Prop := ∀ p ∈ ps, p.isSpike = false

/-- Quiet sequences can be joined. -/
theorem Quiet.append {ps qs : List Post} (hp : Quiet ps) (hq : Quiet qs) : Quiet (ps ++ qs) :=
  fun p h => (List.mem_append.mp h).elim (hp p) (hq p)

/-- The beginning of a quiet sequence is quiet. -/
theorem Quiet.left {ps qs : List Post} (h : Quiet (ps ++ qs)) : Quiet ps :=
  fun p hp => h p (List.mem_append_left _ hp)

/-- A quiet sequence leaves no spike to be used up. -/
theorem Quiet.spikePending {ps : List Post} (h : Quiet ps) : spikePending ps = false := by
  rw [Wallbot.spikePending, List.any_eq_false]
  intro p hp
  rw [h p ((List.rtakeWhile_suffix _ _).subset hp)]
  exact Bool.false_ne_true

/-- A task that has seen no spike sends a clean message. -/
theorem TaskAfter.sentMsg_quiet {ps : List Post} {t : CommsTask} (h : TaskAfter ps t)
    (hq : Quiet ps) (v : Int32) : t.sentMsg v = cleanMsg (speeds ps).length v := by
  have hnot : ¬ t.voltageSpiked ≠ 0 := by
    rw [h.voltageSpiked, hq.spikePending]; exact Bool.false_ne_true
  rw [CommsTask.sentMsg, if_neg hnot, CommsTask.nextWireMsg, h.seqnum, cleanMsg,
    UInt32.ofNat_add]
  rfl

/-- **Quiet sequences.**  Their sends are a function of their wheel speeds. -/
theorem commsTask_quiet {ps : List Post} (h : Quiet ps) :
    ∃ t, commsTask.run (ps.map Post.msg) = some (t, cleanTxs (speeds ps)) := by
  induction ps using List.reverseRecOn with
  | nil => exact ⟨_, rfl⟩
  | append_singleton ps p ih =>
    obtain ⟨t, hrun⟩ := ih h.left
    -- The task the run ends in is the one its history tells of.
    obtain ⟨t', txs, hrun', ht, -⟩ := commsTask_after ps
    cases hrun.symm.trans hrun'
    rw [List.map_append, List.map_singleton, Machine.run_concat hrun]
    cases p with
    | voltage mv b =>
      rw [speeds_concat_voltage]
      exact ⟨_, commsTask_step_voltageMsg t _ mv b⟩
    | sensor v =>
      rw [speeds_concat_sensor, cleanTxs_concat, ← ht.sentMsg_quiet h.left v]
      exact ⟨_, commsTask_step_sensorMsg t _ v⟩

/-- Clean datagrams are wheel-speed messages. -/
theorem wellFormed_of_mem_cleanTxs {vs : List Int32} {tx : Tx} (h : tx ∈ cleanTxs vs) :
    Linux.WellFormed tx.datagram := by
  obtain ⟨k, hk, rfl⟩ := List.mem_mapIdx.mp h
  exact ⟨txOf_datagram_length _, rfl⟩

/-! ### The three tasks -/

/-- The firmware with the locals of the voltage monitor. -/
structure SensorState where
  core : Firmware
  monitor : VoltageMonitor

/-- What the three tasks do. -/
inductive SensorAction where
  /-- The Sensor task posts a reading. -/
  | sensorPass (wheelSpeed : Int32)
  /-- An iteration of `voltage_monitor_task`: the byte `rand8` has next, and the value read
      from `g_do_voltage_spike`. -/
  | voltagePass (rand : UInt8) (doVoltageSpike : UInt32)
  /-- An iteration of `comms_task`. -/
  | commsPass
  deriving DecidableEq, Repr

/-- The posts are always possible; `comms_task` needs a message. -/
def SensorState.step (s : SensorState) : SensorAction → Option SensorState
  | .sensorPass v => some { s with core := s.core.post (.sensor v) }
  | .voltagePass rand doVoltageSpike =>
    let (millivolts, voltageSpike) := s.monitor.posted
    some
      { core := s.core.post (.voltage millivolts voltageSpike)
        monitor := s.monitor.next rand doVoltageSpike }
  | .commsPass => s.core.commsPass.map fun (f, _) => { s with core := f }

/-- The interleavings of the three tasks; `rand` is the first byte of `rand8`. -/
def sensorFirmware (rand : UInt8) : Machine SensorState SensorAction where
  init := { core := .boot, monitor := .start rand }
  step := SensorState.step

/-- `g_do_voltage_spike` reads 0 in this step. -/
def SensorAction.injectionOff : SensorAction → Prop
  | .sensorPass _ => True
  | .voltagePass _ doVoltageSpike => doVoltageSpike = 0
  | .commsPass => True

/-- While injection is off: no spike was posted, and none is about to be. -/
structure QuietState (s : SensorState) : Prop where
  history : ∃ sent queued, s.core.History sent queued ∧ Quiet (sent ++ queued)
  monitor : s.monitor.isSpike = false

/-- A post that is no spike keeps the history quiet. -/
theorem QuietState.post {f : Firmware} {p : Post} (hp : p.isSpike = false)
    (h : ∃ sent queued, f.History sent queued ∧ Quiet (sent ++ queued)) :
    ∃ sent queued, (f.post p).History sent queued ∧ Quiet (sent ++ queued) := by
  obtain ⟨sent, queued, hist, hq⟩ := h
  rcases hist.post p with ⟨hist', -, -⟩ | ⟨-, hsame⟩
  · refine ⟨sent, queued ++ [p], hist', ?_⟩
    rw [← List.append_assoc]
    exact hq.append fun q hmem => List.mem_singleton.mp hmem ▸ hp
  · exact ⟨sent, queued, by rw [hsame]; exact hist, hq⟩

/-- **The step**: while the flag reads 0, every action keeps the state quiet. -/
theorem QuietState.step {s s' : SensorState} {a : SensorAction} (ha : a.injectionOff)
    (h : QuietState s) (hs : s.step a = some s') : QuietState s' := by
  cases a with
  | sensorPass v =>
    cases hs
    exact ⟨QuietState.post (p := .sensor v) rfl h.history, h.monitor⟩
  | voltagePass rand flag =>
    cases ha
    cases hs
    -- The post shows the voltage of this iteration, which is no spike.
    have hposted : (Post.voltage s.monitor.posted.1 s.monitor.posted.2).isSpike = false := by
      simp only [Post.isSpike, decide_eq_false_iff_not, VoltageMonitor.posted_spike, h.monitor]
      exact Bool.false_ne_true
    exact ⟨QuietState.post hposted h.history, s.monitor.next_not_isSpike rand⟩
  | commsPass =>
    obtain ⟨⟨f, tx?⟩, hpass, rfl⟩ := Option.map_eq_some_iff.mp hs
    obtain ⟨sent, queued, hist, hq⟩ := h.history
    obtain ⟨p, rest, rfl, hist', -, -⟩ := hist.commsPass hpass
    exact ⟨⟨sent ++ [p], rest, hist', by rwa [List.append_assoc]⟩, h.monitor⟩

/-- A run with fault injection off stays quiet. -/
theorem quietState_of_run {rand : UInt8} {as : List SensorAction} {s : SensorState}
    (hoff : ∀ a ∈ as, a.injectionOff) (h : (sensorFirmware rand).run as = some s) :
    QuietState s := by
  refine Machine.run_invariant ⟨⟨[], [], Firmware.history_boot, ?_⟩, ?_⟩
    (fun _ _ _ ha hs hstep => hs.step ha hstep) hoff h
  · exact fun p hp => absurd hp List.not_mem_nil
  · exact VoltageMonitor.start_not_isSpike rand

/-! ### Two runs -/

/-- Everything `comms_task` sends once it has worked off the queue. -/
def SensorState.allSends (s : SensorState) : Option (List Tx) :=
  (commsTask.runFrom (s.core.comms, s.core.attempted) s.core.queue.items).map Prod.snd

/-- What a quiet state has sent and will send: the clean datagrams of the accepted speeds. -/
theorem QuietState.allSends {s : SensorState} (h : QuietState s) :
    s.allSends = some (cleanTxs (wheelSpeeds s.core.queue.accepted)) := by
  obtain ⟨sent, queued, hist, hq⟩ := h.history
  obtain ⟨t, hrun⟩ := commsTask_quiet hq
  -- The run over all accepted posts goes through the present state.
  rw [List.map_append, Machine.run, Machine.runFrom_append, ← Machine.run, hist.ran,
    Option.bind_some] at hrun
  rw [SensorState.allSends, hist.items, hrun, hist.wheelSpeeds_accepted, speeds, speeds, speeds,
    List.filterMap_append]
  rfl

/-- The sends for the first speeds are the first of the sends. -/
theorem cleanTxs_mono (vs ws : List Int32) : cleanTxs vs <+: cleanTxs (vs ++ ws) := by
  rw [cleanTxs, cleanTxs, List.mapIdx_append]
  exact List.prefix_append _ _

/-- What a quiet state has sent: a prefix of these, and all of them if no speed is queued. -/
theorem QuietState.attempted {s : SensorState} (h : QuietState s) :
    s.core.attempted <+: cleanTxs (wheelSpeeds s.core.queue.accepted) ∧
      (wheelSpeeds s.core.queue.items = [] →
        s.core.attempted = cleanTxs (wheelSpeeds s.core.queue.accepted)) := by
  obtain ⟨sent, queued, hist, hq⟩ := h.history
  obtain ⟨t, hrun⟩ := commsTask_quiet hq.left
  have hatt : s.core.attempted = cleanTxs (speeds sent) :=
    congrArg Prod.snd (Option.some.inj (hist.ran.symm.trans hrun))
  rw [hist.wheelSpeeds_accepted, hist.wheelSpeeds_items, hatt]
  refine ⟨cleanTxs_mono _ _, fun hnil => ?_⟩
  rw [hnil, List.append_nil]

/-- Two states whose tasks send the same datagrams: the same in all once their queues are
    worked off, hence the same as far as both have come. -/
structure SameDatagrams (s₁ s₂ : SensorState) : Prop where
  all : ∃ txs, s₁.allSends = some txs ∧ s₂.allSends = some txs ∧
    s₁.core.attempted <+: txs ∧ s₂.core.attempted <+: txs ∧
    ∀ tx ∈ txs, Linux.WellFormed tx.datagram
  comparable : s₁.core.attempted <+: s₂.core.attempted ∨ s₂.core.attempted <+: s₁.core.attempted
  drained : wheelSpeeds s₁.core.queue.items = [] → wheelSpeeds s₂.core.queue.items = [] →
    s₁.core.attempted = s₂.core.attempted

/-- **Noninterference.**  While fault injection is off, runs whose queues accept the same
    wheel speeds send the same datagrams, all of them valid, whatever the voltages were. -/
theorem noninterference {rand₁ rand₂ : UInt8} {as₁ as₂ : List SensorAction}
    {s₁ s₂ : SensorState} (hoff₁ : ∀ a ∈ as₁, a.injectionOff) (hoff₂ : ∀ a ∈ as₂, a.injectionOff)
    (h₁ : (sensorFirmware rand₁).run as₁ = some s₁)
    (h₂ : (sensorFirmware rand₂).run as₂ = some s₂)
    (hacc : wheelSpeeds s₁.core.queue.accepted = wheelSpeeds s₂.core.queue.accepted) :
    SameDatagrams s₁ s₂ := by
  -- Each run is a function of the wheel speeds it accepted.
  have hq₁ := quietState_of_run hoff₁ h₁
  have hq₂ := quietState_of_run hoff₂ h₂
  have hp₁ := hq₁.attempted
  have hp₂ := hq₂.attempted
  rw [← hacc] at hp₂
  refine ⟨⟨_, hq₁.allSends, hacc ▸ hq₂.allSends, hp₁.1, hp₂.1, ?_⟩, ?_, ?_⟩
  · exact fun tx htx => wellFormed_of_mem_cleanTxs htx
  · exact List.prefix_or_prefix_of_prefix hp₁.1 hp₂.1
  · intro hnil₁ hnil₂
    rw [hp₁.2 hnil₁, hp₂.2 hnil₂]

/-- Three readings among different voltages.  The first run has sent two of them, the second
    one. -/
theorem noninterference_three_readings :
    ∃ s₁ s₂,
      (sensorFirmware 7).run
        [.sensorPass 100, .voltagePass 3 0, .sensorPass (-5), .commsPass, .commsPass, .commsPass,
          .sensorPass 7] = some s₁ ∧
      (sensorFirmware 255).run
        [.voltagePass 200 0, .sensorPass 100, .sensorPass (-5), .commsPass, .commsPass,
          .voltagePass 9 0, .sensorPass 7] = some s₂ ∧
      SameDatagrams s₁ s₂ := by
  have hoff₁ : ∀ a ∈ ([.sensorPass 100, .voltagePass 3 0, .sensorPass (-5), .commsPass,
      .commsPass, .commsPass, .sensorPass 7] : List SensorAction), a.injectionOff := by
    simp [SensorAction.injectionOff]
  have hoff₂ : ∀ a ∈ ([.voltagePass 200 0, .sensorPass 100, .sensorPass (-5), .commsPass,
      .commsPass, .voltagePass 9 0, .sensorPass 7] : List SensorAction), a.injectionOff := by
    simp [SensorAction.injectionOff]
  exact ⟨_, _, rfl, rfl, noninterference hoff₁ hoff₂ rfl rfl rfl⟩

end Wallbot
