import Wallbot.Interactions

namespace Wallbot

open Freertos

/-!
# The priorities of the tasks — `app_config.h`

The demo when the kernel schedules the tasks of the firmware.  `comms_task` has the highest
priority of the tasks that share the queue, and preemption is on, so the Sensor and the
VoltageMonitor run only while it is blocked: until it finds the network up, on the empty queue, or
in `sendto` when that has to wait for a buffer.

The asserts of these tasks look at what the kernel, the IP stack and the recorder answer, and one
that fails halts the firmware.  What they answer is the data of the steps.

* `rtos` — the machine of the demo under that rule, with `comms_task` from its start.
* `Rtos.accepted_waiting`, `Rtos.accepted_up` — which posts the queue accepts.
* `control_cycle` — once `comms_task` has found the network up, no post is refused, and every wheel
  speed is sent before the driver looks for the next one.
* `comms_yields` — only such an answer halts the firmware; `comms_task` is never stuck, and soon
  lets the other tasks run.
-/

/-- The tasks that use `g_comms_queue`. -/
inductive Task where
  | sensor
  | voltageMonitor
  | comms
  deriving DecidableEq, Repr

/-- `tskIDLE_PRIORITY`. -/
def tskIdlePriority : ℕ := 0

/-- `SENSOR_PRIO`, `VOLTAGE_MONITOR_PRIO` and `COMMS_PRIO`. -/
def Task.prio : Task → ℕ
  | .sensor => tskIdlePriority + 2
  | .voltageMonitor => tskIdlePriority + 2
  | .comms => tskIdlePriority + 3

/-- Where `comms_task` is. -/
inductive CommsPhase where
  /-- In the loop that waits for the network, which delays. -/
  | waitingForNetwork
  /-- In `comms_recv`, or between two messages. -/
  | receiving
  /-- In `sendto`, with what it is to return. -/
  | sending (sendOk : Bool)
  /-- There too, and waiting for a network buffer. -/
  | sendBlocked (sendOk : Bool)
  /-- Nowhere any more: an assert of the firmware has failed. -/
  | halted
  deriving DecidableEq, Repr

/-- The demo, and where `comms_task` is. -/
structure Rtos where
  demo : Demo
  phase : CommsPhase

/-- The actions under the scheduler: those of the demo, those of `comms_task` around its socket, and
    the answers that fail an assert. -/
inductive RtosAction where
  /-- A step of the demo. -/
  | demo (a : DemoAction)
  /-- `comms_task` finds the network down, and delays. -/
  | networkDown
  /-- `comms_task` finds the network up, leaves the loop and creates its socket. -/
  | networkUp
  /-- `sendto` waits for a network buffer. -/
  | sendBlocks
  /-- `sendto` returns. -/
  | sendReturns
  /-- `FreeRTOS_socket` returns `FREERTOS_INVALID_SOCKET`. -/
  | socketFails
  /-- `xQueueReceive` gives up.  Without `INCLUDE_vTaskSuspend`, `portMAX_DELAY` is a number of
      ticks like any other. -/
  | recvTimesOut
  /-- The recorder refuses what the task logs with `INFO`, `WARN` or `ERR`. -/
  | logFails (t : Task)

/-- The task whose step it is; the other steps happen outside of the firmware. -/
def DemoAction.task : DemoAction → Option Task
  | .world .access => some .sensor
  | .sensorPost => some .sensor
  | .voltage _ => some .voltageMonitor
  | .commsPass _ => some .comms
  | _ => none

/-- What the send of the step returns, if it has one. -/
def DemoAction.sendOk : DemoAction → Bool
  | .commsPass sendOk => sendOk
  | _ => true

namespace Rtos

/-- `comms_task` waits for something. -/
def commsBlocked (s : Rtos) : Bool :=
  match s.phase with
  | .waitingForNetwork => true
  | .receiving => s.demo.control.firmware.queue.items.isEmpty
  | .sending _ => false
  | .sendBlocked _ => true
  | .halted => false

/-- The task can run.  When the periods of the other two tasks are over is left open. -/
def ready (s : Rtos) : Task → Bool
  | .comms => !s.commsBlocked
  | _ => true

/-- `configUSE_PREEMPTION`: no ready task has a higher priority than the one that runs. -/
def runs (s : Rtos) (t : Task) : Bool :=
  s.phase ≠ .halted && s.ready t &&
    [Task.sensor, .voltageMonitor, .comms].all fun u => !s.ready u || u.prio ≤ t.prio

/-- Whether the step can be the next one. -/
def mayStep (s : Rtos) (a : DemoAction) : Bool :=
  match a.task with
  | none => true
  | some .comms => s.runs .comms && s.phase = .receiving
  | some t => s.runs t

/-- The task may be at a call of `INFO`, `WARN` or `ERR`. -/
def mayLog (s : Rtos) : Task → Bool
  | .comms =>
    match s.phase with
    -- The network is ready, or the send has failed.
    | .waitingForNetwork => true
    | .sending sendOk => !sendOk
    | .sendBlocked sendOk => !sendOk
    | _ => false
  | .sensor =>
    s.runs .sensor &&
      match s.demo.sensing.sensor.pc with
      -- The driver starts, a deadline is missed, or the post is refused.
      | .initReadCtrl | .readCtrl =>
        s.demo.pending.isEmpty ||
          s.demo.control.firmware.queue.items.length = commsQueueLength
      | _ => false
  | .voltageMonitor => s.runs .voltageMonitor

/-- `vAssertCalled`: the interrupts are off, and no task runs any more. -/
def vAssertCalled (s : Rtos) : Rtos := { s with phase := .halted }

/-- A step that the scheduler admits. -/
def step (rand : ℕ → UInt8) (s : Rtos) : RtosAction → Option Rtos
  | .demo a =>
    if s.mayStep a then
      (s.demo.step rand a).map fun d =>
        -- `comms_task` is in `sendto` once it has a datagram for it.
        if d.control.firmware.attempted.length = s.demo.control.firmware.attempted.length then
          { s with demo := d }
        else { demo := d, phase := .sending a.sendOk }
    else none
  | .networkDown => if s.phase = .waitingForNetwork then some s else none
  | .networkUp =>
    if s.phase = .waitingForNetwork then some { s with phase := .receiving } else none
  | .sendBlocks =>
    match s.phase with
    | .sending sendOk => some { s with phase := .sendBlocked sendOk }
    | _ => none
  | .sendReturns =>
    match s.phase with
    | .sending _ | .sendBlocked _ => some { s with phase := .receiving }
    | _ => none
  | .socketFails => if s.phase = .waitingForNetwork then some s.vAssertCalled else none
  | .recvTimesOut =>
    if s.phase = .receiving ∧ s.commsBlocked = true then some s.vAssertCalled else none
  | .logFails t => if s.mayLog t then some s.vAssertCalled else none

end Rtos

/-- The answer fails an assert. -/
def RtosAction.halts : RtosAction → Prop
  | .socketFails => True
  | .recvTimesOut => True
  | .logFails _ => True
  | _ => False

/-- The demo under the scheduler. -/
def rtos (rand : ℕ → UInt8) : Machine Rtos RtosAction where
  init := { demo := (demo rand).init, phase := .waitingForNetwork }
  step := Rtos.step rand

namespace Rtos

variable {rand : ℕ → UInt8} {s s' : Rtos} {a : RtosAction} {b : DemoAction}
  {as bs : List RtosAction}

/-! ### The steps -/

/-- The other tasks run while `comms_task` waits. -/
theorem runs_lower {t : Task} (ht : t ≠ .comms) : s.runs t = s.commsBlocked := by
  by_cases hhalted : s.phase = .halted
  · simp [runs, commsBlocked, hhalted]
  · cases t with
    | comms => exact absurd rfl ht
    | sensor => simp [runs, ready, Task.prio, tskIdlePriority, hhalted]
    | voltageMonitor => simp [runs, ready, Task.prio, tskIdlePriority, hhalted]

/-- `comms_task` runs whenever it can. -/
theorem runs_comms (hphase : s.phase ≠ .halted) : s.runs .comms = !s.commsBlocked := by
  simp [runs, ready, Task.prio, tskIdlePriority, hphase]

/-- A step of the demo leads into `sendto` if it attempts a send. -/
theorem step_demo (hs : s.step rand (.demo b) = some s') :
    s.mayStep b = true ∧ s.demo.step rand b = some s'.demo ∧
      s'.phase =
        if s'.demo.control.firmware.attempted.length = s.demo.control.firmware.attempted.length
        then s.phase else .sending b.sendOk := by
  simp only [step, Option.ite_none_right_eq_some, Option.map_eq_some_iff] at hs
  obtain ⟨hmay, d, hd, rfl⟩ := hs
  split
  · exact ⟨hmay, hd, rfl⟩
  · exact ⟨hmay, hd, rfl⟩

/-- **The steps**: one of the demo that the scheduler admits, one of `comms_task` alone, or the
    end of the firmware. -/
theorem step_cases (hs : s.step rand a = some s') :
    (∃ b, a = .demo b ∧ s.mayStep b = true ∧ s.demo.step rand b = some s'.demo ∧
      s'.phase =
        if s'.demo.control.firmware.attempted.length = s.demo.control.firmware.attempted.length
        then s.phase else .sending b.sendOk) ∨
    (s'.demo = s.demo ∧
      ((a = .networkDown ∧ s.phase = .waitingForNetwork ∧ s'.phase = .waitingForNetwork) ∨
        (a = .networkUp ∧ s.phase = .waitingForNetwork ∧ s'.phase = .receiving) ∨
        (∃ sendOk, a = .sendBlocks ∧ s.phase = .sending sendOk ∧
          s'.phase = .sendBlocked sendOk) ∨
        (∃ sendOk, a = .sendReturns ∧
          (s.phase = .sending sendOk ∨ s.phase = .sendBlocked sendOk) ∧ s'.phase = .receiving) ∨
        (a.halts ∧ s'.phase = .halted))) := by
  cases a with
  | demo b => exact .inl ⟨b, rfl, step_demo hs⟩
  | networkDown =>
    simp only [step, Option.ite_none_right_eq_some, Option.some.injEq] at hs
    obtain ⟨hphase, rfl⟩ := hs
    exact .inr ⟨rfl, .inl ⟨rfl, hphase, hphase⟩⟩
  | networkUp =>
    simp only [step, Option.ite_none_right_eq_some, Option.some.injEq] at hs
    obtain ⟨hphase, rfl⟩ := hs
    exact .inr ⟨rfl, .inr (.inl ⟨rfl, hphase, rfl⟩)⟩
  | sendBlocks =>
    simp only [step] at hs
    split at hs
    · rename_i sendOk hphase
      obtain rfl := Option.some.inj hs
      exact .inr ⟨rfl, .inr (.inr (.inl ⟨sendOk, rfl, hphase, rfl⟩))⟩
    · cases hs
  | sendReturns =>
    simp only [step] at hs
    split at hs
    · rename_i sendOk hphase
      obtain rfl := Option.some.inj hs
      exact .inr ⟨rfl, .inr (.inr (.inr (.inl ⟨sendOk, rfl, .inl hphase, rfl⟩)))⟩
    · rename_i sendOk hphase
      obtain rfl := Option.some.inj hs
      exact .inr ⟨rfl, .inr (.inr (.inr (.inl ⟨sendOk, rfl, .inr hphase, rfl⟩)))⟩
    · cases hs
  | socketFails =>
    simp only [step, Option.ite_none_right_eq_some, Option.some.injEq] at hs
    obtain ⟨-, rfl⟩ := hs
    exact .inr ⟨rfl, .inr (.inr (.inr (.inr ⟨trivial, rfl⟩)))⟩
  | recvTimesOut =>
    simp only [step, Option.ite_none_right_eq_some, Option.some.injEq] at hs
    obtain ⟨-, rfl⟩ := hs
    exact .inr ⟨rfl, .inr (.inr (.inr (.inr ⟨trivial, rfl⟩)))⟩
  | logFails t =>
    simp only [step, Option.ite_none_right_eq_some, Option.some.injEq] at hs
    obtain ⟨-, rfl⟩ := hs
    exact .inr ⟨rfl, .inr (.inr (.inr (.inr ⟨trivial, rfl⟩)))⟩

/-- `comms_task` leaves its first loop. -/
theorem step_networkUp (hs : (rtos rand).step s .networkUp = some s') :
    s.phase = .waitingForNetwork ∧ s'.phase = .receiving ∧ s'.demo = s.demo := by
  simp only [rtos, step, Option.ite_none_right_eq_some, Option.some.injEq] at hs
  obtain ⟨hphase, rfl⟩ := hs
  exact ⟨hphase, rfl, rfl⟩

/-- The demo is a part of it. -/
def demoPart (rand : ℕ → UInt8) : Machine.Component (rtos rand) (Wallbot.demo rand) where
  part := Rtos.demo
  own _ := fun
    | .demo b => [b]
    | _ => []
  part_init := rfl
  part_step := by
    intro s a s' hs
    rcases step_cases hs with ⟨b, rfl, -, hb, -⟩ | ⟨hsame, hown⟩
    · show (s.demo.step rand b).bind _ = _
      rw [hb]
      rfl
    · rw [hsame]
      rcases hown with ⟨rfl, -⟩ | ⟨rfl, -⟩ | ⟨sendOk, rfl, -⟩ | ⟨sendOk, rfl, -⟩ | ⟨hhalts, -⟩
      · rfl
      · rfl
      · rfl
      · rfl
      · cases a with
        | demo b => exact hhalts.elim
        | _ => rfl

end Rtos

/-! ### The posts of a run -/

namespace Demo

variable {rand : ℕ → UInt8} {s s' : Demo} {b : DemoAction} {as : List DemoAction}

/-- The post of a step, if it is one. -/
def stepPosts (s : Demo) (b : DemoAction) : List Post :=
  (s.systemAction b).filterMap fun
    | .post p => some p
    | _ => none

/-- The posts of a run, whether or not the queue accepts them. -/
def posts (rand : ℕ → UInt8) (as : List DemoAction) : List Post :=
  ((systemPart rand).trace as).filterMap fun
    | .post p => some p
    | _ => none

/-- One action more adds its own post. -/
theorem posts_concat (h : (demo rand).run as = some s) (b : DemoAction) :
    posts rand (as ++ [b]) = posts rand as ++ s.stepPosts b := by
  rw [posts, (systemPart rand).trace_concat h, List.filterMap_append]
  rfl

/-- **The firmware in a step**: it takes a post, or a message, or stays as it is. -/
theorem step_firmware (hs : s.step rand b = some s') :
    (∃ p, s.stepPosts b = [p] ∧ s'.control.firmware = s.control.firmware.post p ∧
      (b.task = some .sensor ∨ b.task = some .voltageMonitor)) ∨
    (∃ tx?, b.task = some .comms ∧ s.stepPosts b = [] ∧
      s.control.firmware.commsPass = some (s'.control.firmware, tx?)) ∨
    (s.stepPosts b = [] ∧ s'.control.firmware = s.control.firmware ∧ b.task ≠ some .comms) := by
  have hother {c : SystemAction} (hposts : s.stepPosts b = [])
      (htask : b.task = none) (hc : ∀ p, c ≠ .post p) (hc' : ∀ sendOk, c ≠ .commsPass sendOk)
      (hstep : (s.control.step c).map (fun sys => { s with control := sys }) = some s') :
      s.stepPosts b = [] ∧ s'.control.firmware = s.control.firmware ∧ b.task ≠ some .comms := by
    obtain ⟨sys, hsys, rfl⟩ := Option.map_eq_some_iff.mp hstep
    refine ⟨hposts, ?_, by simp [htask]⟩
    rcases System.step_firmware hsys with ⟨p, rfl, -⟩ | ⟨sendOk, tx?, rfl, -⟩ | ⟨-, -, hsame⟩
    · exact absurd rfl (hc p)
    · exact absurd rfl (hc' sendOk)
    · exact hsame
  cases b with
  | world c =>
    obtain ⟨d, w, hd, -, rfl⟩ | ⟨v, rest, hd, -⟩ | ⟨flag, hd, -⟩ | ⟨d, sys, hd, -⟩ | ⟨hd, -⟩ :=
      step_cases hs
    · refine .inr (.inr ⟨rfl, rfl, ?_⟩)
      cases c <;> simp [DemoAction.task]
    · cases hd
    · cases hd
    · cases hd
    · cases hd
  | sensorPost =>
    simp only [step] at hs
    split at hs
    · cases hs
    · obtain rfl := Option.some.inj hs
      rename_i v rest hpending
      exact .inl ⟨.sensor v, by rw [stepPosts, systemAction, hpending]; rfl, rfl, .inl rfl⟩
  | voltage flag =>
    obtain rfl := Option.some.inj hs
    exact .inl ⟨voltagePost s.walk, rfl, rfl, .inr rfl⟩
  | commsPass sendOk =>
    obtain ⟨sys, hsys, rfl⟩ := Option.map_eq_some_iff.mp hs
    obtain ⟨⟨f, tx?⟩, hpass, rfl⟩ := Option.map_eq_some_iff.mp hsys
    exact .inr (.inl ⟨tx?, rfl, rfl, hpass⟩)
  | lose i => exact .inr (.inr (hother (c := .lose i) rfl rfl (by simp) (by simp) hs))
  | linuxIdle =>
    have hpass := (linuxStep_eq_some hs).2
    exact .inr (.inr (hother (c := .linuxIdle) rfl rfl (by simp) (by simp) hpass))
  | linuxInterrupted =>
    have hpass := (linuxStep_eq_some hs).2
    exact .inr (.inr (hother (c := .linuxInterrupted) rfl rfl (by simp) (by simp) hpass))
  | linuxRecv i =>
    have hpass := (linuxStep_eq_some hs).2
    exact .inr (.inr (hother (c := .linuxRecv i) rfl rfl (by simp) (by simp) hpass))
  | stop =>
    simp only [step, Option.ite_none_left_eq_some, Option.some.injEq] at hs
    obtain ⟨-, rfl⟩ := hs
    exact .inr (.inr ⟨rfl, rfl, by simp [DemoAction.task]⟩)

/-- The driver's readings are those that were posted, and those that wait for it. -/
theorem readings_eq (h : (demo rand).run as = some s) :
    s.sensing.sensor.forwarded.map Wss.Triple.wheelSpeed = speeds (posts rand as) ++ s.pending := by
  refine Machine.run_history_of_run (I := fun as s =>
    s.sensing.sensor.forwarded.map Wss.Triple.wheelSpeed = speeds (posts rand as) ++ s.pending)
    rfl ?_ h
  intro as s a s' has ih hs
  rw [posts_concat has, speeds, List.filterMap_append, ← speeds, List.append_assoc]
  rcases step_cases hs with ⟨b, w, rfl, hw, rfl⟩ | ⟨v, rest, rfl, hpending, rfl⟩ |
    ⟨flag, rfl, rfl⟩ | ⟨b, sys, -, hb, hpost, -, rfl⟩ | ⟨rfl, -, rfl⟩
  · obtain ⟨new, hnew⟩ := World.forwarded_step hw
    rw [newSpeeds, ← hnew, List.drop_left, List.map_append, ih, List.append_assoc]
    rfl
  · rw [stepPosts, systemAction, hpending, ih, hpending]
    rfl
  · rw [ih]
    rfl
  · have hnone : s.stepPosts a = [] := by
      rw [stepPosts, hb]
      cases b with
      | post p => exact absurd rfl (hpost p)
      | _ => rfl
    rw [hnone, ih]
    rfl
  · rw [ih]
    rfl

end Demo

namespace Rtos

variable {rand : ℕ → UInt8} {s s' s₁ : Rtos} {a : RtosAction} {as bs : List RtosAction}

/-- The posts of a run under the scheduler. -/
def posts (rand : ℕ → UInt8) (as : List RtosAction) : List Post :=
  Demo.posts rand ((demoPart rand).trace as)

/-- One action more adds its own post, and none if it is one of the socket's. -/
theorem posts_concat (h : (rtos rand).run as = some s) (a : RtosAction) :
    posts rand (as ++ [a]) = posts rand as ++
      match a with
      | .demo b => s.demo.stepPosts b
      | _ => [] := by
  rw [posts, (demoPart rand).trace_concat h]
  cases a with
  | demo b => exact Demo.posts_concat ((demoPart rand).run h) b
  | _ =>
    rw [List.append_nil]
    exact congrArg (Demo.posts rand) (List.append_nil _)

/-- **The steps, by the firmware.**  A post comes while `comms_task` is blocked, a message is
    taken while it receives, and no other step changes the firmware. -/
theorem step_firmware (hs : s.step rand a = some s') (has : (rtos rand).run as = some s) :
    (∃ p, posts rand (as ++ [a]) = posts rand as ++ [p] ∧ s.commsBlocked = true ∧
      s'.demo.control.firmware = s.demo.control.firmware.post p ∧ s'.phase = s.phase) ∨
    (∃ tx?, posts rand (as ++ [a]) = posts rand as ∧ s.phase = .receiving ∧
      s.demo.control.firmware.commsPass = some (s'.demo.control.firmware, tx?) ∧
      ∃ sendOk, s'.phase = if tx? = none then .receiving else .sending sendOk) ∨
    (posts rand (as ++ [a]) = posts rand as ∧
      s'.demo.control.firmware = s.demo.control.firmware ∧
      (s'.phase = s.phase ∨ s'.phase = .receiving ∨
        (∃ sendOk, a = .sendBlocks ∧ s'.phase = .sendBlocked sendOk) ∨ s'.phase = .halted)) := by
  rw [posts_concat has]
  rcases step_cases hs with ⟨b, rfl, hmay, hb, hphase⟩ | ⟨hsame, hown⟩
  · rcases Demo.step_firmware hb with ⟨p, hposts, hfirmware, htask⟩ | ⟨tx?, htask, hposts, hpass⟩ |
      ⟨hposts, hfirmware, htask⟩
    · left
      refine ⟨p, by simp only [hposts], ?_, hfirmware, ?_⟩
      · rcases htask with htask | htask
        · rw [mayStep, htask] at hmay
          exact (runs_lower (t := .sensor) (by decide)).symm.trans hmay
        · rw [mayStep, htask] at hmay
          exact (runs_lower (t := .voltageMonitor) (by decide)).symm.trans hmay
      · have hatt : (s.demo.control.firmware.post p).attempted =
            s.demo.control.firmware.attempted := by rw [Firmware.post_eq]
        rw [hphase, hfirmware, hatt, if_pos rfl]
    · right
      left
      rw [mayStep, htask] at hmay
      simp only [Bool.and_eq_true, decide_eq_true_eq] at hmay
      obtain ⟨-, hreceiving⟩ := hmay
      refine ⟨tx?, by simp only [hposts, List.append_nil], hreceiving, hpass, b.sendOk, ?_⟩
      rw [hphase, (Firmware.commsPass_cases hpass).2.2, List.length_append, hreceiving]
      cases tx? <;> simp
    · right
      right
      refine ⟨by simp only [hposts, List.append_nil], hfirmware, .inl ?_⟩
      rw [hphase, hfirmware, if_pos rfl]
  · right
    right
    rw [hsame]
    rcases hown with ⟨rfl, hwait, hphase⟩ | ⟨rfl, -, hphase⟩ | ⟨sendOk, rfl, -, hphase⟩ |
      ⟨sendOk, rfl, -, hphase⟩ | ⟨hhalts, hphase⟩
    · exact ⟨List.append_nil _, rfl, .inl (hphase.trans hwait.symm)⟩
    · exact ⟨List.append_nil _, rfl, .inr (.inl hphase)⟩
    · exact ⟨List.append_nil _, rfl, .inr (.inr (.inl ⟨sendOk, rfl, hphase⟩))⟩
    · exact ⟨List.append_nil _, rfl, .inr (.inl hphase)⟩
    · refine ⟨?_, rfl, .inr (.inr (.inr hphase))⟩
      cases a with
      | demo b => exact hhalts.elim
      | _ => exact List.append_nil _

/-! ### The posts that are accepted -/

/-- **While `comms_task` waits for the network**, the queue takes the first eight posts, and keeps
    them. -/
theorem accepted_waiting (h : (rtos rand).run as = some s) (hphase : s.phase = .waitingForNetwork) :
    s.demo.control.firmware.queue.items = s.demo.control.firmware.queue.accepted ∧
      s.demo.control.firmware.queue.accepted = ((posts rand as).take 8).map Post.msg := by
  refine Machine.run_history_of_run (I := fun as s => s.phase = .waitingForNetwork →
    s.demo.control.firmware.queue.items = s.demo.control.firmware.queue.accepted ∧
      s.demo.control.firmware.queue.accepted = ((posts rand as).take 8).map Post.msg)
    (fun _ => ⟨rfl, rfl⟩) ?_ h hphase
  intro as s a s' has ih hs hphase
  rcases step_firmware hs has with ⟨p, hposts, -, hfirmware, hsame⟩ |
    ⟨tx?, -, -, -, sendOk, hphase'⟩ | ⟨hposts, hfirmware, hphase'⟩
  · obtain ⟨hitems, haccepted⟩ := ih (hsame ▸ hphase)
    rw [hfirmware, hposts]
    rcases Firmware.post_cases s.demo.control.firmware p with
      ⟨hroom, hitems', haccepted'⟩ | ⟨hfull, hf⟩
    · rw [hitems', haccepted', hitems]
      refine ⟨rfl, ?_⟩
      -- There is room, so there were fewer than eight posts.
      have hfew : (posts rand as).length < 8 := by
        rw [hitems, haccepted, List.length_map, List.length_take] at hroom
        omega
      rw [haccepted, List.take_of_length_le hfew.le, List.take_of_length_le (by simpa using hfew),
        List.map_append]
      rfl
    · rw [hf]
      refine ⟨hitems, ?_⟩
      have hmany : 8 ≤ (posts rand as).length := by
        rw [hitems, haccepted, List.length_map, List.length_take] at hfull
        omega
      rw [haccepted, List.take_append_of_le_length hmany]
  · rw [hphase'] at hphase
    split at hphase <;> cases hphase
  · rw [hposts, hfirmware]
    rcases hphase' with hsame | hreceiving | ⟨sendOk, -, hblocked⟩ | hhalted
    · exact ih (hsame ▸ hphase)
    · rw [hreceiving] at hphase
      cases hphase
    · rw [hblocked] at hphase
      cases hphase
    · rw [hhalted] at hphase
      cases hphase

/-- `comms_task` has left the loop, and no send makes it wait. -/
def Up (s : Rtos) : Prop :=
  match s.phase with
  | .receiving | .sending _ | .halted => True
  | .waitingForNetwork | .sendBlocked _ => False

/-- Then it waits on the empty queue only. -/
theorem items_eq_nil (hup : s.Up) (hblocked : s.commsBlocked = true) :
    s.demo.control.firmware.queue.items = [] := by
  rw [Up] at hup
  rw [commsBlocked] at hblocked
  cases hphase : s.phase with
  | waitingForNetwork => rw [hphase] at hup; exact hup.elim
  | receiving =>
    rw [hphase] at hblocked
    exact List.isEmpty_iff.mp hblocked
  | sending sendOk => rw [hphase] at hblocked; cases hblocked
  | sendBlocked sendOk => rw [hphase] at hup; exact hup.elim
  | halted => rw [hphase] at hblocked; cases hblocked

/-- **Once `comms_task` has found the network up**, the queue takes every post. -/
theorem accepted_up (h₁ : (rtos rand).run as = some s₁)
    (h : (rtos rand).run (as ++ bs) = some s) (hup : s₁.Up)
    (hsend : ∀ a ∈ bs, a ≠ .sendBlocks) :
    s.Up ∧ ∃ after, posts rand (as ++ bs) = posts rand as ++ after ∧
      s.demo.control.firmware.queue.accepted =
        s₁.demo.control.firmware.queue.accepted ++ after.map Post.msg := by
  refine Machine.run_rest (I := fun bs s => (∀ a ∈ bs, a ≠ .sendBlocks) → s.Up ∧
    ∃ after, posts rand (as ++ bs) = posts rand as ++ after ∧
      s.demo.control.firmware.queue.accepted =
        s₁.demo.control.firmware.queue.accepted ++ after.map Post.msg) h₁ ?_ ?_ h hsend
  · intro _
    exact ⟨hup, [], by rw [List.append_nil, List.append_nil], (List.append_nil _).symm⟩
  · intro bs s a s' has ih hs hsend
    obtain ⟨hup, after, hposts, haccepted⟩ := ih fun b hb => hsend b (List.mem_append_left _ hb)
    rw [← List.append_assoc]
    rcases step_firmware hs has with ⟨p, hposts', hblocked, hfirmware, hsame⟩ |
      ⟨tx?, hposts', -, hpass, sendOk, hphase⟩ | ⟨hposts', hfirmware, hphase⟩
    · -- It is blocked on the empty queue, so there is room.
      have hempty := items_eq_nil hup hblocked
      refine ⟨by rw [Up, hsame]; exact hup, after ++ [p], ?_, ?_⟩
      · rw [hposts', hposts, List.append_assoc]
      · rcases Firmware.post_cases s.demo.control.firmware p with ⟨-, -, haccepted'⟩ | ⟨hfull, -⟩
        · rw [hfirmware, haccepted', haccepted, List.append_assoc, List.map_append]
          rfl
        · rw [hempty] at hfull
          cases hfull
    · refine ⟨?_, after, hposts'.trans hposts, ?_⟩
      · rw [Up, hphase]
        cases tx? <;> trivial
      · rw [(Firmware.commsPass_cases hpass).2.1, haccepted]
    · refine ⟨?_, after, hposts'.trans hposts, by rw [hfirmware, haccepted]⟩
      rcases hphase with hsame | hreceiving | ⟨sendOk, rfl, -⟩ | hhalted
      · rw [Up, hsame]
        exact hup
      · rw [Up, hreceiving]
        trivial
      · exact absurd rfl (hsend .sendBlocks (by simp))
      · rw [Up, hhalted]
        trivial

/-! ### What is sent -/

/-- The tasks, the network and the loop keep their invariant under the scheduler. -/
theorem inv (h : (rtos rand).run as = some s) : s.demo.control.Inv :=
  System.inv_reachable (Demo.system_reachable ((demoPart rand).run h))

/-- The speeds on `comms_tx` are those that the queue accepted, up to those that wait in it. -/
theorem sent_eq (h : (rtos rand).run as = some s) :
    s.demo.control.firmware.attempted.map Tx.wheelSpeed ++
        wheelSpeeds s.demo.control.firmware.queue.items =
      wheelSpeeds s.demo.control.firmware.queue.accepted := by
  have hinv := inv h
  obtain ⟨sent, queued, hist⟩ := hinv.history
  have hlogged : s.demo.control.firmware.attempted.map Tx.wheelSpeed =
      s.demo.control.firmware.attempted.map fun tx => tx.received.wheelSpeed := by
    refine List.map_congr_left fun tx htx => ?_
    obtain ⟨k, hk⟩ := List.getElem?_of_mem htx
    have htraced := (hinv.tx_logged hk).2
    simp only [Prod.mk.injEq] at htraced
    exact htraced.2.2
  rw [hlogged, hist.sends.wheelSpeeds, hist.wheelSpeeds_items, hist.wheelSpeeds_accepted]

/-- What becomes of the posts `before` `comms_task` found the network up, and of those `after`. -/
structure ControlCycle (rand : ℕ → UInt8) (before after : List Post) (s : Rtos) : Prop where
  /-- The first eight posts wait for the network, and no later post is refused. -/
  accepted : s.demo.control.firmware.queue.accepted = (before.take 8 ++ after).map Post.msg
  /-- When the Sensor or the VoltageMonitor can run, all of them have been handled. -/
  handled : s.commsBlocked = true →
    s.demo.control.firmware.attempted.map Tx.wheelSpeed = speeds (before.take 8) ++ speeds after
  /-- Before its next access to the sensor, the driver has posted all that it has read. -/
  cycle : (s.step rand (.demo (.world .access))).isSome →
    s.demo.sensing.sensor.forwarded.map Wss.Triple.wheelSpeed = speeds before ++ speeds after ∧
      s.demo.control.firmware.attempted.map Tx.wheelSpeed = speeds (before.take 8) ++ speeds after

/-- An access of the driver finds nothing pending, and `comms_task` blocked. -/
theorem access_enabled (h : (s.step rand (.demo (.world .access))).isSome) :
    s.demo.pending = [] ∧ s.commsBlocked = true := by
  obtain ⟨s', hs⟩ := Option.isSome_iff_exists.mp h
  simp only [step, Option.ite_none_right_eq_some, Option.map_eq_some_iff] at hs
  obtain ⟨hmay, d, hd, -⟩ := hs
  constructor
  · simp only [Demo.step] at hd
    split at hd
    · cases hd
    · rename_i hpending
      by_contra hne
      exact hpending ⟨trivial, hne⟩
  · exact (runs_lower (t := .sensor) (by decide)).symm.trans hmay

end Rtos

open Rtos in
/-- **The control cycle of the firmware**: as long as no send has to wait for a buffer, the posts
    from the moment that `comms_task` finds the network up are all accepted, and every wheel speed
    among them is on `comms_tx` before the driver looks for the next one. -/
theorem control_cycle {rand : ℕ → UInt8} {as bs : List RtosAction} {s : Rtos}
    (h : (rtos rand).run (as ++ .networkUp :: bs) = some s)
    (hsend : ∀ a ∈ bs, a ≠ .sendBlocks) :
    ∃ after, posts rand (as ++ .networkUp :: bs) = posts rand as ++ after ∧
      ControlCycle rand (posts rand as) after s := by
  rw [← List.singleton_append, ← List.append_assoc] at h ⊢
  obtain ⟨s₁, h₁, -⟩ : ∃ s₁, (rtos rand).run (as ++ [.networkUp]) = some s₁ ∧
      (rtos rand).runFrom s₁ bs = some s := by
    rw [Machine.run, Machine.runFrom_append] at h
    exact Option.bind_eq_some_iff.mp h
  obtain ⟨s₀, h₀, hs⟩ := Machine.runFrom_concat_eq_some.mp h₁
  obtain ⟨hwait, hup, hsame⟩ := step_networkUp hs
  have hbefore : posts rand (as ++ [.networkUp]) = posts rand as := by
    rw [posts_concat h₀]
    exact List.append_nil _
  have hup₁ : s₁.Up := by
    rw [Up, hup]
    trivial
  obtain ⟨hup', after, hposts, haccepted⟩ := accepted_up h₁ h hup₁ hsend
  rw [hsame, (accepted_waiting h₀ hwait).2, ← List.map_append] at haccepted
  rw [hbefore] at hposts
  have hhandled : s.commsBlocked = true → s.demo.control.firmware.attempted.map Tx.wheelSpeed =
      speeds ((posts rand as).take 8) ++ speeds after := by
    intro hblocked
    have hsent := sent_eq h
    rw [items_eq_nil hup' hblocked, haccepted, wheelSpeeds_map_msg, speeds,
      List.filterMap_append] at hsent
    exact (List.append_nil _).symm.trans hsent
  refine ⟨after, hposts, haccepted, hhandled, fun henabled => ?_⟩
  obtain ⟨hpending, hblocked⟩ := access_enabled henabled
  have hread : s.demo.sensing.sensor.forwarded.map Wss.Triple.wheelSpeed =
      speeds (posts rand (as ++ [.networkUp] ++ bs)) ++ s.demo.pending :=
    Demo.readings_eq ((demoPart rand).run h)
  refine ⟨?_, hhandled hblocked⟩
  rw [hread, hpending, List.append_nil, hposts, speeds, List.filterMap_append]
  rfl

/-- Nine voltages are posted before `comms_task` finds the network up. -/
def ninePosts : List RtosAction :=
  [.demo (.world .access), .demo (.world .access)] ++ List.replicate 9 (.demo (.voltage 0))

/-- They are handled then, and a reading after them. -/
def lateReading : List RtosAction :=
  List.replicate 8 (.demo (.commsPass true)) ++ (oneReading.drop 2).map .demo ++
    [.demo .sensorPost, .demo (.commsPass true), .sendReturns]

/-- A reading that comes after the network is up is sent at once. -/
theorem control_cycle_lateReading :
    ∃ s, (rtos fun _ => 255).run (ninePosts ++ .networkUp :: lateReading) = some s ∧
      s.demo.control.firmware.attempted.length = 1 ∧
      ∃ after, Rtos.ControlCycle (fun _ => 255) (Rtos.posts (fun _ => 255) ninePosts) after s := by
  have hone : ((rtos fun _ => 255).run (ninePosts ++ .networkUp :: lateReading)).map
      (fun s => s.demo.control.firmware.attempted.length) = some 1 := by decide +kernel
  obtain ⟨s, hs, hone⟩ := Option.map_eq_some_iff.mp hone
  have hsend : ∀ a ∈ lateReading, a ≠ .sendBlocks := by
    simp [lateReading, oneReading]
  obtain ⟨after, -, hcycle⟩ := control_cycle hs hsend
  exact ⟨s, hs, hone, after, hcycle⟩

/-! ### Progress -/

/-- A step of `comms_task` that is not a delay. -/
def RtosAction.ofComms : RtosAction → Prop
  | .demo (.commsPass _) => True
  | .networkUp => True
  | .sendBlocks => True
  | .sendReturns => True
  | _ => False

/-- The steps to the next message. -/
def CommsPhase.work : CommsPhase → ℕ
  | .waitingForNetwork => 1
  | .receiving => 0
  | .sending _ => 2
  | .sendBlocked _ => 1
  | .halted => 0

/-- A message takes at most two steps more once it is taken. -/
theorem CommsPhase.work_le (phase : CommsPhase) : phase.work ≤ 2 := by
  cases phase <;> simp [work]

namespace Rtos

variable {rand : ℕ → UInt8} {s s' : Rtos} {a : RtosAction} {as : List RtosAction}

/-- The work that `comms_task` has to do: the queued messages, and what it is at. -/
def work (s : Rtos) : ℕ :=
  3 * s.demo.control.firmware.queue.items.length + s.phase.work

/-- With 8 messages of three steps each, 26 steps are the most. -/
theorem work_le (s : Rtos) : s.work ≤ 26 := by
  have hbound : s.demo.control.firmware.queue.items.length ≤ 8 :=
    s.demo.control.firmware.queue.bound
  have hphase := s.phase.work_le
  rw [work]
  omega

/-- Every step of `comms_task` does some of it. -/
theorem work_decreases (ha : a.ofComms) (hs : (rtos rand).step s a = some s') :
    s'.work < s.work := by
  rcases step_cases hs with ⟨b, rfl, hmay, hb, hphase⟩ | ⟨hsame, hown⟩
  · cases b with
    | commsPass sendOk =>
      rcases Demo.step_firmware hb with ⟨p, -, -, htask | htask⟩ | ⟨tx?, htask, -, hpass⟩ |
        ⟨-, -, htask⟩
      · cases htask
      · cases htask
      · rw [mayStep, htask] at hmay
        simp only [Bool.and_eq_true, decide_eq_true_eq] at hmay
        have hlen := (Firmware.commsPass_cases hpass).1
        have hphase' := s'.phase.work_le
        rw [work, work, hlen]
        omega
      · exact absurd rfl htask
    | _ => exact ha.elim
  · rw [work, work, hsame]
    rcases hown with ⟨rfl, -⟩ | ⟨-, hwait, hphase⟩ | ⟨sendOk, -, hsending, hphase⟩ |
      ⟨sendOk, -, hsend, hphase⟩ | ⟨hhalts, -⟩
    · exact ha.elim
    · rw [hwait, hphase]
      exact Nat.lt_succ_self _
    · rw [hsending, hphase]
      exact Nat.lt_succ_self _
    · rcases hsend with hsend | hsend
      · rw [hsend, hphase]
        simp [CommsPhase.work]
      · rw [hsend, hphase]
        exact Nat.lt_succ_self _
    · cases a with
      | socketFails => exact ha.elim
      | recvTimesOut => exact ha.elim
      | logFails t => exact ha.elim
      | _ => exact hhalts.elim

/-- A halted firmware makes no step, and stays halted whatever happens outside of it. -/
theorem step_halted (hphase : s.phase = .halted) (hs : (rtos rand).step s a = some s') :
    s'.phase = .halted ∧ ∃ b, a = .demo b ∧ b.task = none := by
  have hstill (t : Task) : s.runs t = false := by simp [runs, hphase]
  cases a with
  | demo b =>
    obtain ⟨hmay, hb, hphase'⟩ := step_demo hs
    have htask : b.task = none := by
      rw [mayStep] at hmay
      cases htask : b.task with
      | none => rfl
      | some t =>
        rw [htask] at hmay
        cases t <;> simp [hstill] at hmay
    refine ⟨?_, b, rfl, htask⟩
    -- Nothing outside of the firmware attempts a send.
    rcases Demo.step_firmware hb with ⟨p, -, -, htask' | htask'⟩ | ⟨tx?, htask', -⟩ |
      ⟨-, hfirmware, -⟩
    · rw [htask] at htask'
      cases htask'
    · rw [htask] at htask'
      cases htask'
    · rw [htask] at htask'
      cases htask'
    · rw [hphase', hfirmware, if_pos rfl, hphase]
  | networkDown => simp [rtos, step, hphase] at hs
  | networkUp => simp [rtos, step, hphase] at hs
  | sendBlocks => simp [rtos, step, hphase] at hs
  | sendReturns => simp [rtos, step, hphase] at hs
  | socketFails => simp [rtos, step, hphase] at hs
  | recvTimesOut => simp [rtos, step, hphase] at hs
  | logFails t => cases t <;> simp [rtos, step, mayLog, hphase, hstill] at hs

/-- **Halting**: the firmware halts at an answer that fails an assert, and at nothing else. -/
theorem halted_iff (h : (rtos rand).run as = some s) :
    s.phase = .halted ↔ ∃ a ∈ as, a.halts := by
  refine Machine.run_history (I := fun as s => s.phase = .halted ↔ ∃ a ∈ as, a.halts)
    (by simp [rtos]) ?_ h
  intro as s a s' ih hs
  by_cases hphase : s.phase = .halted
  · obtain ⟨b, hb, hhalts⟩ := ih.mp hphase
    exact iff_of_true (step_halted hphase hs).1 ⟨b, List.mem_append_left _ hb, hhalts⟩
  · have hnone : ¬ ∃ b ∈ as, b.halts := fun hsome => hphase (ih.mpr hsome)
    have hnow : (∃ b ∈ as ++ [a], b.halts) ↔ a.halts := by
      constructor
      · rintro ⟨b, hb, hhalts⟩
        rcases List.mem_append.mp hb with hold | hnew
        · exact absurd ⟨b, hold, hhalts⟩ hnone
        · rwa [← List.mem_singleton.mp hnew]
      · exact fun hhalts => ⟨a, by simp, hhalts⟩
    rw [hnow]
    rcases step_cases hs with ⟨b, rfl, -, -, hphase'⟩ | ⟨-, hown⟩
    · refine iff_of_false ?_ not_false
      rw [hphase']
      split
      · exact hphase
      · nofun
    · rcases hown with ⟨rfl, -, hphase'⟩ | ⟨rfl, -, hphase'⟩ | ⟨sendOk, rfl, -, hphase'⟩ |
        ⟨sendOk, rfl, -, hphase'⟩ | ⟨hhalts, hphase'⟩
      · exact iff_of_false (by rw [hphase']; nofun) not_false
      · exact iff_of_false (by rw [hphase']; nofun) not_false
      · exact iff_of_false (by rw [hphase']; nofun) not_false
      · exact iff_of_false (by rw [hphase']; nofun) not_false
      · exact iff_of_true hphase' hhalts

/-- A `comms_task` that is not blocked can go on: its assert on the type of a message holds. -/
theorem comms_enabled (h : (rtos rand).run as = some s) (hphase : s.phase ≠ .halted)
    (hready : s.commsBlocked = false) : ∃ a, a.ofComms ∧ ((rtos rand).step s a).isSome := by
  cases hat : s.phase with
  | waitingForNetwork =>
    rw [commsBlocked, hat] at hready
    cases hready
  | sending sendOk =>
    refine ⟨.sendReturns, trivial, ?_⟩
    simp [rtos, step, hat]
  | sendBlocked sendOk =>
    rw [commsBlocked, hat] at hready
    cases hready
  | halted => exact absurd hat hphase
  | receiving =>
    -- The queue is not empty, and the task handles whatever is in it.
    have hsome : s.demo.control.firmware.commsPass ≠ none := by
      obtain ⟨sent, queued, hist⟩ := (inv h).history
      rw [Ne, hist.commsPass_eq_none]
      rintro rfl
      rw [commsBlocked, hat] at hready
      simp only [hist.items, List.map_nil, List.isEmpty_nil] at hready
      cases hready
    obtain ⟨⟨f, tx?⟩, hpass⟩ := Option.ne_none_iff_exists'.mp hsome
    have hmay : s.mayStep (.commsPass true) = true := by
      simp [mayStep, DemoAction.task, runs_comms hphase, hready, hat]
    refine ⟨.demo (.commsPass true), trivial, ?_⟩
    simp [rtos, step, hmay, Demo.step, System.step, hpass]

end Rtos

/-- **`comms_task` yields**, after every run.  The firmware has halted if and only if some answer
    has failed an assert.  If it has not, `comms_task` is blocked or can make a step, and after at
    most 26 steps of its own it is blocked. -/
theorem comms_yields {rand : ℕ → UInt8} {as : List RtosAction} {s : Rtos}
    (h : (rtos rand).run as = some s) :
    (s.phase = .halted ↔ ∃ a ∈ as, a.halts) ∧
      (s.phase ≠ .halted →
        s.commsBlocked = true ∨ ∃ a, a.ofComms ∧ ((rtos rand).step s a).isSome) ∧
      ∀ cs s', (∀ a ∈ cs, a.ofComms) → (rtos rand).runFrom s cs = some s' → cs.length ≤ 26 := by
  refine ⟨Rtos.halted_iff h, fun hphase => ?_, fun cs s' hcs hrun => ?_⟩
  · cases hblocked : s.commsBlocked with
    | true => exact .inl rfl
    | false => exact .inr (Rtos.comms_enabled h hphase hblocked)
  · exact (Machine.length_le_of_decreasing (fun _ _ _ => Rtos.work_decreases) hcs hrun).trans
      s.work_le

/-- The ninth voltage is refused, and then the recorder refuses the error. -/
theorem comms_yields_ninePosts :
    ∃ s s', (rtos fun _ => 255).run ninePosts = some s ∧
      (rtos fun _ => 255).run (ninePosts ++ [.logFails .voltageMonitor]) = some s' ∧
      s.phase ≠ .halted ∧ s'.phase = .halted ∧
      ∀ cs t, (∀ a ∈ cs, a.ofComms) → (rtos fun _ => 255).runFrom s cs = some t →
        cs.length ≤ 26 := by
  have hsome : ((rtos fun _ => 255).run ninePosts).isSome := by decide +kernel
  have hsome' : ((rtos fun _ => 255).run (ninePosts ++ [.logFails .voltageMonitor])).isSome := by
    decide +kernel
  obtain ⟨s, hs⟩ := Option.isSome_iff_exists.mp hsome
  obtain ⟨s', hs'⟩ := Option.isSome_iff_exists.mp hsome'
  obtain ⟨hhalted, -, hyields⟩ := comms_yields hs
  refine ⟨s, s', hs, hs', ?_, ?_, hyields⟩
  · rw [Ne, hhalted]
    simp [ninePosts, RtosAction.halts]
  · exact (comms_yields hs').1.mpr ⟨.logFails .voltageMonitor, by simp, trivial⟩

end Wallbot
