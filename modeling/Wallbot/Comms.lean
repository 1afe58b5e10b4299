import Wallbot.Lib.Fifo
import Wallbot.Lib.Machine
import Wallbot.WireProtocol

namespace Wallbot.Freertos

/-!
# The comms task — `comms.c`

The Sensor and VoltageMonitor tasks post messages to one queue, and `comms_task` turns each
wheel-speed message into a datagram.  The struct it sends is one local variable, reused and
mutated in place by the fault injection.

* `xQueueSend` — the queue of the kernel, for which any other that meets the contract will do
  (`kernelQueue_answers`);
* `commsSendSensorData`, `commsSendVoltageData` — the two posts, refused when the queue is
  full;
* `commsTaskPass` — what `comms_task` does with one dequeued message; `none` is the assert on
  the message type;
* `commsTask` — the machine of all message sequences, with everything sent so far.
-/

/-! ### Messages and the queue -/

/-- `MSG_TYPE_WHEEL_SPEED` -/
def msgTypeWheelSpeed : UInt8 := 1

/-- `MSG_TYPE_VOLTAGE` -/
def msgTypeVoltage : UInt8 := 2

/-- `comms_msg_s`. -/
structure CommsMsg where
  type : UInt8
  wheelSpeed : Int32
  millivolts : Int32
  voltageSpike : UInt8
  deriving DecidableEq, Repr

/-- The length that `comms_init` creates the queue with. -/
def commsQueueLength : ℕ := 8

/-- `g_comms_queue`. -/
abbrev CommsQueue := Fifo CommsMsg commsQueueLength

/-- `xQueueSend` with no block time: whether the message was posted. -/
def xQueueSend (queue : CommsQueue) (msg : CommsMsg) : CommsQueue × Bool :=
  match queue.put? msg with
  | some queue' => (queue', true)
  | none => (queue, false)

/-- The send in the words of the library's queue. -/
theorem xQueueSend_eq (queue : CommsQueue) (msg : CommsMsg) :
    xQueueSend queue msg = queue.send msg := by
  rw [xQueueSend, Fifo.send]
  cases queue.put? msg <;> rfl

/-- The calls of the kernel that `comms.c` makes on its queue. -/
def commsQueueApi : QueueApi CommsMsg commsQueueLength where
  Queue := CommsQueue
  create := .empty
  send := xQueueSend
  receive := Fifo.take?
  holds := Fifo.items
  holds_create := rfl
  send_of_room queue msg := xQueueSend_eq queue msg ▸ Fifo.send_of_room msg
  send_of_full queue msg := xQueueSend_eq queue msg ▸ Fifo.send_of_full msg
  receive_of_empty _ := Fifo.take?_eq_none_iff.mpr
  receive_of_cons _ _ _ := Fifo.take?_of_cons

/-- **The queue of the kernel** may be any that meets the contract: it answers the posts and the
    receives of every run as `g_comms_queue` does here. -/
theorem kernelQueue_answers (kernel : QueueApi CommsMsg commsQueueLength)
    (calls : List (QueueCall CommsMsg)) :
    kernel.answers kernel.create calls = commsQueueApi.answers commsQueueApi.create calls :=
  QueueApi.answers_create kernel commsQueueApi calls

/-- The message of `comms_send_sensor_data`; the fields it does not name are zero. -/
def sensorMsg (wheelSpeed : Int32) : CommsMsg where
  type := msgTypeWheelSpeed
  wheelSpeed := wheelSpeed
  millivolts := 0
  voltageSpike := 0

/-- The message of `comms_send_voltage_data`. -/
def voltageMsg (millivolts : Int32) (voltageSpike : UInt8) : CommsMsg where
  type := msgTypeVoltage
  wheelSpeed := 0
  millivolts := millivolts
  voltageSpike := voltageSpike

/-- `comms_send_sensor_data`; a refused message is only logged. -/
def commsSendSensorData (queue : CommsQueue) (wheelSpeed : Int32) : CommsQueue :=
  (xQueueSend queue (sensorMsg wheelSpeed)).1

/-- `comms_send_voltage_data`; a refused message is only logged. -/
def commsSendVoltageData (queue : CommsQueue) (millivolts : Int32) (voltageSpike : UInt8) :
    CommsQueue :=
  (xQueueSend queue (voltageMsg millivolts voltageSpike)).1

/-! ### The task -/

/-- The local variables `comms_task` keeps between messages. -/
structure CommsTask where
  wireMsg : WireMsg
  mutatorState : UInt8
  voltageSpiked : UInt8
  deriving DecidableEq, Repr

/-- One send: the values traced on `comms_tx`, and the datagram handed to `sendto`. -/
structure Tx where
  type : UInt8
  seqnum : UInt32
  wheelSpeed : Int32
  datagram : List UInt8
  deriving DecidableEq, Repr

/-- The locals before the first message. -/
def CommsTask.start : CommsTask where
  wireMsg := { magic0 := 0, magic1 := 0, type := 0, seqnum := 0, wheelSpeed := 0 }
  mutatorState := 0
  voltageSpiked := 0

/-- "Mutate the next comms message". -/
def CommsTask.noteSpike (t : CommsTask) : CommsTask :=
  let mutatorState := t.mutatorState + 1
  { t with
    voltageSpiked := 1
    mutatorState := if mutatorState = 3 then 0 else mutatorState }

/-- The header fields, the counted sequence number and the speed, as every message gets
    them. -/
def CommsTask.nextWireMsg (t : CommsTask) (wheelSpeed : Int32) : WireMsg where
  magic0 := wireMagic0
  magic1 := wireMagic1
  type := wireTypeWheelSpeed
  seqnum := t.wireMsg.seqnum + 1
  wheelSpeed := wheelSpeed

/-- The field that `mutator_state` selects, mutated. -/
def mutate (mutatorState : UInt8) (msg : WireMsg) : WireMsg :=
  if mutatorState = 0 then { msg with magic0 := ~~~msg.magic0 }
  else if mutatorState = 1 then { msg with magic1 := ~~~msg.magic1 }
  else if mutatorState = 2 then { msg with type := wireTypeWheelSpeed + 1 }
  else msg

/-- What is traced and sent for a wire message. -/
def txOf (msg : WireMsg) : Tx where
  type := msg.type
  seqnum := msg.seqnum
  wheelSpeed := msg.wheelSpeed
  datagram := msg.image

/-- One pass of `comms_task` over a dequeued message; `none` when its assert fails.  Whether
    `sendto` succeeds changes nothing but a log entry. -/
def commsTaskPass (t : CommsTask) (msg : CommsMsg) : Option (CommsTask × Option Tx) :=
  if msg.type = msgTypeVoltage then
    some (if msg.voltageSpike ≠ 0 then t.noteSpike else t, none)
  else if msg.type = msgTypeWheelSpeed then
    let wireMsg := t.nextWireMsg msg.wheelSpeed
    if t.voltageSpiked ≠ 0 then
      let wireMsg := mutate t.mutatorState wireMsg
      some ({ t with wireMsg := wireMsg, voltageSpiked := 0 }, some (txOf wireMsg))
    else
      some ({ t with wireMsg := wireMsg }, some (txOf wireMsg))
  else none

/-- `comms_task` over a sequence of messages, with all its sends so far. -/
def commsTask : Machine (CommsTask × List Tx) CommsMsg where
  init := (CommsTask.start, [])
  step s msg := (commsTaskPass s.1 msg).map fun r => (r.1, s.2 ++ r.2.toList)

/-! ### What a pass does -/

/-- A voltage is not sent; a spike is noted for the next wheel speed. -/
@[simp] theorem commsTaskPass_voltageMsg (t : CommsTask) (mv : Int32) (spike : UInt8) :
    commsTaskPass t (voltageMsg mv spike)
      = some (if spike ≠ 0 then t.noteSpike else t, none) := rfl

/-- The message `comms_task` sends for `wheelSpeed` in the state `t`. -/
def CommsTask.sentMsg (t : CommsTask) (wheelSpeed : Int32) : WireMsg :=
  if t.voltageSpiked ≠ 0 then mutate t.mutatorState (t.nextWireMsg wheelSpeed)
  else t.nextWireMsg wheelSpeed

/-- A wheel speed is sent, and uses up the noted spike. -/
@[simp] theorem commsTaskPass_sensorMsg (t : CommsTask) (wheelSpeed : Int32) :
    commsTaskPass t (sensorMsg wheelSpeed)
      = some ({ t with wireMsg := t.sentMsg wheelSpeed, voltageSpiked := 0 },
          some (txOf (t.sentMsg wheelSpeed))) := by
  have htype : msgTypeWheelSpeed ≠ msgTypeVoltage := by decide
  by_cases h : t.voltageSpiked = 0
  · simp [commsTaskPass, sensorMsg, htype, CommsTask.sentMsg, h]
  · simp [commsTaskPass, sensorMsg, htype, CommsTask.sentMsg, h]

/-- The same for the task with its sends: a voltage adds none. -/
@[simp] theorem commsTask_step_voltageMsg (t : CommsTask) (txs : List Tx) (mv : Int32)
    (spike : UInt8) :
    commsTask.step (t, txs) (voltageMsg mv spike)
      = some (if spike ≠ 0 then t.noteSpike else t, txs) := by
  simp [commsTask]

/-- A wheel speed adds one. -/
@[simp] theorem commsTask_step_sensorMsg (t : CommsTask) (txs : List Tx) (wheelSpeed : Int32) :
    commsTask.step (t, txs) (sensorMsg wheelSpeed)
      = some ({ t with wireMsg := t.sentMsg wheelSpeed, voltageSpiked := 0 },
          txs ++ [txOf (t.sentMsg wheelSpeed)]) := by
  simp [commsTask]

/-- The injected fault is in the header, and spares the number. -/
theorem mutate_seqnum (k : UInt8) (msg : WireMsg) : (mutate k msg).seqnum = msg.seqnum := by
  unfold mutate; split_ifs <;> rfl

/-- It spares the wheel speed as well. -/
theorem mutate_wheelSpeed (k : UInt8) (msg : WireMsg) :
    (mutate k msg).wheelSpeed = msg.wheelSpeed := by
  unfold mutate; split_ifs <;> rfl

/-- A message carries the next number, faulty or not. -/
@[simp] theorem sentMsg_seqnum (t : CommsTask) (wheelSpeed : Int32) :
    (t.sentMsg wheelSpeed).seqnum = t.wireMsg.seqnum + 1 := by
  unfold CommsTask.sentMsg
  split
  · rw [mutate_seqnum]; rfl
  · rfl

/-- It carries the speed that was posted. -/
@[simp] theorem sentMsg_wheelSpeed (t : CommsTask) (wheelSpeed : Int32) :
    (t.sentMsg wheelSpeed).wheelSpeed = wheelSpeed := by
  unfold CommsTask.sentMsg
  split
  · rw [mutate_wheelSpeed]; rfl
  · rfl

/-- A datagram has `WIRE_MSG_SIZE` bytes. -/
@[simp] theorem txOf_datagram_length (msg : WireMsg) : (txOf msg).datagram.length = 11 :=
  msg.image_length

end Wallbot.Freertos
