import Wallbot.FaultInjection

namespace Wallbot

open Freertos

/-!
# The sensor firmware — posts, queue and comms task together

The part of the firmware that every interleaving shares: the posting tasks reach
`comms_task` through the queue only.  A post and a pass of `comms_task` are one step each.

`Firmware.History` names the posts a firmware state goes back to — those `comms_task` has
dequeued and those still queued — and is kept by both steps (`History.post`,
`History.commsPass`), so what `FaultInjection` says about the task's sends holds of every
interleaving.
-/

/-- The queue, the locals of `comms_task` and the datagrams it has attempted to send. -/
structure Firmware where
  queue : CommsQueue
  comms : CommsTask
  attempted : List Tx

namespace Firmware

/-- The firmware before its tasks run. -/
def boot : Firmware where
  queue := .empty
  comms := .start
  attempted := []

/-- A task calls one of the two posting functions. -/
def post (f : Firmware) : Post → Firmware
  | .sensor wheelSpeed =>
    { f with queue := commsSendSensorData f.queue wheelSpeed }
  | .voltage millivolts voltageSpike =>
    { f with queue := commsSendVoltageData f.queue millivolts voltageSpike }

/-- An iteration of `comms_task`, with the datagram it hands to `sendto`; `none` while
    `comms_recv` blocks on the empty queue. -/
def commsPass (f : Firmware) : Option (Firmware × Option Tx) :=
  f.queue.take?.bind fun (msg, queue) =>
    (commsTaskPass f.comms msg).map fun (comms, tx?) =>
      ({ queue := queue, comms := comms, attempted := f.attempted ++ tx?.toList }, tx?)

/-- The state goes back to the posts `sent`, dequeued so far, and `queued`. -/
structure History (f : Firmware) (sent queued : List Post) : Prop where
  taken : f.queue.taken = sent.map Post.msg
  items : f.queue.items = queued.map Post.msg
  /-- `comms_task` is where its run over the dequeued messages leads. -/
  ran : commsTask.run (sent.map Post.msg) = some (f.comms, f.attempted)

/-- Before the first post there is no history. -/
theorem history_boot : boot.History [] [] where
  taken := rfl
  items := rfl
  ran := rfl

variable {f f' : Firmware} {sent queued : List Post}

/-- The locals of `comms_task` are told by the posts it has taken. -/
theorem History.task (h : f.History sent queued) : TaskAfter sent f.comms := by
  obtain ⟨t, txs, hrun, ht, -⟩ := commsTask_after sent
  cases h.ran.symm.trans hrun
  exact ht

/-- Its sends are told by the posts it has taken. -/
theorem History.sends (h : f.History sent queued) : SentAfter sent f.attempted := by
  obtain ⟨t, txs, hrun, -, hs⟩ := commsTask_after sent
  cases h.ran.symm.trans hrun
  exact hs

/-- The queue has accepted what was sent on and what is still queued. -/
theorem History.accepted (h : f.History sent queued) :
    f.queue.accepted = (sent ++ queued).map Post.msg := by
  rw [f.queue.law, h.taken, h.items, List.map_append]

/-- Both kinds of post are one send to the queue. -/
theorem post_eq (f : Firmware) (p : Post) :
    f.post p = { f with queue := (xQueueSend f.queue p.msg).1 } := by
  cases p <;> rfl

/-- A post is queued, or the queue is full and nothing changes. -/
theorem History.post (h : f.History sent queued) (p : Post) :
    ((f.post p).History sent (queued ++ [p]) ∧ (f.post p).attempted = f.attempted ∧
        (f.post p).queue.accepted = f.queue.accepted ++ [p.msg]) ∨
      f.queue.items.length = commsQueueLength ∧ f.post p = f := by
  rw [post_eq, xQueueSend]
  cases hput : f.queue.put? p.msg with
  | none => exact .inr ⟨Fifo.put?_eq_none_iff.mp hput, rfl⟩
  | some q =>
    obtain ⟨hitems, hacc, htaken⟩ := Fifo.put?_eq_some hput
    -- The new post is the youngest of those queued.
    refine .inl ⟨⟨htaken.trans h.taken, ?_, h.ran⟩, rfl, hacc⟩
    rw [hitems, h.items, List.map_append, List.map_singleton]

/-- An iteration dequeues the oldest post; its assert never fails. -/
theorem History.commsPass (h : f.History sent queued) {tx? : Option Tx}
    (hpass : f.commsPass = some (f', tx?)) :
    ∃ p rest, queued = p :: rest ∧ f'.History (sent ++ [p]) rest ∧
      f'.attempted = f.attempted ++ tx?.toList ∧ f'.queue.accepted = f.queue.accepted := by
  obtain ⟨⟨msg, q⟩, htake, hrest⟩ := Option.bind_eq_some_iff.mp hpass
  obtain ⟨⟨t, tx'⟩, htask, heq⟩ := Option.map_eq_some_iff.mp hrest
  cases heq
  obtain ⟨hitems, hacc, htaken⟩ := Fifo.take?_eq_some htake
  -- What is dequeued is the message of the oldest queued post.
  rw [h.items] at hitems
  obtain ⟨p, rest, rfl, rfl, hq⟩ := List.map_eq_cons_iff.mp hitems
  refine ⟨p, rest, rfl, ⟨?_, hq.symm, ?_⟩, rfl, hacc⟩
  · rw [htaken, h.taken, List.map_append, List.map_singleton]
  · rw [List.map_append, List.map_singleton]
    exact Machine.runFrom_concat_eq_some.mpr ⟨_, h.ran, by simp [commsTask, htask]⟩

/-- The task waits exactly while nothing is queued. -/
theorem History.commsPass_eq_none (h : f.History sent queued) :
    f.commsPass = none ↔ queued = [] := by
  constructor
  · intro hnone
    cases queued with
    | nil => rfl
    | cons p rest =>
      -- A post is queued, and a pass over its message meets no failing assert.
      obtain ⟨t, tx?, hpass, -⟩ := commsTaskPass_after p h.task h.sends
      have htake : f.queue.take? ≠ none := by
        rw [Ne, Fifo.take?_eq_none_iff, h.items]
        exact List.cons_ne_nil _ _
      obtain ⟨⟨msg, q⟩, hq⟩ := Option.ne_none_iff_exists'.mp htake
      have hitems := (Fifo.take?_eq_some hq).1
      rw [h.items, List.map_cons, List.cons.injEq] at hitems
      simp [Firmware.commsPass, hq, ← hitems.1, hpass] at hnone
  · rintro rfl
    have htake : f.queue.take? = none := Fifo.take?_eq_none_iff.mpr h.items
    rw [Firmware.commsPass, htake]
    rfl

end Firmware

/-! ### Wheel speeds of messages -/

/-- The wheel speed a message carries, if it is a wheel-speed message. -/
def Freertos.CommsMsg.speed? (msg : CommsMsg) : Option Int32 :=
  if msg.type = msgTypeWheelSpeed then some msg.wheelSpeed else none

/-- The wheel speeds among messages, in order. -/
def wheelSpeeds (msgs : List CommsMsg) : List Int32 := msgs.filterMap CommsMsg.speed?

/-- The wheel speeds of messages are those of the posts. -/
theorem wheelSpeeds_map_msg (ps : List Post) : wheelSpeeds (ps.map Post.msg) = speeds ps := by
  rw [wheelSpeeds, List.filterMap_map, speeds]
  congr 1
  ext p : 1
  cases p <;> rfl

namespace Firmware

variable {f : Firmware} {sent queued : List Post}

/-- The speeds accepted: those taken, then those queued. -/
theorem History.wheelSpeeds_accepted (h : f.History sent queued) :
    wheelSpeeds f.queue.accepted = speeds sent ++ speeds queued := by
  rw [h.accepted, wheelSpeeds_map_msg, speeds, List.filterMap_append]
  rfl

/-- The speeds queued. -/
theorem History.wheelSpeeds_items (h : f.History sent queued) :
    wheelSpeeds f.queue.items = speeds queued := by
  rw [h.items, wheelSpeeds_map_msg]

end Firmware

end Wallbot
