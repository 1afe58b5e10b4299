import Mathlib.Data.Rat.Defs

namespace Wallbot.Linux

/-!
# The actuator — `actuator.cpp`

The actuator keeps one `Twist` message that every command rewrites and publishes, and the
sequence number of the next command.  `mutable_header()->data(0)` holds the sequence number
as a decimal string; a velocity is an exact rational.
-/

/-- The fields of `gz::msgs::Twist` the actuator writes. -/
structure Twist where
  linearX : ℚ
  seq : String
  deriving DecidableEq

/-- `struct actuator`. -/
structure Actuator where
  msg : Twist
  seqnum : UInt32
  deriving DecidableEq

/-- `actuator_new`: a cleared message, and the number of the first command. -/
def actuatorNew : Actuator where
  msg := { linearX := 0, seq := "" }
  seqnum := 1

/-- `actuator_seqnum`. -/
def actuatorSeqnum (act : Actuator) : UInt32 := act.seqnum

/-- The message a command of velocity `vel` publishes. -/
def twistOf (seqnum : UInt32) (vel : ℚ) : Twist where
  linearX := vel
  seq := toString seqnum

/-- `actuator_set_vel`: rewrite the message, publish it, count the command. -/
def actuatorSetVel (act : Actuator) (vel : ℚ) : Actuator × Twist :=
  let msg := twistOf act.seqnum vel
  ({ msg := msg, seqnum := act.seqnum + 1 }, msg)

end Wallbot.Linux
