import Mathlib.Data.Int.Order.Basic
import Wallbot.Comms

namespace Wallbot.Freertos

/-!
# The voltage monitor task — `voltage_monitor.c`

`voltage_monitor_task` walks a simulated voltage between two rails, drawing a new step from
`rand8` whenever it reaches one.  An iteration posts the voltage and then rewrites it three
times: the step, the clamp with its redraw, and, while fault injection is off, the removal of
a voltage that would be a spike.

The `int32_t` locals are integers here.  `rand` stands for the byte the next call of `rand8`
returns, and is looked at only where the source calls it.
-/

/-- `MV_MAX` -/
def mvMax : ℤ := 13000

/-- `MV_MIN` -/
def mvMin : ℤ := 11000

/-- `MV_SPIKE` -/
def mvSpike : ℤ := 13000

/-- The locals `voltage_monitor_task` keeps between iterations. -/
structure VoltageMonitor where
  millivolts : ℤ
  mvDelta : ℤ
  deriving DecidableEq, Repr

namespace VoltageMonitor

/-- The locals before the loop. -/
def start (rand : UInt8) : VoltageMonitor where
  millivolts := mvMin
  mvDelta := rand.toNat

/-- `millivolts >= MV_SPIKE`. -/
def isSpike (s : VoltageMonitor) : Bool := s.millivolts ≥ mvSpike

/-- `millivolts += mv_delta`. -/
def advance (s : VoltageMonitor) : VoltageMonitor :=
  { s with millivolts := s.millivolts + s.mvDelta }

/-- The clamp to the rails, each of which draws a new step. -/
def clampRails (s : VoltageMonitor) (rand : UInt8) : VoltageMonitor :=
  if s.millivolts ≥ mvMax then { millivolts := mvMax, mvDelta := -rand.toNat }
  else if s.millivolts ≤ mvMin then { millivolts := mvMin, mvDelta := rand.toNat }
  else s

/-- The last rewrite, under the value read from `g_do_voltage_spike`. -/
def suppressSpike (s : VoltageMonitor) (doVoltageSpike : UInt32) : VoltageMonitor :=
  if doVoltageSpike = 0 then
    if s.millivolts ≥ mvSpike then { s with millivolts := mvSpike - 1 } else s
  else s

/-- What an iteration leaves for the next one. -/
def next (s : VoltageMonitor) (rand : UInt8) (doVoltageSpike : UInt32) : VoltageMonitor :=
  (s.advance.clampRails rand).suppressSpike doVoltageSpike

/-- The arguments of the iteration's `comms_send_voltage_data`. -/
def posted (s : VoltageMonitor) : Int32 × UInt8 :=
  (Int32.ofInt s.millivolts, if s.isSpike then 1 else 0)

/-- With fault injection off no iteration leaves a spike behind. -/
theorem next_not_isSpike (s : VoltageMonitor) (rand : UInt8) :
    (s.next rand 0).isSpike = false := by
  simp only [next, suppressSpike, if_true, isSpike, ge_iff_le, decide_eq_false_iff_not, not_le]
  split
  · -- A spike is brought one below the limit.
    exact Int.sub_one_lt_of_le le_rfl
  · exact not_le.mp ‹_›

/-- The walk starts at the lower rail. -/
theorem start_not_isSpike (rand : UInt8) : (start rand).isSpike = false := rfl

/-- The spike byte tells whether the voltage is a spike. -/
theorem posted_spike (s : VoltageMonitor) : s.posted.2 ≠ 0 ↔ s.isSpike = true := by
  cases h : s.isSpike <;> simp [posted, h]

end VoltageMonitor

end Wallbot.Freertos
