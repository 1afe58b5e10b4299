import Mathlib.Data.Rat.Floor
import Wallbot.Comms
import Wallbot.ImuRelay
import Wallbot.Lib.Rounding

namespace Wallbot

open Freertos Rounding

/-!
# Quantisation of the wheel speed — from `ImuRelay.cc` to the datagram

The plugin prints the angular velocity with six decimals, the peripheral clamps it, scales it to
thousandths and drops the fraction, the driver reads the 32-bit register as a signed number, and
`comms_task` sends that.

* `Carries` — the chain from one IMU message to the field that the receiver finds.
* `speedCount` — the number it carries, as rounding, clamping and truncation.
* `wheel_speed_quantised` — how far off that is, and that it respects order and sign.

`printf6` stands for the decimal number that `%lf` prints.
-/

/-! ### The chain -/

/-- An IMU message of angular velocity `v`, as it is printed. -/
def Imu.printed (printf6 : ℚ → ℚ) (sec nsec nativeSeqnum : ℤ) (v : ℚ) : Imu where
  sec := sec
  nsec := nsec
  nativeSeqnum := nativeSeqnum
  angularVelocityZ := printf6 v

/-- Whatever the states of the plugin, the peripheral, the driver and `comms_task` are, the
    message of angular velocity `v` is stored, read, passed on and sent, and the receiver finds
    `r` in the datagram. -/
def Carries (printf6 : ℚ → ℚ) (v : ℚ) (r : ℤ) : Prop :=
  ∀ (relay : Relay) (sec nsec nativeSeqnum : ℤ) (origin : ℕ) (s : Wss.State ℕ)
    (status simTimeMs seqnum : UInt32) (t : CommsTask),
    ∃ p wheelSpeed t' tx,
      s.peripheral.assign (relay.encode (.printed printf6 sec nsec nativeSeqnum v) origin) =
          .ok p ∧
        ({ s with peripheral := p, pc := .readWheelSpeed status simTimeMs seqnum } :
            Wss.State ℕ).access.forwarded =
          s.forwarded ++ [⟨simTimeMs, seqnum, wheelSpeed⟩] ∧
        commsTaskPass t (sensorMsg wheelSpeed) = some (t', some tx) ∧
        (Linux.WireMsg.ofImage tx.datagram).wheelSpeed.toInt = r

/-- The number in the register. -/
def speedCount (printf6 : ℚ → ℚ) (v : ℚ) : ℤ :=
  truncate (clamp 50 (printf6 v) * 1000)

variable {printf6 : ℚ → ℚ} {v : ℚ}

/-! ### The conversions -/

/-- `int` of a number is truncation. -/
theorem pyInt_eq_truncate (q : ℚ) : Wss.pyInt q = truncate q := by
  have hpos (q : ℚ) (hq : 0 ≤ q) : Wss.pyInt q = truncate q := by
    rw [truncate_of_nonneg hq, Rat.floor_def', Wss.pyInt]
    exact Int.tdiv_eq_ediv_of_nonneg (Rat.num_nonneg.mpr hq)
  rcases le_total 0 q with hq | hq
  · exact hpos q hq
  · -- Both drop the sign and put it back.
    have hneg := hpos (-q) (neg_nonneg.mpr hq)
    rw [Wss.pyInt, Rat.num_neg_eq_neg_num, Rat.den_neg_eq_den, Int.neg_tdiv, truncate_neg] at hneg
    exact neg_inj.mp hneg

/-- The clamp bounds the count, whatever was printed. -/
theorem speedCount_range (printf6 : ℚ → ℚ) (v : ℚ) :
    -50000 ≤ speedCount printf6 v ∧ speedCount printf6 v ≤ 50000 := by
  have hclamp := abs_le.mp (abs_clamp_le (b := (50 : ℚ)) (by norm_num) (printf6 v))
  have hends (k : ℤ) : truncate ((k : ℤ) : ℚ) = k := truncate_intCast k
  constructor
  · rw [← hends (-50000)]
    apply truncate_monotone
    push_cast
    linarith
  · rw [← hends 50000]
    apply truncate_monotone
    push_cast
    linarith

/-- A number of 32 bits survives the register. -/
theorem toInt_toInt32_ofInt {n : ℤ} (hlow : -2 ^ 31 ≤ n) (hhigh : n < 2 ^ 31) :
    (UInt32.ofInt n).toInt32.toInt = n := by
  have hmod : 0 ≤ n % 2 ^ 32 := Int.emod_nonneg n (by decide)
  show (BitVec.ofNat 32 (n % 2 ^ 32).toNat).toInt = n
  rw [BitVec.toInt_ofNat', Int.toNat_of_nonneg hmod]
  calc (n % 2 ^ 32).bmod (2 ^ 32) = n.bmod (2 ^ 32) := Int.emod_bmod n (2 ^ 32)
    _ = n := Int.bmod_eq_of_le_mul_two (by omega) (by omega)

/-- The value of the register, as a signed number. -/
theorem toInt_wheelSpeedToRegVal (printf6 : ℚ → ℚ) (v : ℚ) :
    (Wss.wheelSpeedToRegVal (printf6 v)).toInt32.toInt = speedCount printf6 v := by
  have hrange := speedCount_range printf6 v
  have hcount : Wss.pyInt (max (min 50 (printf6 v)) (-50) * 1000) = speedCount printf6 v :=
    pyInt_eq_truncate _
  rw [Wss.wheelSpeedToRegVal, hcount]
  exact toInt_toInt32_ofInt (by omega) (by omega)

/-- **What the chain carries.** -/
theorem carries_speedCount (printf6 : ℚ → ℚ) (v : ℚ) :
    Carries printf6 v (speedCount printf6 v) := by
  intro relay sec nsec nativeSeqnum origin s status simTimeMs seqnum t
  have himage : (relay.encode (.printed printf6 sec nsec nativeSeqnum v) origin).image =
      some ⟨_, _, (Wss.wheelSpeedToRegVal (printf6 v)).toInt32⟩ := rfl
  obtain ⟨p, hassign, hholds, -⟩ := Wss.Peripheral.assign_of_image (p := s.peripheral) himage
  have hspeed : (Wss.wheelSpeedToRegVal p.wheelSpeed).toInt32 =
      (Wss.wheelSpeedToRegVal (printf6 v)).toInt32 :=
    (congrArg Wss.Triple.wheelSpeed hholds).symm
  refine ⟨p, (Wss.wheelSpeedToRegVal (printf6 v)).toInt32, _, _, hassign, ?_,
    commsTaskPass_sensorMsg t _, ?_⟩
  · rw [← hspeed]
    simp [Wss.State.access, Wss.State.forwarded, Wss.State.endPoll, Wss.Peripheral.read,
      Wss.Register.offset]
  · show (Linux.WireMsg.ofImage (t.sentMsg _).image).wheelSpeed.toInt = _
    rw [ofImage_image]
    show (t.sentMsg _).wheelSpeed.toInt = _
    rw [sentMsg_wheelSpeed, toInt_wheelSpeedToRegVal]

/-! ### Accuracy -/

/-- Half a millionth of rounding, in thousandths, and less than one of truncation. -/
theorem abs_speedCount_sub_le (hprint : NearestMultiple (1 / 10 ^ 6) printf6) (v : ℚ) :
    |(speedCount printf6 v : ℚ) - 1000 * clamp 50 v| ≤ 1.0005 := by
  have htruncate := abs_truncate_sub_lt (clamp 50 (printf6 v) * 1000)
  have hround : |clamp 50 (printf6 v) - clamp 50 v| ≤ 1 / 10 ^ 6 / 2 :=
    (abs_clamp_sub_clamp_le 50 (printf6 v) v).trans (hprint.abs_sub_le (by norm_num) v)
  rw [abs_lt] at htruncate
  rw [abs_le] at hround ⊢
  norm_num at hround ⊢
  rw [speedCount]
  constructor <;> linarith

/-- A higher speed has no lower count. -/
theorem speedCount_monotone (hprint : NearestMultiple (1 / 10 ^ 6) printf6) :
    Monotone (speedCount printf6) := by
  intro v v' hle
  apply truncate_monotone
  exact mul_le_mul_of_nonneg_right (clamp_monotone 50 (hprint.monotone hle)) (by norm_num)

/-- Forwards and backwards are counted alike. -/
theorem speedCount_neg (hprint : NearestMultiple (1 / 10 ^ 6) printf6) (v : ℚ) :
    speedCount printf6 (-v) = -speedCount printf6 v := by
  rw [speedCount, speedCount, hprint.odd, clamp_neg (by norm_num), neg_mul, truncate_neg]

/-- **Quantisation of the wheel speed.**  If `%lf` rounds to a nearest millionth and treats both
    signs alike, the receiver finds a number of thousandths that is at most 1.0005 off the clamped
    angular velocity, never beyond 50000, and goes with the order and the sign. -/
theorem wheel_speed_quantised (hprint : NearestMultiple (1 / 10 ^ 6) printf6) :
    ∃ r : ℚ → ℤ,
      (∀ v, Carries printf6 v (r v)) ∧
      (∀ v, -50000 ≤ r v ∧ r v ≤ 50000) ∧
      (∀ v, |(r v : ℚ) - 1000 * max (min 50 v) (-50)| ≤ 1.0005) ∧
      Monotone r ∧
      ∀ v, r (-v) = -r v :=
  ⟨speedCount printf6, carries_speedCount printf6, speedCount_range printf6,
    abs_speedCount_sub_le hprint, speedCount_monotone hprint, speedCount_neg hprint⟩

/-- For a printf that rounds ties away from 0. -/
theorem wheel_speed_quantised_half_away :
    ∃ r : ℚ → ℤ,
      (∀ v, Carries (fun x => roundHalfAway (x / (1 / 10 ^ 6)) * (1 / 10 ^ 6)) v (r v)) ∧
      (∀ v, -50000 ≤ r v ∧ r v ≤ 50000) ∧
      (∀ v, |(r v : ℚ) - 1000 * max (min 50 v) (-50)| ≤ 1.0005) ∧
      Monotone r ∧
      ∀ v, r (-v) = -r v :=
  wheel_speed_quantised (nearestMultiple_roundHalfAway (by norm_num))

end Wallbot
