import Mathlib.Algebra.Order.Group.Abs
import Mathlib.Data.Nat.Count
import Wallbot.Lib.Machine
import Wallbot.Rand8
import Wallbot.VoltageMonitor

namespace Wallbot.Freertos

/-!
# The voltage walk — the loop of `voltage_monitor_task`

The iterations of the task as a machine.  An iteration reads the value of `g_do_voltage_spike`,
which may change at any time, and calls `rand8` where the clamp needs a byte.

* `VoltageWalk.next_cases` — the three things an iteration can do.
* `VoltageWalk.InRange` — the invariant of the walk, and `voltage_walk_invariant` for all
  sequences of bytes and of flags.
* `VoltageWalk.InRange.redraws` — a walk that is not stuck between the rails reaches one of them
  within 2000 iterations.
* `voltage_walk_never_freezes_iff` — the sequences of bytes on which it never gets stuck.
-/

/-- The ends of the range. -/
inductive Rail where
  | upper
  | lower
  deriving DecidableEq, Repr

/-- The branch that the clamp of the iteration takes. -/
def VoltageMonitor.redrawAt (s : VoltageMonitor) : Option Rail :=
  if s.advance.millivolts ≥ mvMax then some .upper
  else if s.advance.millivolts ≤ mvMin then some .lower
  else none

/-- The locals, the number of calls of `rand8` so far, and the rail of the last one. -/
structure VoltageWalk where
  monitor : VoltageMonitor
  calls : ℕ
  lastRedraw : Option Rail
  deriving DecidableEq, Repr

/-- An iteration; `rand k` is the byte that call number `k` of `rand8` returns. -/
def VoltageWalk.next (rand : ℕ → UInt8) (doVoltageSpike : UInt32) (w : VoltageWalk) :
    VoltageWalk where
  monitor := w.monitor.next (rand w.calls) doVoltageSpike
  calls := if w.monitor.redrawAt.isSome then w.calls + 1 else w.calls
  lastRedraw := w.monitor.redrawAt.or w.lastRedraw

/-- The task from the start of its loop.  An action is the value read from
    `g_do_voltage_spike`. -/
def voltageMonitorTask (rand : ℕ → UInt8) : Machine VoltageWalk UInt32 where
  init := { monitor := .start (rand 0), calls := 1, lastRedraw := none }
  step w doVoltageSpike := some (w.next rand doVoltageSpike)

namespace VoltageWalk

variable {rand : ℕ → UInt8} {flag : UInt32} {w : VoltageWalk}

/-- The upper rail, for arithmetic. -/
theorem mvMax_eq : mvMax = 13000 := rfl

/-- The lower rail, for arithmetic. -/
theorem mvMin_eq : mvMin = 11000 := rfl

/-- The rails are apart. -/
theorem mvMin_lt_mvMax : mvMin < mvMax := by decide

/-- Below the upper rail there is nothing to suppress. -/
theorem suppressSpike_of_lt {s : VoltageMonitor} (h : s.millivolts < mvMax) :
    s.suppressSpike flag = s := by
  have hspike : ¬ s.millivolts ≥ mvSpike := not_le.mpr h
  rw [VoltageMonitor.suppressSpike, if_neg hspike]
  exact ite_self s

/-- At the upper rail the flag decides. -/
theorem suppressSpike_mvMax (delta : ℤ) :
    VoltageMonitor.suppressSpike ⟨mvMax, delta⟩ flag =
      ⟨if flag = 0 then mvMax - 1 else mvMax, delta⟩ := by
  rw [VoltageMonitor.suppressSpike]
  split
  · exact if_pos (Int.le_refl mvSpike)
  · rfl

/-- **What an iteration can do**: stop at the upper rail, or just below it while fault injection
    is off; stop at the lower rail; or take a plain step. -/
theorem next_cases (rand : ℕ → UInt8) (flag : UInt32) (w : VoltageWalk) :
    (mvMax ≤ w.monitor.millivolts + w.monitor.mvDelta ∧
      w.next rand flag =
        ⟨⟨if flag = 0 then mvMax - 1 else mvMax, -(rand w.calls).toNat⟩, w.calls + 1,
          some .upper⟩) ∨
    (w.monitor.millivolts + w.monitor.mvDelta ≤ mvMin ∧
      w.next rand flag = ⟨⟨mvMin, (rand w.calls).toNat⟩, w.calls + 1, some .lower⟩) ∨
    (mvMin < w.monitor.millivolts + w.monitor.mvDelta ∧
      w.monitor.millivolts + w.monitor.mvDelta < mvMax ∧
      w.next rand flag =
        ⟨⟨w.monitor.millivolts + w.monitor.mvDelta, w.monitor.mvDelta⟩, w.calls,
          w.lastRedraw⟩) := by
  by_cases hupper : mvMax ≤ w.monitor.millivolts + w.monitor.mvDelta
  · left
    have hredraw : w.monitor.redrawAt = some .upper := if_pos hupper
    have hclamp : w.monitor.advance.clampRails (rand w.calls) = ⟨mvMax, -(rand w.calls).toNat⟩ :=
      if_pos hupper
    rw [next, VoltageMonitor.next, hclamp, suppressSpike_mvMax, hredraw]
    exact ⟨hupper, rfl⟩
  · right
    -- Below the upper rail there is no spike to suppress.
    by_cases hlower : w.monitor.millivolts + w.monitor.mvDelta ≤ mvMin
    · left
      have hredraw : w.monitor.redrawAt = some .lower := (if_neg hupper).trans (if_pos hlower)
      have hclamp : w.monitor.advance.clampRails (rand w.calls) = ⟨mvMin, (rand w.calls).toNat⟩ :=
        (if_neg hupper).trans (if_pos hlower)
      rw [next, VoltageMonitor.next, hclamp, suppressSpike_of_lt mvMin_lt_mvMax, hredraw]
      exact ⟨hlower, rfl⟩
    · right
      have hredraw : w.monitor.redrawAt = none := (if_neg hupper).trans (if_neg hlower)
      have hclamp : w.monitor.advance.clampRails (rand w.calls) = w.monitor.advance :=
        (if_neg hupper).trans (if_neg hlower)
      rw [next, VoltageMonitor.next, hclamp, suppressSpike_of_lt (not_le.mp hupper), hredraw]
      exact ⟨not_le.mp hlower, not_le.mp hupper, rfl⟩

/-! ### The invariant -/

/-- The voltage is between the rails, and the step leads away from the one it was drawn at. -/
structure InRange (w : VoltageWalk) : Prop where
  mvMin_le : mvMin ≤ w.monitor.millivolts
  le_mvMax : w.monitor.millivolts ≤ mvMax
  le_delta : -255 ≤ w.monitor.mvDelta
  delta_le : w.monitor.mvDelta ≤ 255
  of_upper : w.lastRedraw = some .upper → w.monitor.mvDelta ≤ 0
  of_lower : w.lastRedraw = some .lower → 0 ≤ w.monitor.mvDelta

/-- A step is at most 255. -/
theorem rand_toNat_le (rand : ℕ → UInt8) (n : ℕ) : (rand n).toNat ≤ 255 :=
  Nat.le_of_lt_succ (rand n).toNat_lt

/-- The walk starts in range. -/
theorem inRange_init (rand : ℕ → UInt8) : (voltageMonitorTask rand).init.InRange := by
  have hbyte := rand_toNat_le rand 0
  exact {
    mvMin_le := Int.le_refl mvMin
    le_mvMax := mvMin_lt_mvMax.le
    le_delta := by
      show -255 ≤ ((rand 0).toNat : ℤ)
      omega
    delta_le := by
      show ((rand 0).toNat : ℤ) ≤ 255
      omega
    of_upper := nofun
    of_lower := nofun }

/-- Every iteration keeps the range, whatever byte is drawn and whatever flag is read. -/
theorem InRange.next (h : w.InRange) (rand : ℕ → UInt8) (flag : UInt32) :
    (w.next rand flag).InRange := by
  have hbyte := rand_toNat_le rand w.calls
  have hmin := mvMin_eq
  have hmax := mvMax_eq
  rcases next_cases rand flag w with ⟨-, hnext⟩ | ⟨-, hnext⟩ | ⟨hlow, hhigh, hnext⟩
  · have hstop : mvMin ≤ (if flag = 0 then mvMax - 1 else mvMax) ∧
        (if flag = 0 then mvMax - 1 else mvMax) ≤ mvMax := by
      split <;> omega
    rw [hnext]
    refine ⟨hstop.1, hstop.2, ?_, ?_, fun _ => ?_, nofun⟩
    all_goals simp only
    all_goals omega
  · rw [hnext]
    refine ⟨Int.le_refl mvMin, ?_, ?_, ?_, nofun, fun _ => ?_⟩
    all_goals simp only
    all_goals omega
  · rw [hnext]
    exact ⟨hlow.le, hhigh.le, h.le_delta, h.delta_le, h.of_upper, h.of_lower⟩

/-- The walk never leaves its range. -/
theorem inRange_of_reachable (h : (voltageMonitorTask rand).Reachable w) : w.InRange := by
  apply h.invariant (inRange_init rand)
  intro w flag w' hw hstep
  rw [← Option.some.inj hstep]
  exact hw.next rand flag

/-- No iteration fails. -/
theorem runFrom_total (rand : ℕ → UInt8) (w : VoltageWalk) (flags : List UInt32) :
    ∃ w', (voltageMonitorTask rand).runFrom w flags = some w' := by
  induction flags generalizing w with
  | nil => exact ⟨w, rfl⟩
  | cons flag flags ih => exact ih (w.next rand flag)

/-- The addition of the iteration does not overflow. -/
theorem InRange.add_bounds (h : w.InRange) :
    Int32.minValue.toInt ≤ w.monitor.millivolts + w.monitor.mvDelta ∧
      w.monitor.millivolts + w.monitor.mvDelta ≤ Int32.maxValue.toInt := by
  obtain ⟨hlow, hhigh, hle, hge, -, -⟩ := h
  have hint : Int32.minValue.toInt = -2147483648 ∧ Int32.maxValue.toInt = 2147483647 := by decide
  rw [mvMin_eq] at hlow
  rw [mvMax_eq] at hhigh
  omega

/-- The number of the `comms_send_voltage_data` of the iteration. -/
theorem InRange.posted_toInt (h : w.InRange) :
    w.monitor.posted.1.toInt = w.monitor.millivolts := by
  have hlow := h.mvMin_le
  have hhigh := h.le_mvMax
  rw [mvMin_eq] at hlow
  rw [mvMax_eq] at hhigh
  exact Int32.toInt_ofInt_of_le (by omega) (by omega)

/-- The next voltage is at most 255 away. -/
theorem InRange.abs_next_sub_le (h : w.InRange) (rand : ℕ → UInt8) (flag : UInt32) :
    |(w.next rand flag).monitor.millivolts - w.monitor.millivolts| ≤ 255 := by
  obtain ⟨hlow, hhigh, hle, hge, -, -⟩ := h
  have hmin := mvMin_eq
  have hmax := mvMax_eq
  rw [abs_le]
  rcases next_cases rand flag w with ⟨hrail, hnext⟩ | ⟨hrail, hnext⟩ | ⟨-, -, hnext⟩
  · rw [hnext]
    simp only
    split <;> omega
  · rw [hnext]
    simp only
    omega
  · rw [hnext]
    simp only
    omega

/-- The next message is a spike if and only if the upper rail is reached with fault injection
    on. -/
theorem posted_next_spike (rand : ℕ → UInt8) (flag : UInt32) (w : VoltageWalk) :
    (w.next rand flag).monitor.posted.2 = 1 ↔
      flag ≠ 0 ∧ mvMax ≤ w.monitor.millivolts + w.monitor.mvDelta := by
  have hspike : mvSpike = 13000 := rfl
  have hmin := mvMin_eq
  have hmax := mvMax_eq
  have hposted : (w.next rand flag).monitor.posted.2 = 1 ↔
      mvSpike ≤ (w.next rand flag).monitor.millivolts := by
    simp [VoltageMonitor.posted, VoltageMonitor.isSpike]
  rw [hposted]
  rcases next_cases rand flag w with ⟨hrail, hnext⟩ | ⟨hrail, hnext⟩ | ⟨-, hrail, hnext⟩
  · rw [hnext]
    by_cases hflag : flag = 0 <;> simp [hflag] <;> omega
  · rw [hnext]
    simp only
    omega
  · rw [hnext]
    simp only
    omega

end VoltageWalk

/-- **The walk under any fault injection.**  Whatever `rand8` returns and whatever is read from
    `g_do_voltage_spike`, the voltage stays between the rails, moves by at most 255 and is posted
    as it is, and a posted spike is an upper rail reached with fault injection on. -/
theorem voltage_walk_invariant (rand : ℕ → UInt8) (flags : List UInt32) :
    ∃ w, (voltageMonitorTask rand).run flags = some w ∧
      (mvMin ≤ w.monitor.millivolts ∧ w.monitor.millivolts ≤ mvMax) ∧
      (-255 ≤ w.monitor.mvDelta ∧ w.monitor.mvDelta ≤ 255) ∧
      (w.lastRedraw = some .upper → w.monitor.mvDelta ≤ 0) ∧
      (w.lastRedraw = some .lower → 0 ≤ w.monitor.mvDelta) ∧
      (Int32.minValue.toInt ≤ w.monitor.millivolts + w.monitor.mvDelta ∧
        w.monitor.millivolts + w.monitor.mvDelta ≤ Int32.maxValue.toInt) ∧
      w.monitor.posted.1.toInt = w.monitor.millivolts ∧
      (flags = [] → w.monitor.posted.2 = 0) ∧
      ∀ flag, ∃ w', (voltageMonitorTask rand).run (flags ++ [flag]) = some w' ∧
        |w'.monitor.posted.1.toInt - w.monitor.posted.1.toInt| ≤ 255 ∧
        (w'.monitor.posted.2 = 1 ↔
          flag ≠ 0 ∧ mvMax ≤ w.monitor.millivolts + w.monitor.mvDelta) := by
  obtain ⟨w, hw⟩ := VoltageWalk.runFrom_total rand (voltageMonitorTask rand).init flags
  have hrange : w.InRange := VoltageWalk.inRange_of_reachable ⟨flags, hw⟩
  refine ⟨w, hw, ⟨hrange.mvMin_le, hrange.le_mvMax⟩, ⟨hrange.le_delta, hrange.delta_le⟩,
    hrange.of_upper, hrange.of_lower, hrange.add_bounds, hrange.posted_toInt, ?_, ?_⟩
  · rintro rfl
    rw [← Option.some.inj hw]
    rfl
  · intro flag
    refine ⟨w.next rand flag, Machine.run_concat hw flag, ?_, w.posted_next_spike rand flag⟩
    rw [(hrange.next rand flag).posted_toInt, hrange.posted_toInt]
    exact hrange.abs_next_sub_le rand flag

/-- Steps of 250 reach the upper rail in the eighth iteration.  If it reads a flag other than 0,
    the next message is a spike, and the new step leads down. -/
example :
    ((voltageMonitorTask fun k => if k = 0 then 250 else 100).run [0, 0, 0, 0, 0, 0, 0, 1]).map
      (fun w => (w.monitor.posted, w.monitor.mvDelta, w.calls, w.lastRedraw)) =
        some ((13000, 1), -100, 2, some .upper) := by decide

/-- If it reads 0, the voltage is brought one below the limit. -/
example :
    ((voltageMonitorTask fun k => if k = 0 then 250 else 100).run [1, 1, 1, 1, 1, 1, 1, 0]).map
      (fun w => (w.monitor.posted, w.monitor.mvDelta, w.calls, w.lastRedraw)) =
        some ((12999, 0), -100, 2, some .upper) := by decide

namespace VoltageWalk

variable {rand : ℕ → UInt8} {flag : UInt32} {w : VoltageWalk} {k n : ℕ}

/-! ### Redraws -/

/-- The states of the runs that read `flag` in every iteration. -/
def HeldReachable (rand : ℕ → UInt8) (flag : UInt32) (w : VoltageWalk) : Prop :=
  ∃ n, (voltageMonitorTask rand).run (List.replicate n flag) = some w

/-- `rand8` is called again within 2000 iterations. -/
def Redraws (rand : ℕ → UInt8) (flag : UInt32) (w : VoltageWalk) : Prop :=
  ∃ k ≤ 2000, ∃ w', (voltageMonitorTask rand).runFrom w (List.replicate k flag) = some w' ∧
    w.calls < w'.calls

/-- The walk is at a rail, or it moves. -/
def Lively (w : VoltageWalk) : Prop :=
  mvMin < w.monitor.millivolts → w.monitor.millivolts < mvMax → w.monitor.mvDelta ≠ 0

/-- The walk `n` iterations later. -/
def after (rand : ℕ → UInt8) (flag : UInt32) (w : VoltageWalk) : ℕ → VoltageWalk
  | 0 => w
  | n + 1 => (w.after rand flag n).next rand flag

/-- A flag that is held gives the iterations of `after`. -/
theorem runFrom_replicate (rand : ℕ → UInt8) (flag : UInt32) (w : VoltageWalk) (n : ℕ) :
    (voltageMonitorTask rand).runFrom w (List.replicate n flag) = some (w.after rand flag n) := by
  induction n with
  | zero => rfl
  | succ n ih =>
    rw [List.replicate_succ', Machine.runFrom_concat_eq_some]
    exact ⟨_, ih, rfl⟩

/-- **Induction over the runs under one flag.** -/
theorem HeldReachable.induction {I : VoltageWalk → Prop} (h : HeldReachable rand flag w)
    (hinit : I (voltageMonitorTask rand).init) (hnext : ∀ w, I w → I (w.next rand flag)) : I w := by
  obtain ⟨n, hn⟩ := h
  have hflags : ∀ a ∈ List.replicate n flag, a = flag := fun a => List.eq_of_mem_replicate
  refine Machine.run_invariant hinit ?_ hflags hn
  intro w a w' ha hw hstep
  rw [← Option.some.inj hstep, ha]
  exact hnext w hw

/-- The range holds under a flag that is held as well. -/
theorem HeldReachable.inRange (h : HeldReachable rand flag w) : w.InRange :=
  h.induction (inRange_init rand) fun _ hw => hw.next rand flag

/-- An iteration gives back no byte. -/
theorem calls_le_next (rand : ℕ → UInt8) (flag : UInt32) (w : VoltageWalk) :
    w.calls ≤ (w.next rand flag).calls := by
  rcases next_cases rand flag w with ⟨-, hnext⟩ | ⟨-, hnext⟩ | ⟨-, -, hnext⟩
  · exact hnext ▸ Nat.le_succ w.calls
  · exact hnext ▸ Nat.le_succ w.calls
  · exact hnext ▸ Nat.le_refl w.calls

/-- Nor do many iterations. -/
theorem calls_le_after (rand : ℕ → UInt8) (flag : UInt32) (w : VoltageWalk) (n : ℕ) :
    w.calls ≤ (w.after rand flag n).calls := by
  induction n with
  | zero => exact Nat.le_refl w.calls
  | succ n ih => exact ih.trans (calls_le_next rand flag _)

/-- Until the next redraw the walk is a straight line between the rails. -/
theorem after_of_calls_le (h : (w.after rand flag n).calls ≤ w.calls) :
    (w.after rand flag n).monitor =
        ⟨w.monitor.millivolts + n * w.monitor.mvDelta, w.monitor.mvDelta⟩ ∧
      (n ≠ 0 → mvMin < w.monitor.millivolts + n * w.monitor.mvDelta ∧
        w.monitor.millivolts + n * w.monitor.mvDelta < mvMax) := by
  induction n with
  | zero => simp [after]
  | succ n ih =>
    have hgrow := calls_le_after rand flag w n
    have hnow := (calls_le_next rand flag (w.after rand flag n)).trans h
    obtain ⟨hline, -⟩ := ih hnow
    have hsum : w.monitor.millivolts + ((n + 1 : ℕ) : ℤ) * w.monitor.mvDelta =
        w.monitor.millivolts + n * w.monitor.mvDelta + w.monitor.mvDelta := by
      rw [Nat.cast_succ, add_mul, one_mul, add_assoc]
    rw [after] at h ⊢
    -- A redraw is one call more.
    rcases next_cases rand flag (w.after rand flag n) with
      ⟨-, hnext⟩ | ⟨-, hnext⟩ | ⟨hlow, hhigh, hnext⟩
    · rw [hnext] at h
      simp only at h
      omega
    · rw [hnext] at h
      simp only at h
      omega
    · rw [hline] at hlow hhigh hnext
      rw [hsum, hnext]
      exact ⟨rfl, fun _ => ⟨hlow, hhigh⟩⟩

/-- **Progress.**  A walk that is not stuck reaches a rail within 2000 iterations. -/
theorem InRange.redraws (h : w.InRange) (hlively : w.Lively) : Redraws rand flag w := by
  by_contra hnone
  have hcalls (k : ℕ) (hk : k ≤ 2000) : (w.after rand flag k).calls ≤ w.calls := by
    by_contra hmore
    exact hnone ⟨k, hk, _, runFrom_replicate rand flag w k, not_le.mp hmore⟩
  -- The line is between the rails after one iteration, and 2000 iterations later still.
  obtain ⟨-, hfirst⟩ := after_of_calls_le (hcalls 1 (by decide))
  obtain ⟨-, hlast⟩ := after_of_calls_le (hcalls 2000 (Nat.le_refl _))
  have hlow := h.mvMin_le
  have hhigh := h.le_mvMax
  rw [Lively] at hlively
  rw [mvMin_eq, mvMax_eq] at *
  omega

/-! ### The bytes that freeze the walk -/

/-- Every byte 0 comes after an even number of other bytes. -/
def ZerosAtLower (rand : ℕ → UInt8) : Prop :=
  ∀ n, rand n = 0 → Even (Nat.count (fun i => rand i ≠ 0) n)

/-- The walk stands still just below the upper rail. -/
def Frozen (w : VoltageWalk) : Prop :=
  w.monitor = ⟨mvMax - 1, 0⟩

/-- A frozen walk does not move under any flag. -/
theorem Frozen.next (h : w.Frozen) (rand : ℕ → UInt8) (flag : UInt32) : w.next rand flag = w := by
  rw [Frozen] at h
  rcases next_cases rand flag w with ⟨hrail, hnext⟩ | ⟨hrail, hnext⟩ | ⟨-, -, hnext⟩
  · rw [h] at hrail
    exact absurd hrail (by decide)
  · rw [h] at hrail
    exact absurd hrail (by decide)
  · rw [hnext, h]
    simp only [add_zero]
    rw [← h]

/-- With fault injection off, byte number `n` was the last one drawn.  The rails alternate with
    the bytes other than 0, so its rail is known; and it was no 0 at the upper rail. -/
structure Drawn (rand : ℕ → UInt8) (n : ℕ) (w : VoltageWalk) : Prop where
  calls : w.calls = n + 1
  mvMin_le : mvMin ≤ w.monitor.millivolts
  lt_mvMax : w.monitor.millivolts < mvMax
  delta :
    (Even (Nat.count (fun i => rand i ≠ 0) n) ∧ w.monitor.mvDelta = (rand n).toNat ∧
      (rand n = 0 → w.monitor.millivolts = mvMin)) ∨
    (¬ Even (Nat.count (fun i => rand i ≠ 0) n) ∧ w.monitor.mvDelta = -(rand n).toNat ∧
      rand n ≠ 0)

/-- A byte is 0 as a number if it is 0. -/
theorem toNat_eq_zero_iff (b : UInt8) : b.toNat = 0 ↔ b = 0 := by
  rw [← UInt8.toNat_inj]
  rfl

/-- A byte other than 0 flips the parity of the count of such bytes. -/
theorem even_count_succ (h : rand n ≠ 0) :
    Even (Nat.count (fun i => rand i ≠ 0) (n + 1)) ↔
      ¬ Even (Nat.count (fun i => rand i ≠ 0) n) := by
  rw [Nat.count_succ, if_pos h, Nat.even_add_one]

/-- A byte 0 leaves the count as it is. -/
theorem count_succ_of_zero (h : rand n = 0) :
    Nat.count (fun i => rand i ≠ 0) (n + 1) = Nat.count (fun i => rand i ≠ 0) n := by
  rw [Nat.count_succ, if_neg (not_not.mpr h), Nat.add_zero]

/-- Byte 0 is drawn before the loop, as if at the lower rail. -/
theorem drawn_init (rand : ℕ → UInt8) : Drawn rand 0 (voltageMonitorTask rand).init where
  calls := rfl
  mvMin_le := Int.le_refl mvMin
  lt_mvMax := mvMin_lt_mvMax
  delta := .inl ⟨by simp, rfl, fun _ => rfl⟩

/-- Between the rails such a walk moves. -/
theorem Drawn.lively (h : Drawn rand n w) : w.Lively := by
  intro hlow hhigh hzero
  have hbyte := toNat_eq_zero_iff (rand n)
  obtain ⟨-, hdelta, hstart⟩ | ⟨-, hdelta, hne⟩ := h.delta
  · rw [hstart (hbyte.mp (by omega))] at hlow
    exact absurd hlow (lt_irrefl _)
  · exact hne (hbyte.mp (by omega))

/-- **The step.**  The last byte stays the same, or another one is drawn, and a 0 that is drawn at
    the upper rail freezes the walk. -/
theorem Drawn.next (h : Drawn rand n w) :
    Drawn rand n (w.next rand 0) ∨ Drawn rand (n + 1) (w.next rand 0) ∨
      (rand (n + 1) = 0 ∧ ¬ Even (Nat.count (fun i => rand i ≠ 0) (n + 1)) ∧
        (w.next rand 0).Frozen) := by
  have hbyte := toNat_eq_zero_iff (rand n)
  obtain ⟨hcalls, hlow, hhigh, hdelta⟩ := h
  rcases next_cases rand 0 w with ⟨hrail, hnext⟩ | ⟨hrail, hnext⟩ | ⟨hin, hin', hnext⟩
  · -- Up to the upper rail: the last byte was drawn at the lower one and was not 0.
    right
    obtain ⟨heven, hup, -⟩ | ⟨-, hdown, -⟩ := hdelta
    · have hne : rand n ≠ 0 := hbyte.not.mp (by omega)
      have hodd : ¬ Even (Nat.count (fun i => rand i ≠ 0) (n + 1)) :=
        fun hsucc => (even_count_succ hne).mp hsucc heven
      rw [hnext, hcalls, if_pos rfl]
      by_cases hzero : rand (n + 1) = 0
      · right
        refine ⟨hzero, hodd, ?_⟩
        simp [Frozen, hzero]
      · left
        exact ⟨rfl, Int.le_sub_one_of_lt mvMin_lt_mvMax, Int.sub_one_lt_of_le le_rfl,
          .inr ⟨hodd, rfl, hzero⟩⟩
    · omega
  · -- Down to the lower rail: the last byte was drawn at the upper one, or it was 0.
    right
    left
    have heven : Even (Nat.count (fun i => rand i ≠ 0) (n + 1)) := by
      obtain ⟨heven, hup, -⟩ | ⟨hodd, -, hne⟩ := hdelta
      · rwa [count_succ_of_zero (hbyte.mp (by omega))]
      · exact (even_count_succ hne).mpr hodd
    rw [hnext, hcalls]
    exact ⟨rfl, Int.le_refl mvMin, mvMin_lt_mvMax, .inl ⟨heven, rfl, fun _ => rfl⟩⟩
  · left
    rw [hnext]
    refine ⟨hcalls, hin.le, hin', ?_⟩
    obtain ⟨heven, hup, hstart⟩ | hupper := hdelta
    · -- A walk that moved away from the lower rail has a step other than 0.
      refine .inl ⟨heven, hup, fun hzero => ?_⟩
      have hstill := hstart hzero
      have hstep := hbyte.mpr hzero
      omega
    · exact .inr hupper

/-- With fault injection on a walk that was drawn a 0 is at a rail. -/
theorem Lively.next (h : w.Lively) (hflag : flag ≠ 0) : (w.next rand flag).Lively := by
  intro hlow hhigh hzero
  rcases next_cases rand flag w with ⟨-, hnext⟩ | ⟨-, hnext⟩ | ⟨-, -, hnext⟩
  · rw [hnext, if_neg hflag] at hhigh
    exact absurd hhigh (lt_irrefl _)
  · rw [hnext] at hlow
    exact absurd hlow (lt_irrefl _)
  · rw [hnext] at hlow hhigh hzero
    simp only at hlow hhigh hzero
    rw [hzero, add_zero] at hlow hhigh
    exact h hlow hhigh hzero

/-- Under a flag that is on, or with all zeros at the lower rail, the walk keeps moving. -/
theorem HeldReachable.lively (h : HeldReachable rand flag w)
    (hbytes : flag ≠ 0 ∨ ZerosAtLower rand) : w.Lively := by
  by_cases hflag : flag = 0
  · have hzeros : ZerosAtLower rand := hbytes.resolve_left (not_not.mpr hflag)
    have hdrawn : ∃ n, Drawn rand n w := by
      refine h.induction (I := fun w => ∃ n, Drawn rand n w) ⟨0, drawn_init rand⟩ ?_
      rintro w ⟨n, hw⟩
      obtain hsame | hnew | ⟨hzero, hodd, -⟩ := hw.next
      · exact ⟨n, hflag ▸ hsame⟩
      · exact ⟨n + 1, hflag ▸ hnew⟩
      · exact absurd (hzeros _ hzero) hodd
    obtain ⟨n, hn⟩ := hdrawn
    exact hn.lively
  · refine h.induction ?_ fun w hw => hw.next hflag
    exact fun hlow => absurd hlow (lt_irrefl _)

/-- A bad byte is drawn at last, or the walk freezes before. -/
theorem HeldReachable.calls_le_or_frozen (h : HeldReachable rand 0 w) (hzero : rand n = 0)
    (hodd : ¬ Even (Nat.count (fun i => rand i ≠ 0) n)) : w.calls ≤ n ∨ w.Frozen := by
  have hdrawn : (∃ m < n, Drawn rand m w) ∨ w.Frozen := by
    refine h.induction (I := fun w => (∃ m < n, Drawn rand m w) ∨ w.Frozen)
      (.inl ⟨0, ?_, drawn_init rand⟩) ?_
    · apply Nat.pos_of_ne_zero
      rintro rfl
      simp at hodd
    · rintro w (⟨m, hm, hw⟩ | hfrozen)
      · obtain hsame | hnew | ⟨-, -, hfrozen⟩ := hw.next
        · exact .inl ⟨m, hm, hsame⟩
        · -- Number `n` itself cannot be drawn and leave the walk moving.
          refine .inl ⟨m + 1, lt_of_le_of_ne hm ?_, hnew⟩
          rintro rfl
          rcases hnew.delta with ⟨heven, -, -⟩ | ⟨-, -, hne⟩
          · exact hodd heven
          · exact hne hzero
        · exact .inr hfrozen
      · rw [hfrozen.next rand 0]
        exact .inr hfrozen
  rcases hdrawn with ⟨m, hm, hw⟩ | hfrozen
  · exact .inl (hw.calls ▸ hm)
  · exact .inr hfrozen

/-- The start is reached in no iterations. -/
theorem HeldReachable.init (rand : ℕ → UInt8) (flag : UInt32) :
    HeldReachable rand flag (voltageMonitorTask rand).init :=
  ⟨0, rfl⟩

/-- What is reached from a reached state is reached. -/
theorem HeldReachable.runFrom {w' : VoltageWalk} (h : HeldReachable rand flag w)
    (hrun : (voltageMonitorTask rand).runFrom w (List.replicate k flag) = some w') :
    HeldReachable rand flag w' := by
  obtain ⟨n, hn⟩ := h
  refine ⟨n + k, ?_⟩
  rw [Machine.run] at hn ⊢
  rw [List.replicate_add, Machine.runFrom_append, hn]
  exact hrun

/-- Conversely, a walk that keeps redrawing has all its zeros at the lower rail. -/
theorem zerosAtLower_of_redraws (h : ∀ w, HeldReachable rand 0 w → Redraws rand 0 w) :
    ZerosAtLower rand := by
  by_contra hbytes
  obtain ⟨n, hzero, hodd⟩ : ∃ n, rand n = 0 ∧ ¬ Even (Nat.count (fun i => rand i ≠ 0) n) := by
    simpa only [ZerosAtLower, not_forall, exists_prop] using hbytes
  -- A walk that redraws again and again makes more than `n` calls.
  have hmany (m : ℕ) : ∃ w, HeldReachable rand 0 w ∧ m ≤ w.calls := by
    induction m with
    | zero => exact ⟨_, .init rand 0, Nat.zero_le _⟩
    | succ m ih =>
      obtain ⟨w, hw, hm⟩ := ih
      obtain ⟨k, -, w', hrun, hcalls⟩ := h w hw
      exact ⟨w', hw.runFrom hrun, Nat.lt_of_le_of_lt hm hcalls⟩
  obtain ⟨w, hw, hcalls⟩ := hmany (n + 1)
  rcases hw.calls_le_or_frozen hzero hodd with hle | hfrozen
  · omega
  · -- And then it is frozen, and draws no more.
    obtain ⟨k, -, w', hrun, hlt⟩ := h w hw
    have hstill : w.after rand 0 k = w := by
      clear hrun
      induction k with
      | zero => rfl
      | succ k ih => rw [after, ih, hfrozen.next rand 0]
    rw [runFrom_replicate, hstill] at hrun
    rw [Option.some.inj hrun] at hlt
    exact absurd hlt (lt_irrefl _)

end VoltageWalk

/-- **When the walk freezes.**  Under a flag that is held fixed, the walk redraws within 2000
    iterations of every state it reaches, and moves in every state between the rails, if and only
    if fault injection is on or every byte 0 comes after an even number of other bytes. -/
theorem voltage_walk_never_freezes_iff (rand : ℕ → UInt8) (flag : UInt32) :
    ((∀ w, VoltageWalk.HeldReachable rand flag w → VoltageWalk.Redraws rand flag w) ↔
        flag ≠ 0 ∨ VoltageWalk.ZerosAtLower rand) ∧
      ((∀ w, VoltageWalk.HeldReachable rand flag w →
          mvMin < w.monitor.millivolts → w.monitor.millivolts < mvMax → w.monitor.mvDelta ≠ 0) ↔
        flag ≠ 0 ∨ VoltageWalk.ZerosAtLower rand) := by
  have hlively (hbytes : flag ≠ 0 ∨ VoltageWalk.ZerosAtLower rand) (w : VoltageWalk)
      (hw : VoltageWalk.HeldReachable rand flag w) : w.Lively := hw.lively hbytes
  have hredraws (hmoves : ∀ w, VoltageWalk.HeldReachable rand flag w → w.Lively)
      (w : VoltageWalk) (hw : VoltageWalk.HeldReachable rand flag w) :
      VoltageWalk.Redraws rand flag w := hw.inRange.redraws (hmoves w hw)
  have hbytes (h : ∀ w, VoltageWalk.HeldReachable rand flag w → VoltageWalk.Redraws rand flag w) :
      flag ≠ 0 ∨ VoltageWalk.ZerosAtLower rand := by
    by_cases hflag : flag = 0
    · subst hflag
      exact .inr (VoltageWalk.zerosAtLower_of_redraws h)
    · exact .inl hflag
  exact ⟨⟨hbytes, fun h => hredraws (hlively h)⟩, ⟨fun h => hbytes (hredraws h), hlively⟩⟩

/-! ### The bytes of `rand8` -/

/-- Whether one of the next `n` bytes is a 0 that comes after an odd number of other bytes, if
    `even` tells whether the number so far is even. -/
def Rand8.findsZero : ℕ → Rand8 → Bool → Bool
  | 0, _, _ => false
  | n + 1, s, even =>
    if (rand8 s).2 = 0 then !even || findsZero n s.step even else findsZero n s.step !even

/-- The search finds a byte on which the walk freezes. -/
theorem Rand8.not_zerosAtLower_of_findsZero {n k : ℕ}
    (h : findsZero k (after n) (decide (Even (Nat.count (fun i => bytes i ≠ 0) n))) = true) :
    ¬ VoltageWalk.ZerosAtLower bytes := by
  induction k generalizing n with
  | zero => exact absurd h Bool.false_ne_true
  | succ k ih =>
    have hstep : (after n).step = after (n + 1) := (Function.iterate_succ_apply' _ _ _).symm
    rw [findsZero, hstep] at h
    by_cases hzero : bytes n = 0
    · have hcount := VoltageWalk.count_succ_of_zero hzero
      rw [bytes] at hzero
      rw [if_pos hzero, Bool.or_eq_true] at h
      rcases h with hodd | hlater
      · intro hbytes
        have heven := hbytes n hzero
        simp [heven] at hodd
      · rw [← hcount] at hlater
        exact ih hlater
    · have hflip := VoltageWalk.even_count_succ hzero
      rw [bytes] at hzero
      rw [if_neg hzero, ← decide_not, ← decide_eq_decide.mpr hflip] at h
      exact ih h

/-- The bytes that `rand8` returns freeze the walk: the 762nd is a 0, after 757 other bytes. -/
theorem not_voltage_walk_never_freezes :
    ¬ ∀ w, VoltageWalk.HeldReachable Rand8.bytes 0 w → VoltageWalk.Redraws Rand8.bytes 0 w := by
  intro h
  have hfind : Rand8.findsZero 762 (Rand8.after 0) true = true := by decide +kernel
  apply Rand8.not_zerosAtLower_of_findsZero (n := 0) (k := 762)
  · simpa using hfind
  · exact VoltageWalk.zerosAtLower_of_redraws h

end Wallbot.Freertos
