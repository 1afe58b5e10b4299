import Wallbot.VoltageWalk

namespace Wallbot.Freertos

/-!
# The recurrence of spikes — fault injection that is left on

While `g_do_voltage_spike` is set, the walk of the voltage is to reach the upper rail again and
again, as the spikes are what the test framework asks for.  How long that takes depends on the
bytes of `rand8`: a 0 keeps the walk at the lower rail.

* `Rand8.exists_bytes_ne_zero` — of nine consecutive bytes of `rand8` one is not 0.
* `VoltageWalk.InRange.first_redraw` — a leg of the walk, from any state to the next rail.
* `VoltageWalk.lively_or_frozen` — under any flags the walk moves, or stands still for good.
* `spikes_recur` — the next spike comes within 4008 iterations, unless the walk stands still.
-/

namespace Rand8

/-- The calls of `rand8` are steps of the generator. -/
theorem toMwc_after (n i : ℕ) :
    (after (n + i)).toMwc = (LaggedMwc.next 256 315)^[i] (after n).toMwc := by
  induction i with
  | zero => rfl
  | succ i ih =>
    have hstep : after (n + (i + 1)) = (after (n + i)).step :=
      Function.iterate_succ_apply' step (n + i) seed
    rw [hstep, (inRange_after (n + i)).toMwc_step, ih, Function.iterate_succ_apply']

/-- The bytes are its outputs. -/
theorem bytes_toNat (n : ℕ) :
    (bytes n).toNat = LaggedMwc.output 256 315 (after n).toMwc := by
  have hrange := inRange_after n
  rw [bytes, hrange.rand8_toNat.1, hrange.toMwc_eq]
  rfl

/-- **The bytes of `rand8`**: no nine in a row are 0. -/
theorem exists_bytes_ne_zero (n : ℕ) : ∃ i < 9, bytes (n + i) ≠ 0 := by
  have hlen : (after n).toMwc.words.length = 7 := by
    simp [toMwc, (after n).size, stateBytes]
  have hnot : ¬ LaggedMwc.Absorbing 256 315
      ((LaggedMwc.next 256 315)^[(after n).toMwc.words.length] (after n).toMwc) := by
    rw [hlen, ← toMwc_after, ← absorbing_iff]
    exact not_absorbing_after (n + 7)
  have hwords : (after n).toMwc.words ≠ [] := by
    intro hnil
    rw [hnil] at hlen
    cases hlen
  obtain ⟨i, hi, hne⟩ :=
    LaggedMwc.exists_output_ne_zero (inRange_after n).valid (by decide) hwords hnot
  refine ⟨i, by omega, fun hzero => hne ?_⟩
  rw [← toMwc_after, ← bytes_toNat, hzero]
  rfl

end Rand8

namespace VoltageWalk

variable {rand : ℕ → UInt8} {flag : UInt32} {w : VoltageWalk}

/-- Iterations add up. -/
theorem after_add (rand : ℕ → UInt8) (flag : UInt32) (w : VoltageWalk) (m n : ℕ) :
    w.after rand flag (m + n) = (w.after rand flag m).after rand flag n := by
  induction n with
  | zero => rfl
  | succ n ih =>
    show (w.after rand flag (m + n)).next rand flag = _
    rw [ih]
    rfl

/-- The range is kept by any number of iterations. -/
theorem InRange.iterate (h : w.InRange) (rand : ℕ → UInt8) (flag : UInt32) (n : ℕ) :
    (w.after rand flag n).InRange := by
  induction n with
  | zero => exact h
  | succ n ih => exact ih.next rand flag

/-- A walk that stands at the upper rail posts a spike. -/
theorem isSpike_mvMax (delta : ℤ) : VoltageMonitor.isSpike ⟨mvMax, delta⟩ = true := rfl

/-- **A leg of the walk.**  With fault injection on, the next rail is the upper one, where a spike
    is left, or the lower one. -/
theorem InRange.first_redraw (h : w.InRange) (rand : ℕ → UInt8) (hlively : w.Lively)
    (hflag : flag ≠ 0) :
    ∃ k, 1 ≤ k ∧ k ≤ 2000 ∧
      ((w.after rand flag k).monitor.isSpike = true ∨
        w.after rand flag k =
            ⟨⟨mvMin, (rand w.calls).toNat⟩, w.calls + 1, some .lower⟩ ∧
          w.monitor.millivolts + k * w.monitor.mvDelta ≤ mvMin) := by
  have hredraws : ∃ k, w.calls < (w.after rand flag k).calls ∧ k ≤ 2000 := by
    obtain ⟨k, hk, w', hrun, hcalls⟩ : Redraws rand flag w := h.redraws hlively
    rw [runFrom_replicate] at hrun
    obtain rfl := Option.some.inj hrun
    exact ⟨k, hcalls, hk⟩
  classical
  -- The first iteration with a redraw, and the one before it.
  obtain ⟨hcalls, hle⟩ := Nat.find_spec hredraws
  have hmin : ∀ j < Nat.find hredraws, ¬ w.calls < (w.after rand flag j).calls := by
    intro j hj hlt
    exact Nat.find_min hredraws hj ⟨hlt, (hj.trans_le hle).le⟩
  obtain ⟨j, hj⟩ : ∃ j, Nat.find hredraws = j + 1 := by
    refine Nat.exists_eq_succ_of_ne_zero fun hzero => ?_
    rw [hzero] at hcalls
    exact lt_irrefl _ hcalls
  rw [hj] at hcalls hle hmin
  have hbefore : (w.after rand flag j).calls ≤ w.calls := not_lt.mp (hmin j (Nat.lt_succ_self j))
  have hsame : (w.after rand flag j).calls = w.calls :=
    Nat.le_antisymm hbefore (calls_le_after rand flag w j)
  obtain ⟨hline, -⟩ := after_of_calls_le hbefore
  refine ⟨j + 1, Nat.succ_pos j, hle, ?_⟩
  rw [after] at hcalls ⊢
  rcases next_cases rand flag (w.after rand flag j) with
    ⟨-, hnext⟩ | ⟨hrail, hnext⟩ | ⟨-, -, hnext⟩
  · left
    rw [hnext, if_neg hflag]
    exact isSpike_mvMax _
  · right
    rw [hline] at hrail
    rw [hnext, hsame]
    refine ⟨rfl, ?_⟩
    push_cast
    linarith
  · rw [hnext] at hcalls
    exact absurd hcalls (not_lt.mpr hbefore)

/-- While it draws 0 at the lower rail, the walk stays there. -/
theorem after_zeros {n k : ℕ} (hzeros : ∀ i < k, rand (n + i) = 0) :
    after rand flag ⟨⟨mvMin, (rand n).toNat⟩, n + 1, some .lower⟩ k =
      ⟨⟨mvMin, (rand (n + k)).toNat⟩, n + k + 1, some .lower⟩ := by
  induction k with
  | zero => rfl
  | succ k ih =>
    have hzero := hzeros k (Nat.lt_succ_self k)
    rw [after, ih fun i hi => hzeros i (Nat.lt_succ_of_lt hi), hzero]
    rcases next_cases rand flag ⟨⟨mvMin, (0 : UInt8).toNat⟩, n + k + 1, some .lower⟩ with
      ⟨hrail, -⟩ | ⟨-, hnext⟩ | ⟨hrail, -, -⟩
    · exact absurd (show mvMax ≤ mvMin + 0 from hrail) (by decide)
    · rw [hnext]
      rfl
    · exact absurd (show mvMin < mvMin + 0 from hrail) (by decide)

/-- **Recurrence.**  A walk that is not stuck leaves a spike within 3999 iterations and as many as
    it may take to draw a byte other than 0. -/
theorem InRange.spikes (h : w.InRange) (hlively : w.Lively) (hflag : flag ≠ 0) {m : ℕ}
    (hbytes : ∀ n, ∃ i < m, rand (n + i) ≠ 0) :
    ∃ k, 1 ≤ k ∧ k ≤ 3999 + m ∧ (w.after rand flag k).monitor.isSpike = true := by
  obtain ⟨k, hk, hle, hspike | ⟨hlower, -⟩⟩ := h.first_redraw rand hlively hflag
  · exact ⟨k, hk, by omega, hspike⟩
  · classical
    -- From the lower rail the walk goes up as soon as the byte is not 0.
    obtain ⟨hi, hne⟩ := Nat.find_spec (hbytes w.calls)
    have hzeros : ∀ j < Nat.find (hbytes w.calls), rand (w.calls + j) = 0 := by
      intro j hj
      by_contra hbyte
      exact Nat.find_min (hbytes w.calls) hj ⟨by omega, hbyte⟩
    generalize Nat.find (hbytes w.calls) = i at hi hne hzeros
    have hclimb : w.after rand flag (k + i) =
        ⟨⟨mvMin, (rand (w.calls + i)).toNat⟩, w.calls + i + 1, some .lower⟩ := by
      rw [after_add, hlower]
      exact after_zeros hzeros
    have hrange : (w.after rand flag (k + i)).InRange := h.iterate rand flag (k + i)
    have hlively' : (w.after rand flag (k + i)).Lively := by
      rw [hclimb]
      exact fun hlow => absurd hlow (lt_irrefl _)
    obtain ⟨k', hk', hle', hspike | ⟨-, hdown⟩⟩ := hrange.first_redraw rand hlively' hflag
    · refine ⟨k + i + k', by omega, by omega, ?_⟩
      rw [after_add]
      exact hspike
    · -- And so it does not come back to the lower one.
      have hpos : 0 < ((rand (w.calls + i)).toNat : ℤ) := by
        have hbyte := (toNat_eq_zero_iff (rand (w.calls + i))).not.mpr hne
        omega
      rw [hclimb] at hdown
      simp only at hdown
      have hup : 0 < (k' : ℤ) * (rand (w.calls + i)).toNat := by positivity
      omega

/-- **Under any flags** a reachable walk moves, or it is frozen. -/
theorem lively_or_frozen (h : (voltageMonitorTask rand).Reachable w) : w.Lively ∨ w.Frozen := by
  refine h.invariant (I := fun w => w.Lively ∨ w.Frozen)
    (.inl fun hlow => absurd hlow (lt_irrefl _)) ?_
  rintro w flag w' (hlively | hfrozen) hs
  · obtain rfl := Option.some.inj hs
    by_cases hflag : flag = 0
    · rcases next_cases rand flag w with ⟨-, hnext⟩ | ⟨-, hnext⟩ | ⟨hlow, hhigh, hnext⟩
      · -- Just below the upper rail, it depends on the byte.
        by_cases hbyte : rand w.calls = 0
        · right
          rw [hnext, if_pos hflag, Frozen, hbyte]
          rfl
        · left
          rw [hnext]
          intro _ _ hdelta
          have hne := (toNat_eq_zero_iff (rand w.calls)).not.mpr hbyte
          simp only at hdelta
          omega
      · left
        rw [hnext]
        exact fun hlow => absurd hlow (lt_irrefl _)
      · left
        rw [hnext]
        intro _ _ hdelta
        simp only at hdelta
        rw [hdelta, add_zero] at hlow hhigh
        exact hlively hlow hhigh hdelta
    · exact .inl (hlively.next hflag)
  · obtain rfl := Option.some.inj hs
    rw [hfrozen.next rand flag]
    exact .inr hfrozen

/-- A frozen walk stays as it is. -/
theorem Frozen.after (h : w.Frozen) (rand : ℕ → UInt8) (flag : UInt32) (k : ℕ) :
    w.after rand flag k = w := by
  induction k with
  | zero => rfl
  | succ k ih => rw [VoltageWalk.after, ih, h.next rand flag]

/-- A frozen walk posts no spike. -/
theorem Frozen.not_isSpike (h : w.Frozen) : w.monitor.isSpike = false := by
  rw [h]
  rfl

end VoltageWalk

open VoltageWalk in
/-- **Spikes recur.**  Whatever was read from `g_do_voltage_spike` before, from the iteration on
    that it is left on, the next spike comes within 4008 iterations, unless a byte 0 has stopped
    the walk just below the upper rail; and then there is none any more. -/
theorem spikes_recur {w : VoltageWalk} (h : (voltageMonitorTask Rand8.bytes).Reachable w)
    {flag : UInt32} (hflag : flag ≠ 0) :
    (¬ w.Frozen ↔
        ∃ k, 1 ≤ k ∧ k ≤ 4008 ∧ (w.after Rand8.bytes flag k).monitor.isSpike = true) ∧
      (w.Frozen → ∀ k, (w.after Rand8.bytes flag k).monitor.isSpike = false) := by
  have hnever : w.Frozen → ∀ k, (w.after Rand8.bytes flag k).monitor.isSpike = false := by
    intro hfrozen k
    rw [hfrozen.after Rand8.bytes flag k]
    exact hfrozen.not_isSpike
  refine ⟨⟨fun hnot => ?_, ?_⟩, hnever⟩
  · have hlively := (lively_or_frozen h).resolve_right hnot
    exact (inRange_of_reachable h).spikes hlively hflag Rand8.exists_bytes_ne_zero
  · rintro ⟨k, -, -, hspike⟩ hfrozen
    rw [hnever hfrozen k] at hspike
    cases hspike

/-- Fault injection is left on from the start. -/
theorem spikes_recur_start :
    ∃ k, 1 ≤ k ∧ k ≤ 4008 ∧
      ((voltageMonitorTask Rand8.bytes).init.after Rand8.bytes 1 k).monitor.isSpike = true := by
  have hnot : ¬ (voltageMonitorTask Rand8.bytes).init.Frozen := fun hfrozen =>
    absurd (congrArg VoltageMonitor.millivolts hfrozen) (by decide)
  exact (spikes_recur Machine.Reachable.init (by decide)).1.mp hnot

end Wallbot.Freertos
