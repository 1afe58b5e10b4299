import Mathlib.Algebra.BigOperators.Intervals
import Mathlib.Algebra.Field.GeomSum
import Mathlib.Algebra.Order.Ring.Nat
import Mathlib.Data.Nat.Count
import Mathlib.Data.Nat.Factorization.Basic
import Mathlib.Data.Nat.ModEq
import Mathlib.Data.Nat.Prime.Basic
import Mathlib.Dynamics.FixedPoints.Basic
import Mathlib.Tactic.Ring

/-!
# Library — linear congruential generators modulo powers of two

A generator of multiplier `a` and increment `c` goes from `x` to `a * x + c` modulo `m`.  Its low
bits have short periods, so its users put out some of the bits above them.

* `two_pow_dvd_sum_pow_iff` — geometric sums of a multiplier that is 1 modulo 4.
* `iterate_next_modEq_iff` — with such a multiplier and an odd increment, the low `d` bits of the
  states recur after `2 ^ d` steps, and not before.
* `exists_iterate_next_eq` — so all states lie on one cycle.
* `bits_period_iff`, `count_bits` — the bits `lo` to `lo + w` have the period `2 ^ (lo + w)`, in
  which they take every value the same number of times.
-/

namespace LinearCongruential

open Finset

/-- A step of the generator of multiplier `a` and increment `c` modulo `m`. -/
def next (a c m x : ℕ) : ℕ := (a * x + c) % m

/-- Multipliers and increments for which no power of two gives a short cycle. -/
structure FullPeriod (a c : ℕ) : Prop where
  multiplier : a % 4 = 1
  increment : c % 2 = 1

/-- The `w` bits of `x` from bit `lo` on. -/
def bits (lo w x : ℕ) : ℕ := x / 2 ^ lo % 2 ^ w

variable {a c m x y d k lo w : ℕ}

/-! ### Geometric sums -/

/-- Powers of a multiplier of the form `4 k + 1` are of that form. -/
theorem pow_mod_four (ha : a % 4 = 1) (k : ℕ) : a ^ k % 4 = 1 := by
  simp [Nat.pow_mod, ha]

/-- Each power adds an odd number. -/
theorem sum_pow_mod_two (ha : a % 4 = 1) (k : ℕ) : (∑ i ∈ range k, a ^ i) % 2 = k % 2 := by
  induction k with
  | zero => rfl
  | succ k ih =>
    have hpow := pow_mod_four ha k
    rw [sum_range_succ]
    omega

/-- A sum of twice as many powers, by its first half. -/
theorem sum_pow_add_self (a k : ℕ) :
    ∑ i ∈ range (k + k), a ^ i = (1 + a ^ k) * ∑ i ∈ range k, a ^ i := by
  have hshift : ∑ i ∈ range k, a ^ (k + i) = a ^ k * ∑ i ∈ range k, a ^ i := by
    rw [mul_sum]
    exact sum_congr rfl fun i _ => pow_add a k i
  rw [sum_range_add, hshift]
  ring

/-- **Geometric sums** have the powers of two of their lengths. -/
theorem two_pow_dvd_sum_pow_iff (ha : a % 4 = 1) (d k : ℕ) :
    2 ^ d ∣ ∑ i ∈ range k, a ^ i ↔ 2 ^ d ∣ k := by
  induction d generalizing k with
  | zero => simp
  | succ d ih =>
    rcases Nat.even_or_odd' k with ⟨j, rfl | rfl⟩
    · -- The two halves of the sum differ by a factor that is odd but for a single two.
      obtain ⟨u, hu⟩ : ∃ u, 1 + a ^ j = 2 * (2 * u + 1) := by
        have hpow := pow_mod_four ha j
        exact ⟨a ^ j / 4, by omega⟩
      have hcoprime : Nat.Coprime (2 ^ d) (2 * u + 1) :=
        Nat.Coprime.pow_left d (Nat.coprime_two_left.mpr ⟨u, rfl⟩)
      rw [two_mul j, sum_pow_add_self, hu, ← two_mul j, pow_succ', mul_assoc,
        Nat.mul_dvd_mul_iff_left two_pos, Nat.mul_dvd_mul_iff_left two_pos,
        hcoprime.dvd_mul_left, ih]
    · have hsum := sum_pow_mod_two ha (2 * j + 1)
      have hodd (n : ℕ) (hn : n % 2 = 1) : ¬ 2 ^ (d + 1) ∣ n := by
        intro hdvd
        have htwo : 2 ∣ n := (Dvd.intro_left _ (pow_succ 2 d).symm).trans hdvd
        omega
      exact iff_of_false (hodd _ (by omega)) (hodd _ (by omega))

/-! ### The low bits of the states -/

/-- The state after `k` steps, in closed form. -/
theorem iterate_next_modEq (a c m x k : ℕ) :
    (next a c m)^[k] x ≡ a ^ k * x + c * ∑ i ∈ range k, a ^ i [MOD m] := by
  induction k with
  | zero => simp [Nat.ModEq]
  | succ k ih =>
    rw [Function.iterate_succ_apply', next]
    have hstep : a * (next a c m)^[k] x + c ≡
        a * (a ^ k * x + c * ∑ i ∈ range k, a ^ i) + c [MOD m] := (ih.mul_left a).add_right c
    have hsum : a * (a ^ k * x + c * ∑ i ∈ range k, a ^ i) + c =
        a ^ (k + 1) * x + c * ∑ i ∈ range (k + 1), a ^ i := by
      rw [sum_range_succ', Finset.sum_congr rfl fun i _ => pow_succ' a i, ← mul_sum]
      ring
    exact (Nat.mod_modEq _ _).trans (hsum ▸ hstep)

/-- **A return of the low bits** takes a multiple of their period. -/
theorem iterate_next_modEq_self_iff (h : FullPeriod a c) (hd : 2 ^ d ∣ m) (x k : ℕ) :
    (next a c m)^[k] x ≡ x [MOD 2 ^ d] ↔ 2 ^ d ∣ k := by
  obtain ⟨q, rfl⟩ : ∃ q, a = 4 * q + 1 := ⟨a / 4, by have := h.multiplier; omega⟩
  have hclosed : (next (4 * q + 1) c m)^[k] x ≡
      x + (4 * q * x + c) * ∑ i ∈ range k, (4 * q + 1) ^ i [MOD 2 ^ d] := by
    have hiter := (iterate_next_modEq (4 * q + 1) c m x k).of_dvd hd
    rw [← geom_sum_mul_add (4 * q) k] at hiter
    have hring : ((∑ i ∈ range k, (4 * q + 1) ^ i) * (4 * q) + 1) * x +
        c * ∑ i ∈ range k, (4 * q + 1) ^ i =
        x + (4 * q * x + c) * ∑ i ∈ range k, (4 * q + 1) ^ i := by ring
    exact hring ▸ hiter
  have hcoprime : Nat.Coprime (2 ^ d) (4 * q * x + c) := by
    apply Nat.Coprime.pow_left
    rw [Nat.coprime_two_left, Nat.odd_iff]
    have hinc := h.increment
    have hfour : 4 * q * x = 2 * (2 * q * x) := by ring
    omega
  have hself : (next (4 * q + 1) c m)^[k] x ≡ x [MOD 2 ^ d] ↔
      x + (4 * q * x + c) * ∑ i ∈ range k, (4 * q + 1) ^ i ≡ x + 0 [MOD 2 ^ d] :=
    ⟨hclosed.symm.trans, hclosed.trans⟩
  rw [hself, Nat.ModEq.add_iff_left rfl, Nat.modEq_zero_iff_dvd, hcoprime.dvd_mul_left,
    two_pow_dvd_sum_pow_iff h.multiplier]

/-- **The low bits** of two states of a run agree exactly if their distance is a multiple of the
    period. -/
theorem iterate_next_modEq_iff (h : FullPeriod a c) (hd : 2 ^ d ∣ m) (x i j : ℕ) :
    (next a c m)^[i] x ≡ (next a c m)^[j] x [MOD 2 ^ d] ↔ i ≡ j [MOD 2 ^ d] := by
  wlog hle : j ≤ i generalizing i j
  · exact Nat.ModEq.comm.trans ((this j i (Nat.le_of_not_le hle)).trans Nat.ModEq.comm)
  · obtain ⟨k, rfl⟩ := Nat.exists_eq_add_of_le' hle
    have hzero : k + j ≡ j [MOD 2 ^ d] ↔ k + j ≡ 0 + j [MOD 2 ^ d] := by rw [Nat.zero_add]
    rw [Function.iterate_add_apply, iterate_next_modEq_self_iff h hd, hzero,
      Nat.ModEq.add_iff_right rfl, Nat.modEq_zero_iff_dvd]

/-- The low `d` bits run through all their values. -/
theorem injOn_iterate_next (h : FullPeriod a c) (hd : 2 ^ d ∣ m) (x : ℕ) :
    Set.InjOn (fun i => (next a c m)^[i] x % 2 ^ d) (range (2 ^ d)) := by
  intro i hi j hj heq
  rw [mem_coe, mem_range] at hi hj
  have hmod : i ≡ j [MOD 2 ^ d] := (iterate_next_modEq_iff h hd x i j).mp heq
  rwa [Nat.ModEq, Nat.mod_eq_of_lt hi, Nat.mod_eq_of_lt hj] at hmod

/-- A state is below the modulus. -/
theorem next_lt (hm : 0 < m) (x : ℕ) : next a c m x < m :=
  Nat.mod_lt _ hm

/-- In a period the low bits take every value once. -/
theorem image_iterate_next (h : FullPeriod a c) (hd : 2 ^ d ∣ m) (x : ℕ) :
    (range (2 ^ d)).image (fun i => (next a c m)^[i] x % 2 ^ d) = range (2 ^ d) := by
  apply eq_of_subset_of_card_le
  · rw [image_subset_iff]
    exact fun i _ => mem_range.mpr (Nat.mod_lt _ (Nat.two_pow_pos d))
  · rw [card_image_of_injOn (injOn_iterate_next h hd x)]

/-- **One cycle.** Every state leads to every other one. -/
theorem exists_iterate_next_eq (h : FullPeriod a c) (hx : x < 2 ^ d) (hy : y < 2 ^ d) :
    ∃ k, (next a c (2 ^ d))^[k] x = y := by
  have hmem := image_iterate_next h (dvd_refl (2 ^ d)) x ▸ mem_range.mpr hy
  obtain ⟨k, -, hk⟩ := mem_image.mp hmem
  have hlt : (next a c (2 ^ d))^[k] x < 2 ^ d := by
    cases k with
    | zero => exact hx
    | succ k =>
      rw [Function.iterate_succ_apply']
      exact next_lt (Nat.two_pow_pos d) _
  exact ⟨k, by rw [Nat.mod_eq_of_lt hlt] at hk; exact hk⟩

/-! ### The bits that are put out -/

/-- The bits from `lo` on are bits of the low `lo + w` ones. -/
theorem bits_eq_mod_div (lo w x : ℕ) : bits lo w x = x % 2 ^ (lo + w) / 2 ^ lo := by
  rw [bits, pow_add, Nat.mod_mul_right_div_self]

/-- Bits depend on the lower bits of the state only. -/
theorem bits_congr (h : x ≡ y [MOD 2 ^ (lo + w)]) : bits lo w x = bits lo w y := by
  rw [bits_eq_mod_div, bits_eq_mod_div, h]

/-- The bits and those below them are the low `lo + w` bits. -/
theorem modEq_of_bits_eq (hlo : x ≡ y [MOD 2 ^ lo]) (hbits : bits lo w x = bits lo w y) :
    x ≡ y [MOD 2 ^ (lo + w)] := by
  rw [Nat.ModEq] at hlo ⊢
  rw [bits, bits] at hbits
  rw [pow_add, Nat.mod_mul, Nat.mod_mul, hlo, hbits]

/-- **The period** of the bits. -/
theorem bits_period_iff (h : FullPeriod a c) (hm : 2 ^ (lo + w) ∣ m) (hw : 0 < w) (x p : ℕ) :
    (∀ i, bits lo w ((next a c m)^[i + p] x) = bits lo w ((next a c m)^[i] x)) ↔
      2 ^ (lo + w) ∣ p := by
  constructor
  · intro hper
    -- A multiple of `p` that is one of `2 ^ lo` brings the bits below back as well.
    have hmul (n : ℕ) : bits lo w ((next a c m)^[n * p] x) = bits lo w x := by
      induction n with
      | zero => rw [Nat.zero_mul]; rfl
      | succ n ih => rw [Nat.succ_mul, hper, ih]
    have hret (n : ℕ) (hn : 2 ^ lo ∣ n * p) : 2 ^ (lo + w) ∣ n * p := by
      have hlo : 2 ^ lo ∣ m := (pow_dvd_pow 2 (Nat.le_add_right lo w)).trans hm
      rw [← iterate_next_modEq_self_iff h hm x]
      exact modEq_of_bits_eq ((iterate_next_modEq_self_iff h hlo x _).mpr hn) (hmul n)
    rcases Nat.eq_zero_or_pos p with rfl | hp
    · exact dvd_zero _
    · obtain ⟨e, u, hu, rfl⟩ := Nat.exists_eq_two_pow_mul_odd (Nat.ne_of_gt hp)
      rcases Nat.le_total lo e with hle | hle
      · have hdvd := hret 1 (by rw [one_mul]; exact (pow_dvd_pow 2 hle).mul_right u)
        rwa [one_mul] at hdvd
      · exfalso
        have hscale : 2 ^ (lo - e) * (2 ^ e * u) = 2 ^ lo * u := by
          rw [← mul_assoc, ← pow_add, Nat.sub_add_cancel hle]
        have hdvd := hret (2 ^ (lo - e)) (hscale ▸ Dvd.intro u rfl)
        rw [hscale, pow_add, Nat.mul_dvd_mul_iff_left (Nat.two_pow_pos lo)] at hdvd
        have htwo : 2 ∣ u := (dvd_pow_self 2 (Nat.ne_of_gt hw)).trans hdvd
        rw [Nat.odd_iff] at hu
        omega
  · intro hp i
    apply bits_congr
    rw [iterate_next_modEq_iff h hm]
    exact (Nat.modEq_zero_iff_dvd.mpr hp).add_left i

/-- **The distribution** of the bits: in a period they take each value equally often. -/
theorem count_bits (h : FullPeriod a c) (hm : 2 ^ (lo + w) ∣ m) (x : ℕ) {v : ℕ} (hv : v < 2 ^ w) :
    Nat.count (fun i => bits lo w ((next a c m)^[i] x) = v) (2 ^ (lo + w)) = 2 ^ lo := by
  have hinterval : (range (2 ^ (lo + w))).filter (fun t => t / 2 ^ lo = v) =
      Ico (v * 2 ^ lo) ((v + 1) * 2 ^ lo) := by
    ext t
    rw [mem_filter, mem_range, mem_Ico, Nat.div_eq_iff (Nat.two_pow_pos lo)]
    have hle : (v + 1) * 2 ^ lo ≤ 2 ^ (lo + w) := by
      rw [pow_add, Nat.mul_comm]
      exact Nat.mul_le_mul_left _ hv
    have hpos := Nat.two_pow_pos lo
    rw [Nat.succ_mul] at hle ⊢
    omega
  have hfilter : (range (2 ^ (lo + w))).filter
      (fun i => bits lo w ((next a c m)^[i] x) = v) =
      (range (2 ^ (lo + w))).filter
        (fun i => (next a c m)^[i] x % 2 ^ (lo + w) / 2 ^ lo = v) := by
    simp only [bits_eq_mod_div]
  have himage := filter_image (s := range (2 ^ (lo + w)))
    (f := fun i => (next a c m)^[i] x % 2 ^ (lo + w)) (p := fun t => t / 2 ^ lo = v)
  rw [image_iterate_next h hm x, hinterval] at himage
  have hcard := congrArg Finset.card himage
  rw [Nat.card_Ico, Nat.succ_mul, Nat.add_sub_cancel_left,
    card_image_of_injOn ((injOn_iterate_next h hm x).mono (coe_subset.mpr (filter_subset _ _)))]
    at hcard
  rw [Nat.count_eq_card_filter_range, hfilter]
  exact hcard.symm

end LinearCongruential
