import Mathlib.Algebra.Order.Group.MinMax
import Mathlib.Algebra.Order.Round
import Mathlib.Data.Int.ConditionallyCompleteOrder
import Mathlib.Tactic.Linarith
import Mathlib.Tactic.Ring

/-!
# Library — rounding and truncation

The three ways in which a number loses precision on its way through text and fixed-width
integers, over any ordered field with a floor.

* `clamp` — the range from `-b` to `b`: monotone, odd and without effect on distances but to
  shrink them.
* `NearestMultiple` — rounding to a nearest multiple of `g`, with some rule for ties that is the
  same for both signs.  Whatever the rule, it is monotone and at most `g / 2` off.
* `truncate` — dropping the fraction: monotone, odd and less than 1 off.
-/

namespace Rounding

/-! ### Clamping -/

section Clamp

variable {G : Type} [AddCommGroup G] [LinearOrder G]

/-- The nearest number between `-b` and `b`. -/
def clamp (b x : G) : G :=
  max (min b x) (-b)

/-- A clamp keeps the order. -/
theorem clamp_monotone (b : G) : Monotone (clamp b) :=
  fun _ _ hxy => max_le_max_right (-b) (min_le_min_left b hxy)

variable [IsOrderedAddMonoid G]

/-- A clamp treats both signs alike. -/
theorem clamp_neg {b : G} (hb : 0 ≤ b) (x : G) : clamp b (-x) = -clamp b x := by
  have hself : -b ≤ b := neg_le_self hb
  calc clamp b (-x) = min (max b (-b)) (max (-x) (-b)) := max_min_distrib_right _ _ _
    _ = min (max (-b) (-x)) b := by rw [max_eq_left hself, max_comm (-x), min_comm]
    _ = -clamp b x := by rw [max_neg_neg, clamp, ← min_neg_neg, neg_neg]

/-- A clamp stays in its bounds. -/
theorem abs_clamp_le {b : G} (hb : 0 ≤ b) (x : G) : |clamp b x| ≤ b := by
  rw [abs_le]
  exact ⟨le_max_right _ _, max_le (min_le_left b x) (neg_le_self hb)⟩

/-- A clamp moves no two numbers apart. -/
theorem abs_clamp_sub_clamp_le (b x y : G) : |clamp b x - clamp b y| ≤ |x - y| := by
  calc |clamp b x - clamp b y| ≤ |min b x - min b y| := abs_max_sub_max_le_abs _ _ _
    _ ≤ max |b - b| |x - y| := abs_min_sub_min_le_max b x b y
    _ = |x - y| := by rw [sub_self, abs_zero, max_eq_right (abs_nonneg _)]

end Clamp

variable {K : Type} [Field K] [LinearOrder K] [IsStrictOrderedRing K]

/-! ### Nearest multiples -/

/-- `f` rounds to a nearest multiple of `g`, and rounds `-x` as it rounds `x`. -/
structure NearestMultiple (g : K) (f : K → K) : Prop where
  multiple : ∀ x, ∃ k : ℤ, f x = k * g
  nearest : ∀ x (k : ℤ), |f x - x| ≤ |k * g - x|
  odd : ∀ x, f (-x) = -f x

namespace NearestMultiple

variable {g : K} {f : K → K}

/-- What is at least as near to the smaller of two numbers is left of their middle. -/
theorem two_mul_le_of_abs_sub_le {a b x : K} (hab : a < b) (h : |a - x| ≤ |b - x|) :
    2 * x ≤ a + b := by
  rw [← sq_le_sq] at h
  by_contra hright
  have hpos := mul_pos (sub_pos.mpr hab) (sub_pos.mpr (not_le.mp hright))
  linarith [hpos, h, show (b - a) * (2 * x - (a + b)) = (a - x) ^ 2 - (b - x) ^ 2 by ring]

/-- And what is at least as near to the greater is right of it. -/
theorem add_le_two_mul_of_abs_sub_le {a b x : K} (hab : a < b) (h : |b - x| ≤ |a - x|) :
    a + b ≤ 2 * x := by
  have hneg : |-b - -x| ≤ |-a - -x| := by
    rwa [neg_sub_neg, neg_sub_neg, abs_sub_comm x, abs_sub_comm x]
  linarith [two_mul_le_of_abs_sub_le (neg_lt_neg hab) hneg]

/-- The rule for ties cannot turn two numbers around. -/
theorem monotone (h : NearestMultiple g f) : Monotone f := by
  intro x y hxy
  rcases hxy.eq_or_lt with rfl | hlt
  · exact le_rfl
  · by_contra hcross
    rw [not_le] at hcross
    obtain ⟨kx, hkx⟩ := h.multiple x
    obtain ⟨ky, hky⟩ := h.multiple y
    -- Each is at least as near to its own multiple as to that of the other.
    have hx := h.nearest x ky
    have hy := h.nearest y kx
    rw [← hky] at hx
    rw [← hkx] at hy
    linarith [add_le_two_mul_of_abs_sub_le hcross hx, two_mul_le_of_abs_sub_le hcross hy]

variable [FloorRing K]

/-- The error is at most half a multiple. -/
theorem abs_sub_le (h : NearestMultiple g f) (hg : 0 < g) (x : K) : |f x - x| ≤ g / 2 := by
  have hhalf : |x / g - round (x / g)| ≤ 1 / 2 := abs_sub_round (x / g)
  have hscale : (round (x / g) : K) * g - x = -(x / g - round (x / g)) * g := by
    rw [neg_mul, sub_mul, div_mul_cancel₀ x hg.ne']
    ring
  calc |f x - x| ≤ |(round (x / g) : K) * g - x| := h.nearest x (round (x / g))
    _ = |x / g - round (x / g)| * g := by rw [hscale, abs_mul, abs_neg, abs_of_pos hg]
    _ ≤ 1 / 2 * g := mul_le_mul_of_nonneg_right hhalf hg.le
    _ = g / 2 := by ring

end NearestMultiple

variable [FloorRing K]

/-- A nearest integer, away from 0 on ties. -/
def roundHalfAway (x : K) : ℤ :=
  if 0 ≤ x then round x else -round (-x)

/-- Both signs are rounded alike. -/
theorem roundHalfAway_neg (x : K) : roundHalfAway (-x) = -roundHalfAway x := by
  rcases lt_trichotomy x 0 with hneg | rfl | hpos
  · rw [roundHalfAway, roundHalfAway, if_pos (neg_nonneg.mpr hneg.le), if_neg (not_le.mpr hneg),
      neg_neg]
  · simp [roundHalfAway]
  · rw [roundHalfAway, roundHalfAway, if_neg (not_le.mpr (neg_neg_of_pos hpos)), if_pos hpos.le,
      neg_neg]

/-- No integer is nearer than the one rounded to. -/
theorem abs_roundHalfAway_sub_le (x : K) (k : ℤ) : |(roundHalfAway x : K) - x| ≤ |(k : K) - x| := by
  rw [roundHalfAway]
  split
  · rw [abs_sub_comm, abs_sub_comm (k : K)]
    exact round_le x k
  · -- The nearest integer to `-x` is as near to it as `-k`.
    have hle := round_le (-x) (-k)
    rw [Int.cast_neg, neg_sub_neg, ← abs_neg, neg_sub, sub_neg_eq_add] at hle
    rwa [Int.cast_neg, ← abs_neg, neg_sub, sub_neg_eq_add, add_comm]

/-- A rounding of this kind. -/
theorem nearestMultiple_roundHalfAway {g : K} (hg : 0 < g) :
    NearestMultiple g fun x => roundHalfAway (x / g) * g where
  multiple := fun x => ⟨roundHalfAway (x / g), rfl⟩
  nearest := by
    intro x k
    have hscale (n : ℤ) : |(n : K) * g - x| = |(n : K) - x / g| * g := by
      rw [← abs_of_pos hg, ← abs_mul, abs_of_pos hg, sub_mul, div_mul_cancel₀ x hg.ne']
    rw [hscale, hscale]
    exact mul_le_mul_of_nonneg_right (abs_roundHalfAway_sub_le (x / g) k) hg.le
  odd := by
    intro x
    rw [neg_div, roundHalfAway_neg, Int.cast_neg, neg_mul]

/-! ### Truncation -/

/-- Drop the fraction. -/
def truncate (x : K) : ℤ :=
  if 0 ≤ x then ⌊x⌋ else ⌈x⌉

omit [IsStrictOrderedRing K] in

/-- From above 0, truncation goes down. -/
theorem truncate_of_nonneg {x : K} (h : 0 ≤ x) : truncate x = ⌊x⌋ := if_pos h

/-- From below 0, it goes up. -/
theorem truncate_of_nonpos {x : K} (h : x ≤ 0) : truncate x = ⌈x⌉ := by
  rcases h.eq_or_lt with rfl | hlt
  · simp [truncate]
  · exact if_neg (not_le.mpr hlt)

/-- Both signs are truncated alike. -/
theorem truncate_neg (x : K) : truncate (-x) = -truncate x := by
  rcases le_total 0 x with hpos | hneg
  · rw [truncate_of_nonneg hpos, truncate_of_nonpos (neg_nonpos.mpr hpos), Int.ceil_neg]
  · rw [truncate_of_nonpos hneg, truncate_of_nonneg (neg_nonneg.mpr hneg), Int.floor_neg]

/-- An integer stays. -/
@[simp] theorem truncate_intCast (k : ℤ) : truncate (k : K) = k := by
  rw [truncate]
  split
  · exact Int.floor_intCast k
  · exact Int.ceil_intCast k

/-- Truncation keeps the order. -/
theorem truncate_monotone : Monotone (truncate : K → ℤ) := by
  intro x y hxy
  rcases le_total 0 x with hx | hx
  · rw [truncate_of_nonneg hx, truncate_of_nonneg (hx.trans hxy)]
    exact Int.floor_mono hxy
  · rcases le_total 0 y with hy | hy
    · -- The two sides of 0.
      rw [truncate_of_nonpos hx, truncate_of_nonneg hy]
      exact (Int.ceil_nonpos.mpr hx).trans (Int.floor_nonneg.mpr hy)
    · rw [truncate_of_nonpos hx, truncate_of_nonpos hy]
      exact Int.ceil_mono hxy

/-- Truncation moves a number by less than 1. -/
theorem abs_truncate_sub_lt (x : K) : |(truncate x : K) - x| < 1 := by
  rw [abs_lt]
  rcases le_total 0 x with hx | hx
  · rw [truncate_of_nonneg hx]
    constructor <;> linarith [Int.floor_le x, Int.lt_floor_add_one x]
  · rw [truncate_of_nonpos hx]
    constructor <;> linarith [Int.le_ceil x, Int.ceil_lt_add_one x]

end Rounding
