import Mathlib.Algebra.BigOperators.Fin
import Mathlib.Data.Fintype.EquivFin
import Mathlib.Data.List.GetD
import Mathlib.Data.Set.Finite.List
import Wallbot.Lib.LaggedMwc

namespace Wallbot.Freertos

/-!
# The random bytes — `rand8` of `voltage_monitor.c`

`rand8` keeps seven bytes in a circular buffer, overwrites the oldest one with the byte it returns,
and splits its nine-bit multiplier into a multiplication by the low byte and an addition to the
carry.

* `Rand8`, `rand8` — the static variables and the function.
* `Rand8.toMwc` — the bytes from the oldest on, and the carry; `toMwc_step` says that a call is a
  step of the lagged multiply-with-carry generator of base 256 and multiplier 315.
* `rand8_mwc` — what follows for the run from the seed.
-/

/-! ### The function -/

/-- `STATE_BYTES` -/
def stateBytes : ℕ := 7

/-- `MULT` -/
def mult : UInt16 := 0x13B

/-- `MULT_LO` -/
def multLo : UInt16 := mult &&& 255

/-- `MULT_HI` -/
def multHi : UInt16 := mult &&& 256

/-- The static variables of `rand8`. -/
structure Rand8 where
  state : List UInt8
  c : UInt16
  i : ℕ
  size : state.length = stateBytes
  deriving DecidableEq

namespace Rand8

/-- The values they are initialised with. -/
def seed : Rand8 where
  state := [0x87, 0xdd, 0xdc, 0x10, 0x35, 0xbc, 0x5c]
  c := 0x42
  i := 0
  size := rfl

/-- `x = state[i]`, the oldest byte. -/
def oldest (s : Rand8) : UInt8 := s.state.getD s.i 0

/-- `t = (uint16_t)x * MULT_LO + c` -/
def t (s : Rand8) : UInt16 := s.oldest.toUInt16 * multLo + s.c

end Rand8

/-- `rand8`, with the static variables it leaves behind. -/
def rand8 (s : Rand8) : Rand8 × UInt8 :=
  let x := s.oldest
  let t := s.t
  let c := t >>> 8
  let c := if multHi ≠ 0 then c + x.toUInt16 else c
  let x := (t &&& 255).toUInt8
  let i := s.i + 1
  ({ state := s.state.set s.i x
     c := c
     i := if i ≥ stateBytes then 0 else i
     size := by rw [List.length_set, s.size] }, x)

namespace Rand8

/-- A call, for the static variables alone. -/
def step (s : Rand8) : Rand8 := (rand8 s).1

/-- The static variables after `n` calls. -/
def after (n : ℕ) : Rand8 := step^[n] seed

/-- The byte that call number `n` returns, counted from 0. -/
def bytes (n : ℕ) : UInt8 := (rand8 (after n)).2

/-- The ranges of `c` and `i`. -/
def InRange (s : Rand8) : Prop := s.c < 315 ∧ s.i < stateBytes

/-- The 16-bit computations of `t` and of the new `c` are those of the integers. -/
def NoTruncation (s : Rand8) : Prop :=
  s.t.toNat = s.oldest.toNat * multLo.toNat + s.c.toNat ∧
    s.step.c.toNat = s.t.toNat / 256 + s.oldest.toNat

/-- `m`, one less than the multiplier times the base to the lag. -/
def modulus : ℕ := 315 * 256 ^ stateBytes - 1

/-- The bytes as digits of base 256, from the oldest on, with the carry above them. -/
def value (s : Rand8) : ℕ :=
  ∑ j ∈ Finset.range stateBytes, 256 ^ j * (s.state.getD ((s.i + j) % stateBytes) 0).toNat
    + s.c.toNat * 256 ^ stateBytes

/-- All bytes are 0 and so is the carry, or all are 255 and the carry is 314. -/
def Absorbing (s : Rand8) : Prop :=
  (∀ w ∈ s.state, w = 0) ∧ s.c = 0 ∨ (∀ w ∈ s.state, w = 255) ∧ s.c = 314

/-! ### The generator it is -/

/-- The bytes from the oldest on, and the carry. -/
def toMwc (s : Rand8) : LaggedMwc.State where
  words := (s.state.rotate s.i).map UInt8.toNat
  carry := s.c.toNat

variable {s s' : Rand8}

/-- The ranges, as numbers. -/
theorem inRange_iff : s.InRange ↔ s.c.toNat < 315 ∧ s.i < 7 := Iff.rfl

/-- The oldest byte is one. -/
theorem oldest_toNat_le (s : Rand8) : s.oldest.toNat ≤ 255 :=
  Nat.le_of_lt_succ s.oldest.toNat_lt

/-- The oldest byte stands first. -/
theorem InRange.toMwc_eq (h : s.InRange) :
    s.toMwc = ⟨s.oldest.toNat :: ((s.state.rotate s.i).tail).map UInt8.toNat, s.c.toNat⟩ := by
  have hi : s.i < s.state.length := s.size ▸ h.2
  have holdest : s.oldest = s.state[s.i] := List.getD_eq_getElem _ _ hi
  rw [toMwc, LaggedMwc.rotate_eq_cons hi, List.map_cons, ← holdest, List.tail_cons]

/-- In range, 16 bits suffice: `255 * 59 + 314` is below `2 ^ 16`. -/
theorem InRange.noTruncation (h : s.InRange) : s.NoTruncation := by
  have hx := s.oldest_toNat_le
  have hc := (inRange_iff.mp h).1
  have hlo : multLo.toNat = 59 := rfl
  have ht : s.t.toNat = s.oldest.toNat * multLo.toNat + s.c.toNat := by
    rw [t, UInt16.toNat_add, UInt16.toNat_mul, UInt8.toNat_toUInt16, hlo, Nat.mod_add_mod]
    exact Nat.mod_eq_of_lt (by omega)
  refine ⟨ht, ?_⟩
  show (s.t >>> 8 + s.oldest.toUInt16).toNat = _
  have hshift : (s.t >>> 8).toNat = s.t.toNat / 256 := Nat.shiftRight_eq_div_pow _ 8
  rw [UInt16.toNat_add, UInt8.toNat_toUInt16, hshift]
  rw [hlo] at ht
  exact Nat.mod_eq_of_lt (by omega)

/-- The byte returned and the new carry are the two halves of `315 * x + c`. -/
theorem InRange.rand8_toNat (h : s.InRange) :
    (rand8 s).2.toNat = (315 * s.oldest.toNat + s.c.toNat) % 256 ∧
      s.step.c.toNat = (315 * s.oldest.toNat + s.c.toNat) / 256 := by
  obtain ⟨ht, hc⟩ := h.noTruncation
  have hlo : multLo.toNat = 59 := rfl
  rw [hlo] at ht
  constructor
  · -- The low byte of `t` is that of the whole, since `MULT_HI` is 256.
    show (s.t &&& 255).toUInt8.toNat = _
    rw [UInt16.toNat_toUInt8, UInt16.toNat_and, ht]
    show ((s.oldest.toNat * 59 + s.c.toNat) &&& (2 ^ 8 - 1)) % 2 ^ 8 = _
    rw [Nat.and_two_pow_sub_one_eq_mod]
    omega
  · rw [hc, ht]
    omega

/-- **Refinement.**  A call is a step of the generator. -/
theorem InRange.toMwc_step (h : s.InRange) : s.step.toMwc = LaggedMwc.next 256 315 s.toMwc := by
  obtain ⟨hbyte, hcarry⟩ := h.rand8_toNat
  have hi : s.i < s.state.length := s.size ▸ h.2
  have hrotate : s.step.state.rotate s.step.i = (s.state.rotate s.i).tail ++ [(rand8 s).2] := by
    rw [← LaggedMwc.rotate_set_succ hi]
    show (s.state.set s.i (rand8 s).2).rotate (if s.i + 1 ≥ stateBytes then 0 else s.i + 1) = _
    split
    · -- The index wraps: a rotation by the whole length is none.
      have hwrap : s.i + 1 = (s.state.set s.i (rand8 s).2).length := by
        rw [List.length_set, s.size]
        exact Nat.le_antisymm h.2 ‹_›
      rw [hwrap, List.rotate_length, List.rotate_zero]
    · rfl
  rw [h.toMwc_eq, LaggedMwc.next, toMwc, hrotate, List.map_append, List.map_singleton, hbyte,
    hcarry]

/-- In range, the generator's state is a valid one. -/
theorem InRange.valid (h : s.InRange) : LaggedMwc.Valid 256 315 s.toMwc := by
  refine ⟨?_, (inRange_iff.mp h).1⟩
  simp only [toMwc, List.forall_mem_map]
  exact fun b _ => b.toNat_lt

/-- A call stays in range. -/
theorem InRange.step (h : s.InRange) : s.step.InRange := by
  have hvalid := h.valid.next
  rw [← h.toMwc_step] at hvalid
  refine inRange_iff.mpr ⟨hvalid.2, ?_⟩
  show (if s.i + 1 ≥ stateBytes then 0 else s.i + 1) < 7
  split
  · decide
  · exact Nat.lt_of_not_le ‹_›

/-- The seed is in range. -/
theorem inRange_seed : seed.InRange := ⟨by decide, by decide⟩

/-- So is everything that follows it. -/
theorem inRange_after (n : ℕ) : (after n).InRange := by
  induction n with
  | zero => exact inRange_seed
  | succ n ih =>
    rw [after, Function.iterate_succ_apply']
    exact ih.step

/-! ### What follows -/

/-- The two ways to read a state as a number agree. -/
theorem value_eq (s : Rand8) : s.value = LaggedMwc.value 256 s.toMwc := by
  have hlen : s.toMwc.words.length = stateBytes := by
    rw [toMwc, List.length_map, List.length_rotate, s.size]
  rw [value, LaggedMwc.value_eq_sum, hlen, Nat.mul_comm s.c.toNat]
  congr 1
  apply Finset.sum_congr rfl
  intro j hj
  have hj' : j < s.toMwc.words.length := hlen ▸ Finset.mem_range.mp hj
  have hmod : (s.i + j) % stateBytes < s.state.length := by
    rw [s.size]
    exact Nat.mod_lt _ (by decide)
  rw [List.getD_eq_getElem _ _ hj', List.getD_eq_getElem _ _ hmod]
  simp only [toMwc, List.getElem_map, List.getElem_rotate, s.size, Nat.add_comm]

/-- **The multiply-with-carry law.** -/
theorem InRange.value_step (h : s.InRange) :
    256 * s.step.value = s.value + s.oldest.toNat * modulus := by
  have hlen : ((s.state.rotate s.i).tail.map UInt8.toNat).length + 1 = stateBytes := by
    rw [List.length_map, List.length_tail, List.length_rotate, s.size]
    rfl
  rw [value_eq, value_eq, h.toMwc_step, h.toMwc_eq, LaggedMwc.value_next (by decide) (by decide),
    hlen, modulus]

/-- The generator's state and the index determine the static variables. -/
theorem eq_of_toMwc_eq (hmwc : s.toMwc = s'.toMwc) (hi : s.i = s'.i) : s = s' := by
  obtain ⟨hwords, hcarry⟩ := LaggedMwc.State.mk.inj hmwc
  have hinj : Function.Injective UInt8.toNat := fun _ _ => UInt8.toNat_inj.mp
  rw [hi] at hwords
  have hstate : s.state = s'.state := List.rotate_injective s'.i (hinj.list_map hwords)
  have hc : s.c = s'.c := UInt16.toNat_inj.mp hcarry
  cases s
  cases s'
  simp_all only

/-- **No call forgets anything.** -/
theorem step_injOn : Set.InjOn step {s | s.InRange} := by
  intro s hs s' hs' heq
  have hi : s.i = s'.i := by
    have hlt := hs.2
    have hlt' := hs'.2
    have hnext : (if s.i + 1 ≥ stateBytes then 0 else s.i + 1) =
        if s'.i + 1 ≥ stateBytes then 0 else s'.i + 1 := congrArg Rand8.i heq
    split at hnext <;> split at hnext <;> omega
  have hnext : LaggedMwc.next 256 315 s.toMwc = LaggedMwc.next 256 315 s'.toMwc := by
    rw [← hs.toMwc_step, ← hs'.toMwc_step, heq]
  rw [hs.toMwc_eq, hs'.toMwc_eq] at hnext
  obtain ⟨hx, hwords, hcarry⟩ :=
    LaggedMwc.next_inj (inRange_iff.mp hs).1 (inRange_iff.mp hs').1 hnext
  apply eq_of_toMwc_eq _ hi
  rw [hs.toMwc_eq, hs'.toMwc_eq, hx, hwords, hcarry]

/-- The three static variables, in finite types. -/
def statics (s : {s : Rand8 | s.InRange}) :
    {l : List UInt8 | l.length = stateBytes} × UInt16 × Fin stateBytes :=
  (⟨s.1.state, s.1.size⟩, s.1.c, ⟨s.1.i, s.2.2⟩)

/-- They determine the state. -/
theorem statics_injective : Function.Injective statics := by
  rintro ⟨s, hs⟩ ⟨s', hs'⟩ heq
  cases s
  cases s'
  simp_all [statics]

/-- There are finitely many states. -/
theorem finite_inRange : Finite {s : Rand8 | s.InRange} := by
  have hbyte : Finite UInt8 := Finite.of_injective UInt8.toFin fun _ _ => UInt8.toFin_inj.mp
  have hcarry : Finite UInt16 := Finite.of_injective UInt16.toFin fun _ _ => UInt16.toFin_inj.mp
  have hlists : Finite {l : List UInt8 | l.length = stateBytes} := List.finite_length_eq UInt8 _
  exact Finite.of_injective statics statics_injective

/-- The run from the seed comes back to it: there are finitely many states, and no two lead to one. -/
theorem seed_periodic : seed ∈ Function.periodicPts step := by
  have hfinite := finite_inRange
  have hmaps : Set.MapsTo step {s | s.InRange} {s | s.InRange} := fun _ hs => InRange.step hs
  exact LaggedMwc.mem_periodicPts_of_injOn hmaps step_injOn inRange_seed

/-- The stuck states are those of the generator. -/
theorem absorbing_iff (s : Rand8) : s.Absorbing ↔ LaggedMwc.Absorbing 256 315 s.toMwc := by
  have hwords (b : UInt8) :
      (∀ w ∈ s.toMwc.words, w = b.toNat) ↔ ∀ w ∈ s.state, w = b := by
    simp only [toMwc, List.forall_mem_map, List.mem_rotate, UInt8.toNat_inj]
  have hcarry (c : UInt16) : s.toMwc.carry = c.toNat ↔ s.c = c := UInt16.toNat_inj
  rw [Absorbing, ← hwords, ← hwords, ← hcarry, ← hcarry]
  exact Iff.rfl

/-- The run from the seed stays clear of the states in which the generator would be stuck. -/
theorem not_absorbing_after (n : ℕ) : ¬ (after n).Absorbing := by
  have hstay : ∀ s, InRange s ∧ Absorbing s → InRange s.step ∧ Absorbing s.step := by
    rintro s ⟨hs, habs⟩
    rw [absorbing_iff] at habs ⊢
    rw [hs.toMwc_step]
    exact ⟨hs.step, habs.next (by decide) (by decide)⟩
  have hseed : ¬ (InRange seed ∧ Absorbing seed) := by
    rintro ⟨-, ⟨-, hc⟩ | ⟨-, hc⟩⟩
    · exact absurd hc (by decide)
    · exact absurd hc (by decide)
  intro habs
  exact LaggedMwc.not_of_mem_periodicPts hstay seed_periodic hseed n ⟨inRange_after n, habs⟩

/-- **`rand8` is a lagged multiply-with-carry generator.**  From its seed it stays in range, it
    returns the new digit and keeps it in the place of the oldest, it obeys the law of the
    generator in 16-bit arithmetic, it forgets nothing, and so its run returns to the seed and
    never gets stuck. -/
theorem rand8_mwc :
    (∀ n, (after n).c < 315 ∧ (after n).i ≤ 6 ∧ (after n).NoTruncation) ∧
      (∀ s, InRange s →
        (rand8 s).2.toNat = (315 * s.oldest.toNat + s.c.toNat) % 256 ∧
          s.step.state = s.state.set s.i (rand8 s).2) ∧
      (∀ s, InRange s → 256 * s.step.value = s.value + s.oldest.toNat * modulus) ∧
      Set.InjOn step {s | s.InRange} ∧
      (∃ N > 0, after N = seed) ∧
      ∀ n, ¬ (after n).Absorbing := by
  refine ⟨fun n => ?_, fun s hs => ⟨hs.rand8_toNat.1, rfl⟩, fun s hs => hs.value_step,
    step_injOn, ?_, not_absorbing_after⟩
  · have hn := inRange_after n
    exact ⟨hn.1, Nat.le_of_lt_succ hn.2, hn.noTruncation⟩
  · exact Function.mem_periodicPts.mp seed_periodic

end Rand8

end Wallbot.Freertos
