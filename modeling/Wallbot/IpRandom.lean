import Mathlib.Data.Int.Notation
import Wallbot.Lib.LinearCongruential
import Wallbot.Lib.Machine

namespace Wallbot.Freertos

/-!
# The random numbers of the IP stack — `ip.c`

The IP stack asks the application for its random numbers and for the initial sequence numbers of
its connections.  All three functions answer with 15 bits of one generator, which is seeded with
the time when the stack is started.

* `uxRand`, `ipRandom` — the generator, and the calls in any order.  A call is one step: nothing
  in `ip.c` guards `g_next_rand` against a task switch inside of it.
* `toNat_uxRand` — a call is a step of a linear congruential generator.
* `RandomNumbers`, `random_numbers` — the numbers of a start of the firmware.
-/

/-- `uxRand`, with the `g_next_rand` it leaves behind. -/
def uxRand (gNextRand : UInt32) : UInt32 × UInt32 :=
  let mult : UInt32 := 0x015a4e35
  let inc : UInt32 := 1
  let gNextRand := mult * gNextRand + inc
  (gNextRand, (gNextRand >>> 16) &&& 0x7FFF)

/-- `g_next_rand` after a call. -/
def nextRand (gNextRand : UInt32) : UInt32 := (uxRand gNextRand).1

/-- `ip_init`: `g_next_rand` is the time, and four numbers are printed. -/
def ipInit (now : ℤ) : UInt32 := nextRand^[4] (UInt32.ofInt now)

/-- `ulApplicationGetNextSequenceNumber`, which ignores its arguments. -/
def ulApplicationGetNextSequenceNumber (gNextRand _srcAddr : UInt32) (_srcPort : UInt16)
    (_dstAddr : UInt32) (_dstPort : UInt16) : UInt32 × UInt32 :=
  uxRand gNextRand

/-- `xApplicationGetRandomNumber`, with `*num` and the result. -/
def xApplicationGetRandomNumber (gNextRand : UInt32) : UInt32 × UInt32 × Bool :=
  let (gNextRand, num) := uxRand gNextRand
  (gNextRand, num, true)

/-- What the IP stack may ask for. -/
inductive RandomCall
  | ipconfigRand32
  | nextSequenceNumber (srcAddr : UInt32) (srcPort : UInt16) (dstAddr : UInt32) (dstPort : UInt16)
  | randomNumber
  deriving DecidableEq

/-- The answer to a call, with the `g_next_rand` it leaves behind. -/
def RandomCall.answer (gNextRand : UInt32) : RandomCall → UInt32 × UInt32
  | .ipconfigRand32 => uxRand gNextRand
  | .nextSequenceNumber srcAddr srcPort dstAddr dstPort =>
    ulApplicationGetNextSequenceNumber gNextRand srcAddr srcPort dstAddr dstPort
  | .randomNumber =>
    let (gNextRand, num, _) := xApplicationGetRandomNumber gNextRand
    (gNextRand, num)

/-- `g_next_rand`, and the numbers that were answered. -/
structure IpRandom where
  gNextRand : UInt32
  answers : List UInt32
  deriving DecidableEq

/-- The calls after a start at the time `now`. -/
def ipRandom (now : ℤ) : Machine IpRandom RandomCall where
  init := ⟨ipInit now, []⟩
  step s call :=
    let (gNextRand, num) := call.answer s.gNextRand
    some ⟨gNextRand, s.answers ++ [num]⟩

/-- Number `i` after a start at the time `now`. -/
def numbers (now : ℤ) (i : ℕ) : UInt32 := (uxRand (nextRand^[i] (ipInit now))).2

variable {now : ℤ}

/-! ### The generator it is -/

/-- Multiplier and increment meet the conditions for a full period. -/
theorem fullPeriod_uxRand : LinearCongruential.FullPeriod 0x015a4e35 1 where
  multiplier := rfl
  increment := rfl

/-- The bits of a number are among the 32 of the state. -/
theorem period_dvd : 2 ^ (16 + 15) ∣ 2 ^ 32 := pow_dvd_pow 2 (by decide)

/-- **A call** is a step of the generator, and answers with bits 16 to 30. -/
theorem toNat_uxRand (g : UInt32) :
    (uxRand g).1.toNat = LinearCongruential.next 0x015a4e35 1 (2 ^ 32) g.toNat ∧
      (uxRand g).2.toNat = LinearCongruential.bits 16 15 (uxRand g).1.toNat := by
  constructor
  · rw [uxRand, UInt32.toNat_add, UInt32.toNat_mul, LinearCongruential.next]
    simp
  · have hmask : (0x7FFF : UInt32).toNat = 2 ^ 15 - 1 := rfl
    rw [uxRand, UInt32.toNat_and, UInt32.toNat_shiftRight, hmask,
      Nat.and_two_pow_sub_one_eq_mod, LinearCongruential.bits, Nat.shiftRight_eq_div_pow]
    rfl

/-- The 32-bit arithmetic of `uxRand` is that of the generator. -/
theorem toNat_nextRand_iterate (g : UInt32) (i : ℕ) :
    (nextRand^[i] g).toNat = (LinearCongruential.next 0x015a4e35 1 (2 ^ 32))^[i] g.toNat := by
  induction i with
  | zero => rfl
  | succ i ih =>
    rw [Function.iterate_succ_apply', Function.iterate_succ_apply', ← ih]
    exact (toNat_uxRand _).1

/-- A number is what the generator puts out from the state that `ipINIT` leaves. -/
theorem toNat_numbers (now : ℤ) (i : ℕ) :
    (numbers now i).toNat = LinearCongruential.bits 16 15
      ((LinearCongruential.next 0x015a4e35 1 (2 ^ 32))^[i] (nextRand (ipInit now)).toNat) := by
  rw [numbers, (toNat_uxRand _).2, ← toNat_nextRand_iterate, ← Function.iterate_succ_apply,
    Function.iterate_succ_apply']
  rfl

/-- A number has 15 bits. -/
theorem numbers_lt (now : ℤ) (i : ℕ) : numbers now i < 0x8000 := by
  rw [UInt32.lt_iff_toNat_lt, toNat_numbers]
  exact Nat.mod_lt _ (Nat.two_pow_pos 15)

/-! ### The numbers -/

/-- Every call takes the next number, whichever function is called. -/
theorem ipRandom_run (now : ℤ) (calls : List RandomCall) :
    (ipRandom now).run calls = some
      ⟨nextRand^[calls.length] (ipInit now), (List.range calls.length).map (numbers now)⟩ := by
  induction calls using List.reverseRecOn with
  | nil => rfl
  | append_singleton calls call ih =>
    have hanswer (g : UInt32) : call.answer g = uxRand g := by
      cases call with
      | ipconfigRand32 => rfl
      | nextSequenceNumber => rfl
      | randomNumber => rfl
    rw [Machine.run_concat ih, List.length_append, List.length_singleton, List.range_succ,
      List.map_append, List.map_singleton, Function.iterate_succ_apply']
    simp only [ipRandom, hanswer]
    rfl

/-- The numbers of a start of the firmware at the time `now`. -/
structure RandomNumbers (now : ℤ) : Prop where
  /-- They are the answers to the calls, in any order of the calls. -/
  answers : ∀ calls, ((ipRandom now).run calls).map IpRandom.answers =
    some ((List.range calls.length).map (numbers now))
  /-- They have 15 bits, also where 32 are asked for. -/
  lt : ∀ i, numbers now i < 0x8000
  /-- They recur after `2 ^ 31` calls, and not before. -/
  period : ∀ p, (∀ i, numbers now (i + p) = numbers now i) ↔ 2 ^ 31 ∣ p
  /-- In a period each of the 15-bit numbers comes `2 ^ 16` times. -/
  distribution : ∀ start v, v < 0x8000 →
    Nat.count (fun i => numbers now (start + i) = v) (2 ^ 31) = 2 ^ 16
  /-- A start at another time begins elsewhere in the same sequence. -/
  one_cycle : ∀ now', ∃ d, ∀ i, numbers now' i = numbers now (i + d)

/-- **The random numbers of the IP stack.** -/
theorem random_numbers (now : ℤ) : RandomNumbers now where
  answers calls := by
    rw [ipRandom_run]
    rfl
  lt := numbers_lt now
  period p := by
    have hbits : 0 < 15 := by decide
    have hperiod := LinearCongruential.bits_period_iff fullPeriod_uxRand period_dvd hbits
      (nextRand (ipInit now)).toNat p
    simp only [← toNat_numbers, UInt32.toNat_inj] at hperiod
    exact hperiod
  distribution start v hv := by
    have hcount := LinearCongruential.count_bits fullPeriod_uxRand period_dvd
      (nextRand^[start] (nextRand (ipInit now))).toNat (UInt32.lt_iff_toNat_lt.mp hv)
    have hnumber (i : ℕ) : numbers now (start + i) = v ↔
        LinearCongruential.bits 16 15 ((LinearCongruential.next 0x015a4e35 1 (2 ^ 32))^[i]
          (nextRand^[start] (nextRand (ipInit now))).toNat) = v.toNat := by
      rw [← UInt32.toNat_inj, toNat_numbers, Nat.add_comm, Function.iterate_add_apply,
        toNat_nextRand_iterate]
    simp only [hnumber]
    exact hcount
  one_cycle now' := by
    have hlt (g : UInt32) : g.toNat < 2 ^ 32 := g.toNat_lt
    obtain ⟨d, hd⟩ := LinearCongruential.exists_iterate_next_eq fullPeriod_uxRand
      (hlt (nextRand (ipInit now))) (hlt (nextRand (ipInit now')))
    refine ⟨d, fun i => ?_⟩
    rw [← UInt32.toNat_inj, toNat_numbers, toNat_numbers, Function.iterate_add_apply, hd]

end Wallbot.Freertos
