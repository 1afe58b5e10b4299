import Mathlib.Algebra.Group.Basic
import Mathlib.Tactic.Ring

/-!
# Library — little-endian byte images

`toLE n x` is the `n`-byte little-endian image of `x`, and `ofLE` reads an image back.
The fixed-width integers of a wire format are converted through their `toNat`; what the
round trip says about them is `ofNat_ofLE_toLE` and `toInt32_ofLE_toLE`.
-/

namespace LittleEndian

/-- The `n` low bytes of `x`, least significant first. -/
def toLE : ℕ → ℕ → List UInt8
  | 0, _ => []
  | n + 1, x => UInt8.ofNat (x % 256) :: toLE n (x / 256)

/-- The number a little-endian byte string stands for. -/
def ofLE : List UInt8 → ℕ
  | [] => 0
  | b :: bs => b.toNat + 256 * ofLE bs

/-- The encoding has `n` bytes. -/
@[simp] theorem toLE_length (n x : ℕ) : (toLE n x).length = n := by
  induction n generalizing x with
  | zero => rfl
  | succ n ih => rw [toLE, List.length_cons, ih]

/-- Reading back an image recovers the number modulo the image's range. -/
theorem ofLE_toLE (n x : ℕ) : ofLE (toLE n x) = x % 256 ^ n := by
  induction n generalizing x with
  | zero => rw [toLE, ofLE, pow_zero, Nat.mod_one]
  | succ n ih =>
    have hbyte : (UInt8.ofNat (x % 256)).toNat = x % 256 :=
      UInt8.toNat_ofNat_of_lt' (Nat.mod_lt _ (by decide))
    rw [toLE, ofLE, hbyte, ih, pow_succ, mul_comm (256 ^ n), Nat.mod_mul]

/-- The round trip of an unsigned 32-bit integer. -/
theorem ofNat_ofLE_toLE (x : UInt32) : UInt32.ofNat (ofLE (toLE 4 x.toNat)) = x := by
  rw [ofLE_toLE, Nat.mod_eq_of_lt (show x.toNat < 256 ^ 4 from x.toNat_lt)]
  exact UInt32.ofNat_toNat

/-- The round trip of a signed 32-bit integer through its two's complement image. -/
theorem toInt32_ofLE_toLE (x : Int32) :
    (UInt32.ofNat (ofLE (toLE 4 x.toUInt32.toNat))).toInt32 = x := by
  rw [ofNat_ofLE_toLE]
  exact Int32.toInt32_toUInt32 x

end LittleEndian
