import Mathlib.Algebra.Field.Rat
import Mathlib.Algebra.Order.Field.Basic
import Mathlib.Tactic.FieldSimp
import Mathlib.Tactic.Ring
import Wallbot.Lib.JsonParser

/-!
# Library — numbers, literals and strings of JSON

How the words and the string bodies of a JSON text are read, and that decimal numbers are read
as what they are.

* `readNumber`, `readScalar` — the words: numbers, the literals, and the three that only some
  readers take.  A number with a fraction or an exponent is read as the rational it denotes.
* `readString` — string bodies, as code units.
* `spell`, `readNumber_spell` — a sign, digits and a fraction are read back.
* `fixedDigits` — the last `k` digits of a number, for formats of fixed precision.
-/

namespace JsonText

/-! ### Words -/

/-- Numbers, with and without fraction, and literals. -/
inductive Scalar where
  | null
  | bool (b : Bool)
  | int (n : ℤ)
  | float (q : ℚ)
  | nan
  | infinity (negative : Bool)
  deriving DecidableEq, Repr

/-- The digits at the front, and the rest. -/
def takeDigits (cs : List Char) : List Char × List Char :=
  (cs.takeWhile Char.isDigit, cs.dropWhile Char.isDigit)

/-- Whether there is a minus at the front, and the rest. -/
def takeMinus (cs : List Char) : Bool × List Char :=
  if cs.head? = some '-' then (true, cs.tail) else (false, cs)

/-- A fraction with its point, or nothing. -/
def takeFraction (cs : List Char) : Option (List Char × List Char) :=
  if cs.head? = some '.' then
    if (takeDigits cs.tail).1 = [] then none else some (takeDigits cs.tail)
  else some ([], cs)

/-- An exponent with its letter, or nothing. -/
def takeExponent (cs : List Char) : Option (Option ℤ × List Char) :=
  if cs.head? = some 'e' ∨ cs.head? = some 'E' then
    let (negative, cs) :=
      if cs.tail.head? = some '+' then (false, cs.tail.tail) else takeMinus cs.tail
    let (digits, rest) := takeDigits cs
    let exponent : ℤ := Nat.ofDigitChars 10 digits 0
    if digits = [] then none else some (some (if negative then -exponent else exponent), rest)
  else some (none, cs)

/-- A number with its sign. -/
def signed (negative : Bool) (q : ℚ) : ℚ := if negative then -q else q

/-- The number of a sign, digits, a fraction and an exponent. -/
def scalarOf (negative : Bool) (whole fraction : List Char) (exponent : Option ℤ) : Scalar :=
  if fraction = [] ∧ exponent = none then
    .int (if negative then -Nat.ofDigitChars 10 whole 0 else Nat.ofDigitChars 10 whole 0)
  else
    .float (signed negative (Nat.ofDigitChars 10 (whole ++ fraction) 0 / 10 ^ fraction.length) *
      10 ^ exponent.getD 0)

/-- Digits without a leading zero. -/
def IsWhole (whole : List Char) : Prop :=
  whole ≠ [] ∧ (∀ c ∈ whole, c.isDigit) ∧ (whole.head? = some '0' → whole = ['0'])

instance (whole : List Char) : Decidable (IsWhole whole) := inferInstanceAs (Decidable (_ ∧ _))

/-- A sign, digits, and maybe a fraction and an exponent. -/
def readNumber (cs : List Char) : Option Scalar := do
  let (negative, cs) := takeMinus cs
  let (whole, cs) := takeDigits cs
  if IsWhole whole then
    let (fraction, cs) ← takeFraction cs
    let (exponent, cs) ← takeExponent cs
    if cs = [] then some (scalarOf negative whole fraction exponent) else none
  else none

/-- `true`, `false`, `null`, and the three names that stand for no finite number. -/
def readLiteral (cs : List Char) : Option Scalar :=
  if cs = "null".toList then some .null
  else if cs = "true".toList then some (.bool true)
  else if cs = "false".toList then some (.bool false)
  else if cs = "NaN".toList then some .nan
  else if cs = "Infinity".toList then some (.infinity false)
  else if cs = "-Infinity".toList then some (.infinity true)
  else none

/-- A number or a literal. -/
def readScalar (cs : List Char) : Option Scalar := (readNumber cs).or (readLiteral cs)

/-! ### Strings -/

/-- The code unit of an escape of one letter. -/
def readEscape (c : Char) : Option ℕ :=
  if c = '\x22' ∨ c = '\x5c' ∨ c = '/' then some c.toNat
  else if c = 'b' then some 8
  else if c = 'f' then some 12
  else if c = 'n' then some 10
  else if c = 'r' then some 13
  else if c = 't' then some 9
  else none

/-- A digit of base 16. -/
def readHexDigit (c : Char) : Option ℕ :=
  if c.isDigit then some (c.toNat - '0'.toNat)
  else if 'a' ≤ c ∧ c ≤ 'f' then some (c.toNat - 'a'.toNat + 10)
  else if 'A' ≤ c ∧ c ≤ 'F' then some (c.toNat - 'A'.toNat + 10)
  else none

/-- The code units between two quotes.  Control characters are not allowed. -/
def readString : List Char → Option (List ℕ)
  | [] => some []
  | c :: cs =>
    if c = backslash then
      match cs with
      | 'u' :: h₁ :: h₂ :: h₃ :: h₄ :: cs => do
        let digits ← [h₁, h₂, h₃, h₄].mapM readHexDigit
        let units ← readString cs
        return digits.foldl (fun unit digit => 16 * unit + digit) 0 :: units
      | c :: cs => do
        let unit ← readEscape c
        let units ← readString cs
        return unit :: units
      | [] => none
    else if c.toNat < 32 then none
    else (readString cs).map (c.toNat :: ·)

/-- A text without escapes stands for itself. -/
theorem readString_plain {cs : List Char} (h : ∀ c ∈ cs, c ≠ backslash ∧ 32 ≤ c.toNat) :
    readString cs = some (cs.map Char.toNat) := by
  induction cs with
  | nil => rfl
  | cons c cs ih =>
    obtain ⟨hb, hcontrol⟩ := h c (List.mem_cons_self ..)
    rw [readString.eq_def]
    simp [hb, hcontrol, ih fun c hc => h c (List.mem_cons_of_mem _ hc)]

/-! ### Decimal texts -/

/-- A number as a format prints it. -/
def spell (negative : Bool) (whole fraction : List Char) : List Char :=
  (if negative then ['-'] else []) ++ whole ++ (if fraction = [] then [] else '.' :: fraction)

/-- All the digits are taken. -/
theorem takeDigits_append {cs rest : List Char} (h : ∀ c ∈ cs, c.isDigit)
    (hrest : ∀ c ∈ rest.head?, ¬ c.isDigit) : takeDigits (cs ++ rest) = (cs, rest) :=
  takeWhile_dropWhile_append h hrest

/-- A whole part has no sign of its own. -/
theorem IsWhole.head_ne_minus {whole : List Char} (h : IsWhole whole) (rest : List Char) :
    (whole ++ rest).head? ≠ some '-' := by
  obtain ⟨hne, hdigits, -⟩ := h
  obtain ⟨c, cs, rfl⟩ := List.exists_cons_of_ne_nil hne
  intro hminus
  obtain rfl : c = '-' := Option.some.inj hminus
  exact absurd (hdigits '-' (List.mem_cons_self ..)) (by decide)

/-- **A number is read as what it is.** -/
theorem readNumber_spell (negative : Bool) {whole fraction : List Char} (hwhole : IsWhole whole)
    (hfraction : ∀ c ∈ fraction, c.isDigit) :
    readNumber (spell negative whole fraction) = some (scalarOf negative whole fraction none) := by
  set tail : List Char := if fraction = [] then [] else '.' :: fraction with htail
  have hminus : takeMinus (spell negative whole fraction) = (negative, whole ++ tail) := by
    unfold spell
    rw [← htail, List.append_assoc]
    cases negative with
    | false => exact if_neg (hwhole.head_ne_minus tail)
    | true => rfl
  have hdigits : takeDigits (whole ++ tail) = (whole, tail) := by
    refine takeDigits_append hwhole.2.1 fun c hc => ?_
    rw [htail] at hc
    split_ifs at hc
    · cases hc
    · obtain rfl : '.' = c := Option.some.inj hc
      decide
  have hfrac : takeFraction tail = some (fraction, []) := by
    rw [htail]
    split_ifs with hnil
    · rw [hnil]
      rfl
    · have hend : ∀ c ∈ ([] : List Char).head?, ¬ c.isDigit := fun c hc => nomatch hc
      have htake := takeDigits_append hfraction hend
      rw [List.append_nil] at htake
      simp [takeFraction, htake, hnil]
  simp [readNumber, hminus, hdigits, hwhole, hfrac, takeExponent]

/-- Only 0 begins with the digit 0. -/
theorem eq_zero_of_head_toDigits {n : ℕ} (h : (Nat.toDigits 10 n).head? = some '0') : n = 0 := by
  induction n using Nat.strongRecOn with
  | ind n ih =>
    rw [Nat.toDigits_eq_if (by decide)] at h
    split_ifs at h with hlt
    · have hdigit : ∀ d < 10, d.digitChar = '0' → d = 0 := by decide
      exact hdigit n hlt (Option.some.inj h)
    · rw [List.head?_append_of_ne_nil _ Nat.toDigits_ne_nil] at h
      have := ih (n / 10) (by omega) h
      omega

/-- The decimal digits of a number are a whole part. -/
theorem isWhole_toDigits (n : ℕ) : IsWhole (Nat.toDigits 10 n) := by
  refine ⟨Nat.toDigits_ne_nil, fun c hc => Nat.isDigit_of_mem_toDigits (by decide) (by decide) hc,
    fun h => ?_⟩
  rw [eq_zero_of_head_toDigits h]
  rfl

/-- The decimal string of an integer, spelled out. -/
theorem toList_toString_int (n : ℤ) :
    (toString n).toList = spell (decide (n < 0)) (Nat.toDigits 10 n.natAbs) [] := by
  cases n with
  | ofNat m =>
    have hneg : ¬ (m : ℤ) < 0 := by omega
    show m.repr.toList = _
    simp [spell, hneg]
  | negSucc m =>
    show ("-" ++ (m + 1).repr).toList = _
    simp [spell]

/-- An integer is read back. -/
theorem readScalar_toString (n : ℤ) : readScalar (toString n).toList = some (.int n) := by
  rw [toList_toString_int, readScalar,
    readNumber_spell _ (isWhole_toDigits n.natAbs) (by simp)]
  simp only [scalarOf, and_self, if_true, Nat.ofDigitChars_ten_toDigits, decide_eq_true_eq,
    Option.some_or, Option.some.injEq, Scalar.int.injEq]
  split_ifs <;> omega

/-- Digits are plain. -/
theorem isPlain_of_isDigit {c : Char} (h : c.isDigit) : IsPlain c := by
  have hmem {cs : List Char} (hcs : cs.all (!·.isDigit) = true) : c ∉ cs := by
    intro hc
    have hnot := List.all_eq_true.mp hcs c hc
    rw [h] at hnot
    exact absurd hnot (by decide)
  exact ⟨hmem (by decide), hmem (by decide)⟩

/-- A number is a plain word. -/
theorem isPlain_of_mem_spell {negative : Bool} {whole fraction : List Char}
    (hwhole : ∀ c ∈ whole, c.isDigit) (hfraction : ∀ c ∈ fraction, c.isDigit) {c : Char}
    (h : c ∈ spell negative whole fraction) : IsPlain c := by
  unfold spell at h
  rcases List.mem_append.mp h with h | h
  · rcases List.mem_append.mp h with h | h
    · cases negative with
      | false => cases h
      | true =>
        rw [List.mem_singleton.mp h]
        decide
    · exact isPlain_of_isDigit (hwhole c h)
  · split_ifs at h
    · cases h
    · rcases List.mem_cons.mp h with rfl | h
      · decide
      · exact isPlain_of_isDigit (hfraction c h)

/-- A number has a spelling that is not empty. -/
theorem spell_ne_nil {negative : Bool} {whole fraction : List Char} (hwhole : whole ≠ []) :
    spell negative whole fraction ≠ [] := by
  simp [spell, hwhole]

/-! ### Fixed precision -/

/-- The last `k` digits of a number, leading zeros included. -/
def fixedDigits : ℕ → ℕ → List Char
  | 0, _ => []
  | k + 1, m => fixedDigits k (m / 10) ++ [(m % 10).digitChar]

/-- There are `k` digits. -/
theorem length_fixedDigits (k m : ℕ) : (fixedDigits k m).length = k := by
  induction k generalizing m with
  | zero => rfl
  | succ k ih => simp [fixedDigits, ih]

/-- They are decimal digits. -/
theorem isDigit_of_mem_fixedDigits {k m : ℕ} {c : Char} (h : c ∈ fixedDigits k m) :
    c.isDigit := by
  induction k generalizing m with
  | zero => cases h
  | succ k ih =>
    rcases List.mem_append.mp h with h | h
    · exact ih h
    · rw [List.mem_singleton.mp h, Nat.isDigit_digitChar]
      exact decide_eq_true (Nat.mod_lt m (by decide))

/-- Read back, they are the remainder by `10 ^ k`. -/
theorem ofDigitChars_fixedDigits (k m init : ℕ) :
    Nat.ofDigitChars 10 (fixedDigits k m) init = init * 10 ^ k + m % 10 ^ k := by
  induction k generalizing m with
  | zero => simp [fixedDigits, Nat.mod_one]
  | succ k ih =>
    rw [fixedDigits, Nat.ofDigitChars_append, ih]
    rw [Nat.ofDigitChars_cons_digitChar_of_lt_ten (Nat.mod_lt m (by decide)), Nat.ofDigitChars_nil]
    have hmod : m % 10 ^ (k + 1) = m % 10 + 10 * (m / 10 % 10 ^ k) := by
      rw [pow_succ', Nat.mod_mul]
    rw [hmod, pow_succ]
    ring

/-- A number of `k` decimals is read back. -/
theorem readScalar_fixed (negative : Bool) (k m : ℕ) (hk : k ≠ 0) :
    readScalar (spell negative (Nat.toDigits 10 (m / 10 ^ k)) (fixedDigits k m)) =
      some (.float (signed negative (m / 10 ^ k))) := by
  have hne : fixedDigits k m ≠ [] := by
    intro h
    have := length_fixedDigits k m
    simp [h] at this
    omega
  rw [readScalar,
    readNumber_spell negative (isWhole_toDigits _) fun c => isDigit_of_mem_fixedDigits]
  have hvalue : Nat.ofDigitChars 10 (Nat.toDigits 10 (m / 10 ^ k) ++ fixedDigits k m) 0 = m := by
    rw [Nat.ofDigitChars_append, Nat.ofDigitChars_ten_toDigits, ofDigitChars_fixedDigits]
    exact Nat.div_add_mod' m (10 ^ k)
  simp [scalarOf, hne, hvalue, length_fixedDigits]

end JsonText
