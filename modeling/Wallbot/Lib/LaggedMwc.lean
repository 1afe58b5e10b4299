import Mathlib.Algebra.BigOperators.Intervals
import Mathlib.Algebra.BigOperators.Ring.Finset
import Mathlib.Data.List.GetD
import Mathlib.Data.List.Rotate
import Mathlib.Data.Nat.Digits.Defs
import Mathlib.Dynamics.PeriodicPts.Lemmas
import Mathlib.Tactic.Ring

/-!
# Library — lagged multiply-with-carry generators

A generator of multiplier `a` over the base `b` keeps its last words, oldest first, and a carry.
A step multiplies the oldest word by `a`, adds the carry, and splits the result into the new word
and the new carry.

* `value_next` — the law of the generator: read as one number, a state is multiplied by the
  inverse of `b` modulo `a * b ^ r - 1`.
* `Valid.next`, `next_inj` — words below `b` and a carry below `a` stay so, and on such states no
  step forgets anything.
* `Absorbing.next` — the two states a generator never leaves.
* `exists_output_ne_zero` — outside of them it does not put out 0 for long.
* `rotate_set_succ` — overwriting the oldest entry of a circular buffer shifts it by one, so a
  generator may keep its words in one.
* `mem_periodicPts_of_injOn` — hence a run over finitely many states is periodic, and
  `not_of_mem_periodicPts` — if it starts outside a set of no return, it stays outside.
-/

namespace LaggedMwc

/-- The words, oldest first, and the carry. -/
structure State where
  words : List ℕ
  carry : ℕ
  deriving DecidableEq, Repr

/-- A step of the generator of base `b` and multiplier `a`. -/
def next (b a : ℕ) : State → State
  | ⟨[], carry⟩ => ⟨[], carry⟩
  | ⟨x :: words, carry⟩ => ⟨words ++ [(a * x + carry) % b], (a * x + carry) / b⟩

/-- The state as one number: the words are its digits, and the carry stands above them. -/
def value (b : ℕ) (s : State) : ℕ :=
  Nat.ofDigits b s.words + b ^ s.words.length * s.carry

/-- All words are digits of base `b`, and the carry is below `a`. -/
def Valid (b a : ℕ) (s : State) : Prop :=
  (∀ w ∈ s.words, w < b) ∧ s.carry < a

/-- All words and the carry are the least possible, or all are the greatest. -/
def Absorbing (b a : ℕ) (s : State) : Prop :=
  (∀ w ∈ s.words, w = 0) ∧ s.carry = 0 ∨ (∀ w ∈ s.words, w = b - 1) ∧ s.carry = a - 1

variable {b a x : ℕ} {words : List ℕ} {carry : ℕ}

/-- The value, word by word. -/
theorem value_eq_sum (b : ℕ) (s : State) :
    value b s =
      ∑ j ∈ Finset.range s.words.length, b ^ j * s.words.getD j 0
        + b ^ s.words.length * s.carry := by
  obtain ⟨words, carry⟩ := s
  have hdigits : Nat.ofDigits b words =
      ∑ j ∈ Finset.range words.length, b ^ j * words.getD j 0 := by
    induction words with
    | nil => rfl
    | cons x words ih =>
      rw [Nat.ofDigits_cons, ih, List.length_cons, Finset.sum_range_succ', Finset.mul_sum,
        Nat.add_comm]
      simp only [List.getD_cons_succ, List.getD_cons_zero, pow_succ, pow_zero, one_mul]
      congr 1
      apply Finset.sum_congr rfl
      intro j _
      ring
  rw [value, hdigits]

/-- **The law of the generator.** -/
theorem value_next (ha : 0 < a) (hb : 0 < b) :
    b * value b (next b a ⟨x :: words, carry⟩) =
      value b ⟨x :: words, carry⟩ + x * (a * b ^ (words.length + 1) - 1) := by
  -- The new word and the new carry are the two halves of `a * x + carry`.
  have hsplit : b * ((a * x + carry) / b) + (a * x + carry) % b = a * x + carry :=
    Nat.div_add_mod _ _
  have hpos : 1 ≤ a * b ^ (words.length + 1) := Nat.mul_pos ha (Nat.pow_pos hb)
  have hmul : x * (a * b ^ (words.length + 1) - 1) + x = x * (a * b ^ (words.length + 1)) := by
    rw [← Nat.mul_succ, Nat.succ_eq_add_one, Nat.sub_add_cancel hpos]
  have hlaw : b * value b (next b a ⟨x :: words, carry⟩) + x =
      value b ⟨x :: words, carry⟩ + x * (a * b ^ (words.length + 1)) := by
    calc b * value b (next b a ⟨x :: words, carry⟩) + x
        = b * Nat.ofDigits b words + b ^ (words.length + 1)
            * (b * ((a * x + carry) / b) + (a * x + carry) % b) + x := by
          simp only [value, next, Nat.ofDigits_append, Nat.ofDigits_singleton, List.length_append,
            List.length_singleton]
          ring
      _ = value b ⟨x :: words, carry⟩ + x * (a * b ^ (words.length + 1)) := by
          rw [hsplit]
          simp only [value, Nat.ofDigits_cons, List.length_cons]
          ring
  omega

/-- A valid state stays valid. -/
theorem Valid.next {s : State} (h : Valid b a s) : Valid b a (next b a s) := by
  obtain ⟨_ | ⟨x, words⟩, carry⟩ := s
  · exact h
  · obtain ⟨hwords, hcarry⟩ := h
    have hx : x < b := hwords x (List.mem_cons_self ..)
    have hlt : carry < a := hcarry
    constructor
    · rw [LaggedMwc.next, List.forall_mem_append, List.forall_mem_singleton]
      exact ⟨fun w hw => hwords w (List.mem_cons_of_mem _ hw), Nat.mod_lt _ (by omega)⟩
    · apply Nat.div_lt_of_lt_mul
      calc a * x + carry < a * x + a := by omega
        _ = a * (x + 1) := rfl
        _ ≤ a * b := Nat.mul_le_mul_left a hx
        _ = b * a := Nat.mul_comm a b

/-- **No step forgets anything**: the oldest word and the carry can be read off the new ones. -/
theorem next_inj {x' : ℕ} {words' : List ℕ} {carry' : ℕ} (hc : carry < a) (hc' : carry' < a)
    (h : next b a ⟨x :: words, carry⟩ = next b a ⟨x' :: words', carry'⟩) :
    x = x' ∧ words = words' ∧ carry = carry' := by
  obtain ⟨happend, hdiv⟩ := State.mk.inj h
  obtain ⟨hwords, hlast⟩ := List.append_inj' happend rfl
  have hmod : (a * x + carry) % b = (a * x' + carry') % b := List.singleton_inj.mp hlast
  have hsum : a * x + carry = a * x' + carry' := by
    rw [← Nat.div_add_mod (a * x + carry) b, hdiv, hmod, Nat.div_add_mod]
  -- A carry below `a` is the remainder by `a`, and the word the quotient.
  have hx : x = x' := by
    have hquot := congrArg (· / a) hsum
    simpa only [Nat.mul_add_div (Nat.zero_lt_of_lt hc), Nat.div_eq_of_lt hc, Nat.div_eq_of_lt hc',
      Nat.add_zero] using hquot
  refine ⟨hx, hwords, ?_⟩
  rw [hx] at hsum
  exact Nat.add_left_cancel hsum

/-- A generator does not leave an absorbing state. -/
theorem Absorbing.next {s : State} (ha : 0 < a) (hb : 0 < b) (h : Absorbing b a s) :
    Absorbing b a (next b a s) := by
  obtain ⟨_ | ⟨x, words⟩, carry⟩ := s
  · exact h
  · rcases h with ⟨hwords, hcarry⟩ | ⟨hwords, hcarry⟩
    · obtain ⟨hx, hrest⟩ := List.forall_mem_cons.mp hwords
      left
      simp only [LaggedMwc.next, List.forall_mem_append, List.forall_mem_singleton, hx]
      simp only at hcarry
      exact ⟨⟨hrest, by simp [hcarry]⟩, by simp [hcarry]⟩
    · obtain ⟨hx, hrest⟩ := List.forall_mem_cons.mp hwords
      simp only at hcarry
      -- The product is one short of `a * b`, so all its digits are the greatest again.
      have hsum : a * x + carry = b * (a - 1) + (b - 1) := by
        obtain ⟨a, rfl⟩ := Nat.exists_eq_add_of_lt ha
        obtain ⟨b, rfl⟩ := Nat.exists_eq_add_of_lt hb
        rw [hx, hcarry]
        simp only [Nat.zero_add, Nat.add_sub_cancel]
        ring
      right
      simp only [LaggedMwc.next, List.forall_mem_append, List.forall_mem_singleton, hsum]
      have hlast : b - 1 < b := Nat.sub_lt hb Nat.one_pos
      refine ⟨⟨hrest, ?_⟩, ?_⟩
      · rw [Nat.mul_add_mod, Nat.mod_eq_of_lt hlast]
      · rw [Nat.mul_add_div hb, Nat.div_eq_of_lt hlast, Nat.add_zero]

/-! ### Runs of zeros -/

/-- The word that the next step appends. -/
def output (b a : ℕ) : State → ℕ
  | ⟨[], _⟩ => 0
  | ⟨x :: _, carry⟩ => (a * x + carry) % b

/-- After as many outputs 0, so many words are 0. -/
theorem words_of_output_eq_zero {s : State} {k : ℕ} (hk : k ≤ s.words.length)
    (hzero : ∀ i < k, output b a ((next b a)^[i] s) = 0) :
    ((next b a)^[k] s).words = s.words.drop k ++ List.replicate k 0 := by
  induction k with
  | zero => simp
  | succ k ih =>
    have hwords := ih (by omega) fun i hi => hzero i (by omega)
    have hnow := hzero k (Nat.lt_succ_self k)
    rw [List.drop_eq_getElem_cons hk, List.cons_append] at hwords
    rw [Function.iterate_succ_apply']
    generalize (next b a)^[k] s = t at hwords hnow ⊢
    obtain ⟨words, carry⟩ := t
    simp only at hwords
    rw [hwords] at hnow ⊢
    simp only [output] at hnow
    simp only [next, hnow, List.append_assoc, List.replicate_succ']

/-- **No long runs of zeros.**  With a carry of at most two digits, a generator of `r` words that
    does not get stuck at 0 puts out another word within `r + 2` steps. -/
theorem exists_output_ne_zero {s : State} (hvalid : Valid b a s) (hab : a ≤ b * b)
    (hwords : s.words ≠ []) (hnot : ¬ Absorbing b a ((next b a)^[s.words.length] s)) :
    ∃ i < s.words.length + 2, output b a ((next b a)^[i] s) ≠ 0 := by
  by_contra hall
  have hzero : ∀ i < s.words.length + 2, output b a ((next b a)^[i] s) = 0 := by
    intro i hi
    by_contra hne
    exact hall ⟨i, hi, hne⟩
  have hzeros := words_of_output_eq_zero (Nat.le_refl _) fun i hi => hzero i (by omega)
  have hfirst := hzero s.words.length (by omega)
  have hsecond := hzero (s.words.length + 1) (by omega)
  have hvalid' : Valid b a ((next b a)^[s.words.length] s) := by
    generalize s.words.length = n
    induction n with
    | zero => exact hvalid
    | succ n ih => rw [Function.iterate_succ_apply']; exact ih.next
  rw [Function.iterate_succ_apply'] at hsecond
  obtain ⟨r, hr⟩ : ∃ r, s.words.length = r + 1 :=
    Nat.exists_eq_succ_of_ne_zero (List.length_eq_zero_iff.not.mpr hwords)
  rw [List.drop_length, List.nil_append, hr, List.replicate_succ] at hzeros
  rw [hr] at hnot hfirst hsecond hvalid'
  generalize (next b a)^[r + 1] s = t at *
  obtain ⟨words, carry⟩ := t
  simp only at hzeros
  subst hzeros
  -- Both digits of the carry are put out, so it is 0.
  have hlow : b ∣ carry := by
    simp only [output, Nat.mul_zero, Nat.zero_add] at hfirst
    exact Nat.dvd_of_mod_eq_zero hfirst
  have hhigh : b ∣ carry / b := by
    have hhead : output b a (next b a ⟨0 :: List.replicate r 0, carry⟩) = (carry / b) % b := by
      cases r with
      | zero => simp [next, output, Nat.mod_eq_zero_of_dvd hlow]
      | succ r => simp [next, output, List.replicate_succ]
    rw [hhead] at hsecond
    exact Nat.dvd_of_mod_eq_zero hsecond
  have hdvd : b * b ∣ carry := (Nat.dvd_div_iff_mul_dvd hlow).mp hhigh
  have hcarry : carry = 0 :=
    Nat.eq_zero_of_dvd_of_lt hdvd (Nat.lt_of_lt_of_le hvalid'.2 hab)
  refine hnot (.inl ⟨?_, hcarry⟩)
  intro w hw
  rw [← List.replicate_succ] at hw
  exact List.eq_of_mem_replicate hw

/-! ### Circular buffers -/

/-- Overwriting the entry at `i`, the oldest one, and moving on to the next. -/
theorem rotate_set_succ {α : Type} {l : List α} {i : ℕ} (hi : i < l.length) (y : α) :
    (l.set i y).rotate (i + 1) = (l.rotate i).tail ++ [y] := by
  have hset : i + 1 ≤ (l.set i y).length := by
    rw [List.length_set]
    exact hi
  rw [List.rotate_eq_drop_append_take hset, List.rotate_eq_drop_append_take hi.le,
    List.drop_eq_getElem_cons hi, List.cons_append, List.tail_cons, List.append_assoc,
    List.drop_set_of_lt (Nat.lt_succ_self i), List.take_succ_eq_append_getElem (by omega),
    List.take_set_of_le (Nat.le_refl i), List.getElem_set_self]

/-- The oldest entry stands first. -/
theorem rotate_eq_cons {α : Type} {l : List α} {i : ℕ} (hi : i < l.length) :
    l.rotate i = l[i] :: (l.rotate i).tail := by
  rw [List.rotate_eq_drop_append_take hi.le, List.drop_eq_getElem_cons hi, List.cons_append,
    List.tail_cons]

/-! ### Periodic runs -/

/-- A step that forgets nothing on finitely many states comes back to where it started. -/
theorem mem_periodicPts_of_injOn {σ : Type} {f : σ → σ} {S : Set σ} [Finite S]
    (hmaps : Set.MapsTo f S S) (hinj : Set.InjOn f S) {s : σ} (hs : s ∈ S) :
    s ∈ Function.periodicPts f := by
  have hrestrict : Function.Injective (hmaps.restrict f S S) := hmaps.restrict_inj.mpr hinj
  obtain ⟨N, hN, hperiod⟩ := Function.mem_periodicPts.mp (hrestrict.mem_periodicPts ⟨s, hs⟩)
  have hval : Function.Semiconj Subtype.val (hmaps.restrict f S S) f := fun _ => rfl
  exact Function.mem_periodicPts.mpr ⟨N, hN, hperiod.map hval⟩

/-- A set that is never left is never entered by a periodic run that starts outside it. -/
theorem not_of_mem_periodicPts {σ : Type} {f : σ → σ} {P : σ → Prop} (hP : ∀ s, P s → P (f s))
    {s : σ} (hs : s ∈ Function.periodicPts f) (hstart : ¬ P s) (n : ℕ) : ¬ P (f^[n] s) := by
  intro hn
  obtain ⟨N, hN, hperiod⟩ := Function.mem_periodicPts.mp hs
  have hstay (k : ℕ) : P (f^[k + n] s) := by
    induction k with
    | zero => rwa [Nat.zero_add]
    | succ k ih =>
      rw [Nat.add_right_comm, Function.iterate_succ_apply']
      exact hP _ ih
  -- After `n` rounds the run is back at its start.
  have hback : f^[n * N - n + n] s = s := by
    rw [Nat.sub_add_cancel (Nat.le_mul_of_pos_right n hN)]
    exact hperiod.const_mul n
  exact hstart (hback ▸ hstay (n * N - n))

end LaggedMwc
