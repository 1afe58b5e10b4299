import Mathlib.Algebra.Order.Ring.Nat
import Wallbot.Lib.Machine

/-!
# Library — what the steps of a run add up to

Each step of a machine has a weight, which may depend on the state it is taken in.  The tally of a
run is the sum of the weights of its steps.

* `tally_balance` — a stock that every step changes by what comes in and what goes out.
* `tally_sum` — weights of several kinds are tallied apart.
* `tally_eq_zero_iff` — nothing adds up exactly if no step has a weight.
-/

namespace Machine

variable {σ α : Type} {M : Machine σ α}

/-- The weights of the steps of `as` from `s`. -/
def tallyFrom (M : Machine σ α) (weight : σ → α → ℕ) (s : σ) : List α → ℕ
  | [] => 0
  | a :: as =>
    weight s a +
      match M.step s a with
      | some s' => M.tallyFrom weight s' as
      | none => 0

/-- The weights of the steps of a run. -/
def tally (M : Machine σ α) (weight : σ → α → ℕ) (as : List α) : ℕ :=
  M.tallyFrom weight M.init as

variable {weight : σ → α → ℕ} {s s' : σ} {as : List α}

/-- One step more adds its weight. -/
theorem tallyFrom_concat (h : M.runFrom s as = some s') (a : α) :
    M.tallyFrom weight s (as ++ [a]) = M.tallyFrom weight s as + weight s' a := by
  induction as generalizing s with
  | nil =>
    obtain rfl : s = s' := Option.some.inj h
    rw [List.nil_append, tallyFrom, tallyFrom, Nat.zero_add]
    cases M.step s a <;> rfl
  | cons b as ih =>
    rw [runFrom_cons] at h
    obtain ⟨t, ht, hrun⟩ := Option.bind_eq_some_iff.mp h
    rw [List.cons_append, tallyFrom, tallyFrom, ht]
    simp only
    rw [ih hrun, Nat.add_assoc]

/-- One step more. -/
theorem tally_concat (h : M.run as = some s) (a : α) :
    M.tally weight (as ++ [a]) = M.tally weight as + weight s a :=
  tallyFrom_concat h a

/-- Weights add up step by step. -/
theorem tallyFrom_add (w w' : σ → α → ℕ) (s : σ) (as : List α) :
    M.tallyFrom (fun s a => w s a + w' s a) s as = M.tallyFrom w s as + M.tallyFrom w' s as := by
  induction as generalizing s with
  | nil => rfl
  | cons a as ih =>
    rw [tallyFrom, tallyFrom, tallyFrom]
    cases M.step s a with
    | none => simp only; omega
    | some t => simp only [ih t]; omega

/-- Weights of several kinds are tallied apart. -/
theorem tally_sum {ι : Type} (kinds : List ι) (w : ι → σ → α → ℕ) (as : List α) :
    M.tally (fun s a => (kinds.map fun k => w k s a).sum) as =
      (kinds.map fun k => M.tally (w k) as).sum := by
  induction kinds with
  | nil =>
    have hzero (s : σ) : M.tallyFrom (fun _ _ => 0) s as = 0 := by
      induction as generalizing s with
      | nil => rfl
      | cons a as ih =>
        rw [tallyFrom]
        cases M.step s a with
        | none => rfl
        | some t => simp only [ih t]
    exact hzero M.init
  | cons k kinds ih =>
    simp only [List.map_cons, List.sum_cons, ← ih]
    exact tallyFrom_add (w k) (fun s a => (kinds.map fun k => w k s a).sum) M.init as

/-- **Balance.**  What is in stock and what went out is what came in. -/
theorem tally_balance {stock : σ → ℕ} {inflow outflow : σ → α → ℕ} (hinit : stock M.init = 0)
    (hstep : ∀ as s a s', M.run as = some s → M.step s a = some s' →
      stock s' + outflow s a = stock s + inflow s a)
    (h : M.run as = some s) : stock s + M.tally outflow as = M.tally inflow as := by
  refine run_history_of_run
    (I := fun as s => stock s + M.tally outflow as = M.tally inflow as) ?_ ?_ h
  · rw [hinit]
    rfl
  · intro as s a s' has ih hs
    have hnow := hstep as s a s' has hs
    rw [tally_concat has, tally_concat has]
    omega

/-- Nothing adds up exactly if no step along the run has a weight. -/
theorem tally_eq_zero_iff (h : M.run as = some s) :
    M.tally weight as = 0 ↔ M.Along (fun s a => weight s a = 0) as := by
  refine run_history_of_run
    (I := fun as _ => M.tally weight as = 0 ↔ M.Along (fun s a => weight s a = 0) as) ?_ ?_ h
  · exact iff_of_true rfl along_nil
  · intro as s a s' has ih _
    have hnow : (∀ t, M.run as = some t → weight t a = 0) ↔ weight s a = 0 := by
      simp only [has, Option.some.injEq, forall_eq']
    rw [tally_concat has, along_concat, hnow, Nat.add_eq_zero_iff, ih]

/-- The weights count in the states of the run only. -/
theorem tally_congr {w w' : σ → α → ℕ} (hw : ∀ as s a, M.run as = some s → w s a = w' s a)
    (h : M.run as = some s) : M.tally w as = M.tally w' as := by
  refine run_history_of_run (I := fun as _ => M.tally w as = M.tally w' as) rfl ?_ h
  intro as s a s' has ih _
  rw [tally_concat has, tally_concat has, ih, hw as s a has]

/-- The tally of a kind of action is its number in the run. -/
theorem tally_eq_countP {p : α → Bool} (h : M.run as = some s) :
    M.tally (fun _ a => if p a then 1 else 0) as = as.countP p := by
  refine run_history_of_run
    (I := fun as _ => M.tally (fun _ a => if p a then 1 else 0) as = as.countP p) rfl ?_ h
  intro as s a s' has ih _
  rw [tally_concat has, ih, List.countP_append, List.countP_singleton]

/-- Weights that do not depend on the state are those of the actions. -/
theorem tally_eq_sum {w : α → ℕ} (h : M.run as = some s) :
    M.tally (fun _ a => w a) as = (as.map w).sum := by
  refine run_history_of_run
    (I := fun as _ => M.tally (fun _ a => w a) as = (as.map w).sum) rfl ?_ h
  intro as s a s' has ih _
  rw [tally_concat has, ih, List.map_append, List.sum_append, List.map_singleton,
    List.sum_singleton]

end Machine
