import Mathlib.Data.List.Induction

/-!
# Library — machines and their runs

A machine is an initial state with a partial step: `step s a = none` says that `s` does
not allow `a`.  Everything that is interleaved in a development (tasks, a network, a
receive loop) is an action, and an interleaving is a list of actions.

* `run_history` — the induction behind every statement about runs: a property of the
  actions done so far and the state they lead to, kept by one step, holds of every run.
* `Reachable.invariant` — its special case for properties of the state alone, and
  `run_invariant` for runs whose actions are restricted.
* `runFrom_flatMap_eq_some` — runs of a machine each step of which is a run of another one.
* `Along` — a condition that every step of a run meets in the state before it.
* `Refinement.reachable` — a map of the states that answers each step by a run of a
  second machine takes reachable states to reachable states.
-/

/-- An initial state and a partial step. -/
structure Machine (σ α : Type) where
  init : σ
  step : σ → α → Option σ

namespace Machine

variable {σ α τ β : Type}

/-- Follow the actions `as` from `s`; `none` as soon as one of them is not allowed. -/
def runFrom (M : Machine σ α) (s : σ) (as : List α) : Option σ :=
  as.foldlM M.step s

/-- Follow the actions `as` from the initial state. -/
def run (M : Machine σ α) (as : List α) : Option σ :=
  M.runFrom M.init as

/-- The states some run leads to. -/
def Reachable (M : Machine σ α) (s : σ) : Prop :=
  ∃ as, M.run as = some s

variable {M : Machine σ α} {N : Machine τ β}

/-- Without an action the state stays. -/
@[simp] theorem runFrom_nil (s : σ) : M.runFrom s [] = some s := rfl

/-- The first action, then the rest. -/
@[simp] theorem runFrom_cons (s : σ) (a : α) (as : List α) :
    M.runFrom s (a :: as) = (M.step s a).bind fun s' => M.runFrom s' as := rfl

/-- A run can be cut anywhere. -/
theorem runFrom_append (s : σ) (as bs : List α) :
    M.runFrom s (as ++ bs) = (M.runFrom s as).bind fun s' => M.runFrom s' bs := by
  induction as generalizing s with
  | nil => rfl
  | cons a as ih =>
    rw [List.cons_append, runFrom_cons, runFrom_cons]
    cases M.step s a with
    | none => rfl
    | some s' => exact ih s'

/-- A run of one action more ends with one step more. -/
theorem runFrom_concat_eq_some {s s' : σ} {as : List α} {a : α} :
    M.runFrom s (as ++ [a]) = some s' ↔ ∃ t, M.runFrom s as = some t ∧ M.step t a = some s' := by
  rw [runFrom_append, Option.bind_eq_some_iff]
  simp

/-- The last step of a run, when the run before it is known. -/
theorem run_concat {s : σ} {as : List α} (h : M.run as = some s) (a : α) :
    M.run (as ++ [a]) = M.step s a := by
  rw [run] at h ⊢
  rw [runFrom_append, h, Option.bind_some, runFrom_cons]
  simp

/-- A run has runs for its beginnings. -/
theorem run_of_beginning {as bs : List α} {s : σ} (h : M.run as = some s) (hbegin : bs <+: as) :
    ∃ t, M.run bs = some t := by
  obtain ⟨rest, rfl⟩ := hbegin
  rw [run, runFrom_append] at h
  obtain ⟨t, ht, -⟩ := Option.bind_eq_some_iff.mp h
  exact ⟨t, ht⟩

/-- **Induction over runs.**  `I` may speak of the actions done so far, and a step may use that
    they led to its state. -/
theorem run_history_of_run {I : List α → σ → Prop} (hinit : I [] M.init)
    (hstep : ∀ as s a s', M.run as = some s → I as s → M.step s a = some s' → I (as ++ [a]) s')
    {as : List α} {s : σ} (h : M.run as = some s) : I as s := by
  -- By induction on the run from its end, so that the last step is the one at hand.
  induction as using List.reverseRecOn generalizing s with
  | nil =>
    rw [run, runFrom_nil, Option.some.injEq] at h
    exact h ▸ hinit
  | append_singleton as a ih =>
    obtain ⟨t, ht, hta⟩ := runFrom_concat_eq_some.mp h
    exact hstep as t a s ht (ih ht) hta

/-- Its usual form. -/
theorem run_history {I : List α → σ → Prop} (hinit : I [] M.init)
    (hstep : ∀ as s a s', I as s → M.step s a = some s' → I (as ++ [a]) s')
    {as : List α} {s : σ} (h : M.run as = some s) : I as s :=
  run_history_of_run hinit (fun as s a s' _ => hstep as s a s') h

/-- **Induction over the rest of a run.** -/
theorem run_rest {I : List α → σ → Prop} {as : List α} {s₁ : σ} (h₁ : M.run as = some s₁)
    (hinit : I [] s₁)
    (hstep : ∀ bs s a s', M.run (as ++ bs) = some s → I bs s → M.step s a = some s' →
      I (bs ++ [a]) s')
    {bs : List α} {s : σ} (h : M.run (as ++ bs) = some s) : I bs s := by
  induction bs using List.reverseRecOn generalizing s with
  | nil =>
    rw [List.append_nil, h₁, Option.some.injEq] at h
    exact h ▸ hinit
  | append_singleton bs a ih =>
    rw [← List.append_assoc] at h
    obtain ⟨t, ht, hta⟩ := runFrom_concat_eq_some.mp h
    exact hstep bs t a s ht (ih ht) hta

/-- **Measures.**  A run of steps that decrease a measure is no longer than the measure. -/
theorem length_le_of_decreasing {m : σ → ℕ} {ok : α → Prop}
    (hstep : ∀ s a s', ok a → M.step s a = some s' → m s' < m s)
    {as : List α} {s s' : σ} (hok : ∀ a ∈ as, ok a) (h : M.runFrom s as = some s') :
    as.length ≤ m s := by
  induction as generalizing s with
  | nil => exact Nat.zero_le _
  | cons a as ih =>
    rw [runFrom_cons] at h
    obtain ⟨t, ht, hrest⟩ := Option.bind_eq_some_iff.mp h
    have hle := ih (fun b hb => hok b (List.mem_cons_of_mem _ hb)) hrest
    have hlt := hstep s a t (hok a (List.mem_cons_self ..)) ht
    rw [List.length_cons]
    omega

/-- An invariant of the steps that `ok` admits holds after every run of such steps. -/
theorem run_invariant {I : σ → Prop} {ok : α → Prop} (hinit : I M.init)
    (hstep : ∀ s a s', ok a → I s → M.step s a = some s' → I s')
    {as : List α} {s : σ} (hok : ∀ a ∈ as, ok a) (h : M.run as = some s) : I s := by
  refine run_history (I := fun as s => (∀ a ∈ as, ok a) → I s) (fun _ => hinit) ?_ h hok
  intro as s a s' ih hs hok
  exact hstep s a s' (hok a (by simp)) (ih fun b hb => hok b (by simp [hb])) hs

namespace Reachable

/-- The initial state is reachable. -/
theorem init : M.Reachable M.init := ⟨[], rfl⟩

/-- What is reached from a reachable state is reachable. -/
theorem runFrom {s s' : σ} {as : List α} (h : M.Reachable s) (hs : M.runFrom s as = some s') :
    M.Reachable s' := by
  obtain ⟨bs, hbs⟩ := h
  refine ⟨bs ++ as, ?_⟩
  rw [Machine.run] at hbs ⊢
  rw [runFrom_append, hbs]
  exact hs

/-- **Invariants.**  What holds initially and is kept by every step holds in every
    reachable state. -/
theorem invariant {I : σ → Prop} {s : σ} (h : M.Reachable s) (hinit : I M.init)
    (hstep : ∀ s a s', I s → M.step s a = some s' → I s') : I s := by
  obtain ⟨as, has⟩ := h
  exact run_history hinit (fun _ s a s' hs hst => hstep s a s' hs hst) has

end Reachable

/-! ### Conditions on the steps of a run -/

/-- Every step of the run of `as` meets `ok` in the state before it. -/
def Along (M : Machine σ α) (ok : σ → α → Prop) (as : List α) : Prop :=
  ∀ pre a, pre ++ [a] <+: as → ∀ s, M.run pre = some s → ok s a

/-- A run without steps meets every condition. -/
theorem along_nil {ok : σ → α → Prop} : M.Along ok [] := by
  intro pre a hpre
  have hnil : pre ++ [a] = [] := List.prefix_nil.mp hpre
  simp at hnil

/-- A condition along a run is one along its beginning and one on its last step. -/
theorem along_concat {ok : σ → α → Prop} {as : List α} {a : α} :
    M.Along ok (as ++ [a]) ↔ M.Along ok as ∧ ∀ s, M.run as = some s → ok s a := by
  constructor
  · intro h
    refine ⟨fun pre b hpre => h pre b (hpre.trans (List.prefix_append _ _)), ?_⟩
    exact h as a (List.prefix_refl _)
  · rintro ⟨has, ha⟩ pre b hpre
    -- The step is the last one of the run, or one of the run before it.
    rcases List.prefix_concat_iff.mp hpre with heq | hpre'
    · obtain ⟨rfl, hab⟩ := List.append_inj' heq rfl
      cases hab
      exact ha
    · exact has pre b hpre'

/-! ### Steps that are runs -/

/-- A machine each step of which is a run of `M`, under a guard, does the run of all of them. -/
theorem runFrom_flatMap_eq_some {P : Machine σ β} {ok : β → Prop} [DecidablePred ok]
    {steps : β → List α}
    (hstep : ∀ s b, P.step s b = if ok b then M.runFrom s (steps b) else none)
    {s s' : σ} {bs : List β} :
    P.runFrom s bs = some s' ↔
      (∀ b ∈ bs, ok b) ∧ M.runFrom s (bs.flatMap steps) = some s' := by
  induction bs generalizing s with
  | nil => simp
  | cons b bs ih =>
    rw [runFrom_cons, hstep, List.flatMap_cons, runFrom_append, List.forall_mem_cons]
    by_cases hok : ok b
    · simp only [if_pos hok, Option.bind_eq_some_iff, ih]
      tauto
    · simp [hok]

/-! ### Refinement -/

/-- A refinement of `N` by `M`: under an invariant of `M`, each step of `M` is a run
    (possibly empty) of `N` between the images of its two states. -/
structure Refinement (M : Machine σ α) (N : Machine τ β) where
  abs : σ → τ
  inv : σ → Prop
  inv_init : inv M.init
  inv_step : ∀ s a s', inv s → M.step s a = some s' → inv s'
  abs_init : abs M.init = N.init
  abs_step : ∀ s a s', inv s → M.step s a = some s' → ∃ bs, N.runFrom (abs s) bs = some (abs s')

/-- Reachable states are mapped to reachable states, so every invariant of `N` is one
    of `M`. -/
theorem Refinement.reachable (R : Refinement M N) {s : σ} (h : M.Reachable s) :
    N.Reachable (R.abs s) := by
  refine (h.invariant (I := fun s => R.inv s ∧ N.Reachable (R.abs s)) ⟨R.inv_init, ?_⟩ ?_).2
  · rw [R.abs_init]; exact Reachable.init
  · rintro s a s' ⟨hi, hr⟩ hs
    obtain ⟨bs, hbs⟩ := R.abs_step s a s' hi hs
    exact ⟨R.inv_step s a s' hi hs, hr.runFrom hbs⟩

end Machine
