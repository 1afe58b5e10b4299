import Wallbot.Lib.Machine

/-!
# Library — components of a machine

A machine that is put together from others answers each of its actions by actions of the
parts.  Which ones may depend on its state, as where one part hands a value to the next.

* `Component` — a part of the state, and the actions of the part.
* `Component.run` — a run of the whole is a run of the part, over `Component.trace`.
* `Component.trace_eq_flatMap` — the trace of a part whose actions do not depend on the state.
-/

namespace Machine

variable {σ α τ β : Type} {M : Machine σ α} {N : Machine τ β}

/-- `N` as a part of `M`: each step of `M` is a run of `N` on its part of the state. -/
structure Component (M : Machine σ α) (N : Machine τ β) where
  part : σ → τ
  own : σ → α → List β
  part_init : part M.init = N.init
  part_step : ∀ s a s', M.step s a = some s' → N.runFrom (part s) (own s a) = some (part s')

namespace Component

/-- The actions of the part while the whole follows `as` from `s`. -/
def traceFrom (C : Component M N) (s : σ) : List α → List β
  | [] => []
  | a :: as =>
    C.own s a ++
      match M.step s a with
      | some s' => C.traceFrom s' as
      | none => []

/-- The actions of the part in a run of the whole. -/
def trace (C : Component M N) (as : List α) : List β := C.traceFrom M.init as

variable (C : Component M N) {s s' : σ} {as : List α}

/-- One step more adds what the component does in it. -/
theorem traceFrom_concat (h : M.runFrom s as = some s') (a : α) :
    C.traceFrom s (as ++ [a]) = C.traceFrom s as ++ C.own s' a := by
  induction as generalizing s with
  | nil =>
    obtain rfl : s = s' := Option.some.inj h
    rw [List.nil_append, traceFrom, traceFrom, List.nil_append]
    cases M.step s a <;> exact List.append_nil _
  | cons b as ih =>
    rw [runFrom_cons] at h
    obtain ⟨t, ht, hrun⟩ := Option.bind_eq_some_iff.mp h
    rw [List.cons_append, traceFrom, traceFrom, ht]
    simp only
    rw [ih hrun, List.append_assoc]

/-- One action more of the whole. -/
theorem trace_concat (h : M.run as = some s) (a : α) :
    C.trace (as ++ [a]) = C.trace as ++ C.own s a :=
  C.traceFrom_concat h a

/-- **Projection.**  Every run of the whole is a run of the part. -/
theorem run (h : M.run as = some s) : N.run (C.trace as) = some (C.part s) := by
  refine run_history_of_run (I := fun as s => N.run (C.trace as) = some (C.part s)) ?_ ?_ h
  · rw [C.part_init]
    rfl
  · intro as s a s' has ih hstep
    rw [C.trace_concat has, Machine.run, runFrom_append]
    rw [Machine.run] at ih
    rw [ih, Option.bind_some]
    exact C.part_step s a s' hstep

/-- So the part is where one of its own runs leads. -/
theorem reachable (h : M.Reachable s) : N.Reachable (C.part s) := by
  obtain ⟨as, has⟩ := h
  exact ⟨_, C.run has⟩

/-- A component that does not look at the state can be traced by the actions alone. -/
theorem trace_eq_flatMap {f : α → List β} (hown : ∀ s a, C.own s a = f a)
    (h : M.run as = some s) : C.trace as = as.flatMap f := by
  refine run_history_of_run (I := fun as _ => C.trace as = as.flatMap f) rfl ?_ h
  intro as s a s' has ih _
  rw [C.trace_concat has, ih, hown, List.flatMap_append, List.flatMap_singleton]

end Component

end Machine
