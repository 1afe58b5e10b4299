import Mathlib.Data.List.Basic

/-!
# Library — logs of handles

A resource is reached through handles that are opened, used and closed.  The log of these
events, oldest first, says whether its user keeps to the rules:

* `Disciplined` — no handle is used or closed after it was closed;
* `Open` — the handles of a kind that were opened and not closed since.

Both are stated of the log as a whole, so that a program is proved to keep them by saying
what each of its calls appends.
-/

namespace HandleLog

variable {κ η : Type}

/-- What can happen to a handle; `kind` is what it was opened as. -/
inductive Event (κ η : Type) where
  | opened (kind : κ) (h : η)
  | used (h : η)
  | closed (h : η)
  deriving DecidableEq, Repr

/-- The event needs `h` to be open. -/
def Event.Touches (e : Event κ η) (h : η) : Prop :=
  e = .used h ∨ e = .closed h

/-- No event needs a handle that an earlier one closed. -/
def Disciplined (log : List (Event κ η)) : Prop :=
  log.Pairwise fun e e' => ∀ h, e = .closed h → ¬ e'.Touches h

/-- `h` was opened as `kind` and has not been closed. -/
def Open (log : List (Event κ η)) (kind : κ) (h : η) : Prop :=
  .opened kind h ∈ log ∧ .closed h ∉ log

variable {log log' : List (Event κ η)} {h : η}

/-- A log without closings is disciplined. -/
theorem disciplined_of_no_closed (hlog : ∀ h, .closed h ∉ log) : Disciplined log := by
  refine List.Pairwise.imp_of_mem ?_ (List.pairwise_of_forall (R := fun _ _ => True) (by simp))
  rintro e e' he - - h rfl
  exact absurd he (hlog h)

/-- Two disciplined logs make one if the second leaves alone what the first has closed. -/
theorem Disciplined.append (hlog : Disciplined log) (hlog' : Disciplined log')
    (hclosed : ∀ h, .closed h ∈ log → ∀ e ∈ log', ¬ e.Touches h) : Disciplined (log ++ log') := by
  refine List.pairwise_append.mpr ⟨hlog, hlog', ?_⟩
  rintro e he e' he' h rfl
  exact hclosed h he e' he'

/-- The beginning of a disciplined log is disciplined. -/
theorem Disciplined.left (hlog : Disciplined (log ++ log')) : Disciplined log :=
  (List.pairwise_append.mp hlog).1

/-- A closed handle that is needed again breaks the discipline. -/
theorem not_disciplined {e : Event κ η} (hclosed : .closed h ∈ log) (he : e ∈ log')
    (ht : e.Touches h) : ¬ Disciplined (log ++ log') := by
  intro hlog
  exact (List.pairwise_append.mp hlog).2.2 _ hclosed e he h rfl ht

end HandleLog
