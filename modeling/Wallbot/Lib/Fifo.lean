import Mathlib.Data.List.Basic

/-!
# Library — bounded FIFO queues with their history

`Fifo α cap` is a queue of at most `cap` items.  Beside the items it keeps two lists that
no operation reads: everything ever `accepted` and everything ever `taken`.  The law of a
FIFO queue is a field of the type: what was accepted is what was taken followed by what is
still queued, in order.

* `put?`, `take?` — the two operations.
* `QueueApi` — the contract of a bounded queue whose code is elsewhere, in the form of `send` and
  `take?`.
* `QueueApi.answers_eq` — whatever meets it answers every sequence of calls alike.
-/

/-- A queue of at most `cap` items, with what it ever accepted and handed out. -/
structure Fifo (α : Type) (cap : ℕ) where
  items : List α
  accepted : List α
  taken : List α
  bound : items.length ≤ cap
  law : accepted = taken ++ items

namespace Fifo

variable {α : Type} {cap : ℕ}

/-- The queue after its creation. -/
def empty : Fifo α cap where
  items := []
  accepted := []
  taken := []
  bound := Nat.zero_le _
  law := rfl

/-- Append an item; `none` when the queue is full. -/
def put? (q : Fifo α cap) (a : α) : Option (Fifo α cap) :=
  if h : q.items.length < cap then
    some
      { items := q.items ++ [a]
        accepted := q.accepted ++ [a]
        taken := q.taken
        bound := by rw [List.length_append, List.length_singleton]; exact h
        law := by rw [q.law, List.append_assoc] }
  else none

/-- Remove the oldest item; `none` when there is none. -/
def take? (q : Fifo α cap) : Option (α × Fifo α cap) :=
  match h : q.items with
  | [] => none
  | a :: rest =>
    some (a,
      { items := rest
        accepted := q.accepted
        taken := q.taken ++ [a]
        bound := by
          have hb := q.bound
          rw [h, List.length_cons] at hb
          omega
        law := by rw [q.law, h, List.append_assoc]; rfl })

/-- A new queue holds nothing. -/
@[simp] theorem empty_items : (empty : Fifo α cap).items = [] := rfl

/-- A new queue has accepted nothing. -/
@[simp] theorem empty_accepted : (empty : Fifo α cap).accepted = [] := rfl

/-- A new queue has handed out nothing. -/
@[simp] theorem empty_taken : (empty : Fifo α cap).taken = [] := rfl

/-- An item is refused exactly when the queue is full. -/
theorem put?_eq_none_iff {q : Fifo α cap} {a : α} : q.put? a = none ↔ q.items.length = cap := by
  have hb := q.bound
  unfold put?
  split
  · simp; omega
  · simp; omega

/-- What an accepted item changes. -/
theorem put?_eq_some {q q' : Fifo α cap} {a : α} (h : q.put? a = some q') :
    q'.items = q.items ++ [a] ∧ q'.accepted = q.accepted ++ [a] ∧ q'.taken = q.taken := by
  unfold put? at h
  split at h
  · cases h; exact ⟨rfl, rfl, rfl⟩
  · cases h

/-- An item is accepted while there is room. -/
theorem put?_room {q q' : Fifo α cap} {a : α} (h : q.put? a = some q') : q.items.length < cap := by
  rw [put?] at h
  split at h
  · assumption
  · cases h

/-- There is nothing to take from an empty queue only. -/
theorem take?_eq_none_iff {q : Fifo α cap} : q.take? = none ↔ q.items = [] := by
  unfold take?
  split <;> simp_all

/-- What taking an item changes. -/
theorem take?_eq_some {q q' : Fifo α cap} {a : α} (h : q.take? = some (a, q')) :
    q.items = a :: q'.items ∧ q'.accepted = q.accepted ∧ q'.taken = q.taken ++ [a] := by
  unfold take? at h
  split at h
  · cases h
  · rename_i b rest hitems
    cases h
    exact ⟨hitems, rfl, rfl⟩

/-- Append an item, or say that there is no room. -/
def send (q : Fifo α cap) (a : α) : Fifo α cap × Bool :=
  match q.put? a with
  | some q' => (q', true)
  | none => (q, false)

/-- With room the item is sent. -/
theorem send_of_room {q : Fifo α cap} (a : α) (hroom : q.items.length < cap) :
    (q.send a).2 = true ∧ (q.send a).1.items = q.items ++ [a] := by
  rw [send]
  cases hput : q.put? a with
  | none => exact absurd (put?_eq_none_iff.mp hput) (Nat.ne_of_lt hroom)
  | some q' => exact ⟨rfl, (put?_eq_some hput).1⟩

/-- Without room nothing changes. -/
theorem send_of_full {q : Fifo α cap} (a : α) (hfull : ¬ q.items.length < cap) :
    (q.send a).2 = false ∧ (q.send a).1.items = q.items := by
  have hcap : q.items.length = cap := Nat.le_antisymm q.bound (Nat.not_lt.mp hfull)
  rw [send, put?_eq_none_iff.mpr hcap]
  exact ⟨rfl, rfl⟩

/-- The first item is the one that is taken. -/
theorem take?_of_cons {q : Fifo α cap} {a : α} {rest : List α} (hitems : q.items = a :: rest) :
    ∃ q', q.take? = some (a, q') ∧ q'.items = rest := by
  cases htake : q.take? with
  | none =>
    rw [take?_eq_none_iff.mp htake] at hitems
    cases hitems
  | some r =>
    obtain ⟨b, q'⟩ := r
    have hold := (take?_eq_some htake).1
    rw [hitems] at hold
    obtain ⟨rfl, rfl⟩ := List.cons.inj hold
    exact ⟨q', rfl, rfl⟩

end Fifo

/-! ### The contract of a queue -/

/-- A bounded queue by what its calls do to what it holds.  Each call is one step and copies its
    item: one that does not wait to send is refused only by a full queue, and the items come out in
    the order in which they went in. -/
structure QueueApi (α : Type) (cap : ℕ) where
  Queue : Type
  create : Queue
  send : Queue → α → Queue × Bool
  receive : Queue → Option (α × Queue)
  holds : Queue → List α
  holds_create : holds create = []
  send_of_room : ∀ q a, (holds q).length < cap →
    (send q a).2 = true ∧ holds (send q a).1 = holds q ++ [a]
  send_of_full : ∀ q a, ¬ (holds q).length < cap →
    (send q a).2 = false ∧ holds (send q a).1 = holds q
  receive_of_empty : ∀ q, holds q = [] → receive q = none
  receive_of_cons : ∀ q a rest, holds q = a :: rest →
    ∃ q', receive q = some (a, q') ∧ holds q' = rest

/-- A call. -/
inductive QueueCall (α : Type) where
  | send (a : α)
  | receive

namespace QueueApi

variable {α : Type} {cap : ℕ}

/-- What a sequence of calls is answered: whether an item was taken, or which item comes out. -/
def answers (A : QueueApi α cap) (q : A.Queue) : List (QueueCall α) → List (Bool ⊕ Option α)
  | [] => []
  | .send a :: calls => .inl (A.send q a).2 :: A.answers (A.send q a).1 calls
  | .receive :: calls =>
    match A.receive q with
    | none => .inr none :: A.answers q calls
    | some (a, q') => .inr (some a) :: A.answers q' calls

/-- **The contract determines the answers.** -/
theorem answers_eq (A B : QueueApi α cap) {q : A.Queue} {q' : B.Queue}
    (h : A.holds q = B.holds q') (calls : List (QueueCall α)) :
    A.answers q calls = B.answers q' calls := by
  induction calls generalizing q q' with
  | nil => rfl
  | cons call calls ih =>
    cases call with
    | send a =>
      rw [answers, answers]
      by_cases hroom : (A.holds q).length < cap
      · obtain ⟨hsent, hholds⟩ := A.send_of_room q a hroom
        obtain ⟨hsent', hholds'⟩ := B.send_of_room q' a (h ▸ hroom)
        rw [hsent, hsent', ih (by rw [hholds, hholds', h])]
      · obtain ⟨hsent, hholds⟩ := A.send_of_full q a hroom
        obtain ⟨hsent', hholds'⟩ := B.send_of_full q' a (h ▸ hroom)
        rw [hsent, hsent', ih (by rw [hholds, hholds', h])]
    | receive =>
      rw [answers, answers]
      cases hitems : A.holds q with
      | nil =>
        rw [A.receive_of_empty q hitems, B.receive_of_empty q' (h ▸ hitems)]
        exact congrArg _ (ih h)
      | cons a rest =>
        obtain ⟨r, hreceive, hrest⟩ := A.receive_of_cons q a rest hitems
        obtain ⟨r', hreceive', hrest'⟩ := B.receive_of_cons q' a rest (h ▸ hitems)
        rw [hreceive, hreceive']
        exact congrArg _ (ih (hrest.trans hrest'.symm))

/-- Two queues of the contract answer alike from their creation on. -/
theorem answers_create (A B : QueueApi α cap) (calls : List (QueueCall α)) :
    A.answers A.create calls = B.answers B.create calls :=
  answers_eq A B (A.holds_create.trans B.holds_create.symm) calls

end QueueApi
