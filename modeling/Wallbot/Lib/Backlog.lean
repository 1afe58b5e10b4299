import Wallbot.Lib.Fifo
import Wallbot.Lib.Tally

/-!
# Library — the backlog of a bounded queue

A FIFO queue inside of a machine: a step lets an item arrive, serves one, or does neither.  An item
that finds the queue full is refused, and a service that finds it empty is wasted.

* `backlog` — as long as no item is refused, the length is the greatest excess of arrivals over
  services since any moment before.
* `refused_eq_zero_iff` — so none is refused exactly if no excess is greater than the capacity.
* `refused_eq_zero_iff_of_blocking` — if a service waits for an item, none is wasted, and the
  excess since the beginning is all that counts.
* `taken_of_services` — an item waits for no more services than there were items in the queue.
-/

namespace Machine

variable {σ α β : Type} {cap : ℕ}

/-- What a step does to a queue. -/
inductive QueueStep where
  | arrival
  | service
  | other
  deriving DecidableEq, Repr

/-- The queue before and after a step. -/
def QueueStep.Moves (q q' : Fifo β cap) : QueueStep → Prop
  | .arrival => (∃ b, q.put? b = some q') ∨ q.items.length = cap ∧ q' = q
  | .service => (∃ b, q.take? = some (b, q')) ∨ q.items = [] ∧ q' = q
  | .other => q' = q

/-- A queue inside of `M`: every step is an arrival at it, a service of it, or leaves it as it
    is. -/
structure QueueIn (M : Machine σ α) (β : Type) (cap : ℕ) where
  queue : σ → Fifo β cap
  kind : σ → α → QueueStep
  queue_init : queue M.init = .empty
  queue_step : ∀ as s a s', M.run as = some s → M.step s a = some s' →
    (kind s a).Moves (queue s) (queue s')

namespace QueueIn

variable {M : Machine σ α} (Q : QueueIn M β cap)

/-- The number of items in the queue. -/
def length (s : σ) : ℕ := (Q.queue s).items.length

/-- The number of arrivals of a run. -/
def arrivals (as : List α) : ℕ := M.tally (fun s a => if Q.kind s a = .arrival then 1 else 0) as

/-- The number of its services. -/
def services (as : List α) : ℕ := M.tally (fun s a => if Q.kind s a = .service then 1 else 0) as

/-- The items that found the queue full. -/
def refused (as : List α) : ℕ :=
  M.tally (fun s a => if Q.kind s a = .arrival ∧ Q.length s = cap then 1 else 0) as

variable {Q} {s s' : σ} {a : α} {as bs : List α}

/-- The queue is bounded. -/
theorem length_le (s : σ) : Q.length s ≤ cap := (Q.queue s).bound

/-- It is empty at first. -/
theorem length_init : Q.length M.init = 0 := by
  rw [length, Q.queue_init]
  rfl

/-- The queue after a step. -/
theorem length_step (h : M.run as = some s) (hs : M.step s a = some s') :
    (Q.kind s a = .arrival ∧ (Q.length s < cap ∧ Q.length s' = Q.length s + 1 ∨
      Q.length s = cap ∧ Q.length s' = Q.length s)) ∨
    (Q.kind s a = .service ∧ Q.length s' = Q.length s - 1) ∨
    (Q.kind s a = .other ∧ Q.length s' = Q.length s) := by
  have hmoves := Q.queue_step as s a s' h hs
  have hle : Q.length s' ≤ cap := length_le s'
  unfold length at hle ⊢
  cases hkind : Q.kind s a with
  | arrival =>
    rw [hkind] at hmoves
    rcases hmoves with ⟨b, hput⟩ | ⟨hfull, hsame⟩
    · rw [(Fifo.put?_eq_some hput).1, List.length_append, List.length_singleton] at hle ⊢
      exact .inl ⟨rfl, .inl ⟨hle, rfl⟩⟩
    · exact .inl ⟨rfl, .inr ⟨hfull, by rw [hsame]⟩⟩
  | service =>
    rw [hkind] at hmoves
    rcases hmoves with ⟨b, htake⟩ | ⟨hnil, hsame⟩
    · rw [(Fifo.take?_eq_some htake).1]
      exact .inr (.inl ⟨rfl, rfl⟩)
    · rw [hsame, hnil]
      exact .inr (.inl ⟨rfl, rfl⟩)
  | other =>
    rw [hkind] at hmoves
    have hsame : Q.queue s' = Q.queue s := hmoves
    exact .inr (.inr ⟨rfl, by rw [hsame]⟩)

/-- **A step**, and what it counts for. -/
theorem step_cases (h : M.run as = some s) (hs : M.step s a = some s') :
    (Q.arrivals (as ++ [a]) = Q.arrivals as + 1 ∧ Q.services (as ++ [a]) = Q.services as ∧
      (Q.length s < cap ∧ Q.length s' = Q.length s + 1 ∧ Q.refused (as ++ [a]) = Q.refused as ∨
        Q.length s = cap ∧ Q.refused (as ++ [a]) = Q.refused as + 1)) ∨
    (Q.kind s a = .service ∧ Q.arrivals (as ++ [a]) = Q.arrivals as ∧
      Q.services (as ++ [a]) = Q.services as + 1 ∧ Q.refused (as ++ [a]) = Q.refused as ∧
      Q.length s' = Q.length s - 1) ∨
    (Q.arrivals (as ++ [a]) = Q.arrivals as ∧ Q.services (as ++ [a]) = Q.services as ∧
      Q.refused (as ++ [a]) = Q.refused as ∧ Q.length s' = Q.length s) := by
  simp only [arrivals, services, refused, tally_concat h]
  rcases length_step (Q := Q) h hs with ⟨hkind, ⟨hlt, hlength⟩ | ⟨hfull, -⟩⟩ | ⟨hkind, hlength⟩ |
    ⟨hkind, hlength⟩
  · have hne : ¬ Q.length s = cap := Nat.ne_of_lt hlt
    exact .inl (by simp [hkind, hne, hlt, hlength])
  · exact .inl (by simp [hkind, hfull])
  · exact .inr (.inl (by simp [hkind, hlength]))
  · exact .inr (.inr (by simp [hkind, hlength]))

/-- Every excess up to now is at most the length, and one is equal to it. -/
structure Backlog (Q : QueueIn M β cap) (as : List α) (s : σ) : Prop where
  excess_le : ∀ p, p <+: as → Q.arrivals as + Q.services p ≤
    Q.arrivals p + Q.services as + Q.length s
  excess_eq : ∃ p, p <+: as ∧ Q.arrivals as + Q.services p =
    Q.arrivals p + Q.services as + Q.length s

/-- **The backlog**, as long as no item is refused. -/
theorem backlog (h : M.run as = some s) (hrefused : Q.refused as = 0) : Q.Backlog as s := by
  refine run_history_of_run (I := fun as s => Q.refused as = 0 → Q.Backlog as s) ?_ ?_ h hrefused
  · intro _
    refine ⟨fun p hp => ?_, [], List.prefix_refl _, ?_⟩
    · rw [List.prefix_nil.mp hp]
      omega
    · rw [length_init]
      omega
  · intro as s a s' has ih hs hrefused
    have hnow := step_cases (Q := Q) has hs
    obtain ⟨hle, p, hp, heq⟩ := ih (by omega)
    have hgrow : as <+: as ++ [a] := List.prefix_append _ _
    refine ⟨fun q hq => ?_, ?_⟩
    · rcases List.prefix_concat_iff.mp hq with rfl | hq
      · omega
      · have hq := hle q hq
        omega
    · rcases hnow with ⟨harr, hserv, hnow⟩ | ⟨-, hnow⟩ | hnow
      · exact ⟨p, hp.trans hgrow, by omega⟩
      · -- A service that is wasted starts the count again.
        by_cases hempty : Q.length s = 0
        · exact ⟨as ++ [a], List.prefix_refl _, by omega⟩
        · exact ⟨p, hp.trans hgrow, by omega⟩
      · exact ⟨p, hp.trans hgrow, by omega⟩

/-- **Bursts.**  No item is refused exactly if at no time more items have arrived than were served
    and fit into the queue. -/
theorem refused_eq_zero_iff (h : M.run as = some s) :
    Q.refused as = 0 ↔ ∀ p q, p <+: q → q <+: as →
      Q.arrivals q + Q.services p ≤ Q.arrivals p + Q.services q + cap := by
  refine run_history_of_run (I := fun as _ => Q.refused as = 0 ↔ ∀ p q, p <+: q → q <+: as →
    Q.arrivals q + Q.services p ≤ Q.arrivals p + Q.services q + cap) ?_ ?_ h
  · refine iff_of_true rfl fun p q hp hq => ?_
    obtain rfl := List.prefix_nil.mp hq
    rw [List.prefix_nil.mp hp]
    omega
  · intro as s a s' has ih hs
    have hnow := step_cases (Q := Q) has hs
    have hrun : M.run (as ++ [a]) = some s' := (run_concat has a).trans hs
    constructor
    · intro hrefused p q hp hq
      rcases List.prefix_concat_iff.mp hq with rfl | hq
      · have hexcess := (backlog hrun hrefused).excess_le p hp
        have hle := length_le (Q := Q) s'
        omega
      · exact ih.mp (by omega) p q hp hq
    · intro hall
      have hrefused := ih.mpr fun p q hp hq => hall p q hp (hq.trans (List.prefix_append _ _))
      obtain ⟨p, hp, heq⟩ := (backlog has hrefused).excess_eq
      -- The excess that fills the queue leaves no room for one item more.
      have hlast := hall p (as ++ [a]) (hp.trans (List.prefix_append _ _)) (List.prefix_refl _)
      omega

/-- **Bursts**, if a service waits for an item. -/
theorem refused_eq_zero_iff_of_blocking
    (hblock : ∀ as s a s', M.run as = some s → M.step s a = some s' → Q.kind s a = .service →
      0 < Q.length s)
    (h : M.run as = some s) :
    Q.refused as = 0 ↔ ∀ q, q <+: as → Q.arrivals q ≤ Q.services q + cap := by
  refine (run_history_of_run (I := fun as s =>
    (Q.refused as = 0 → Q.arrivals as = Q.services as + Q.length s) ∧
      (Q.refused as = 0 ↔ ∀ q, q <+: as → Q.arrivals q ≤ Q.services q + cap)) ?_ ?_ h).2
  · refine ⟨fun _ => ?_, iff_of_true rfl fun q hq => ?_⟩
    · rw [length_init]
      rfl
    · rw [List.prefix_nil.mp hq]
      exact Nat.zero_le _
  · rintro as s a s' has ⟨hexcess, ih⟩ hs
    have hnow := step_cases (Q := Q) has hs
    have hpos := hblock as s a s' has hs
    have hle := length_le (Q := Q) s'
    have hexcess' : Q.refused (as ++ [a]) = 0 →
        Q.arrivals (as ++ [a]) = Q.services (as ++ [a]) + Q.length s' := by
      intro hrefused
      have hbefore := hexcess (by omega)
      rcases hnow with hnow | ⟨hkind, hnow⟩ | hnow
      · omega
      · have hsome := hpos hkind
        omega
      · omega
    refine ⟨hexcess', ?_, ?_⟩
    · intro hrefused q hq
      rcases List.prefix_concat_iff.mp hq with rfl | hq
      · have hnow' := hexcess' hrefused
        omega
      · exact ih.mp (by omega) q hq
    · intro hall
      have hrefused := ih.mpr fun q hq => hall q (hq.trans (List.prefix_append _ _))
      have hbefore := hexcess hrefused
      have hlast := hall (as ++ [a]) (List.prefix_refl _)
      omega

/-! ### What was in the queue -/

/-- What was accepted stays accepted, in its place. -/
theorem accepted_grows (h : M.run as = some s) (h' : M.run (as ++ bs) = some s') :
    (Q.queue s).accepted <+: (Q.queue s').accepted := by
  refine run_rest (I := fun _ s' => (Q.queue s).accepted <+: (Q.queue s').accepted) h
    (List.prefix_refl _) ?_ h'
  intro bs t a t' hrun ih hs
  have hmoves := Q.queue_step _ t a t' hrun hs
  cases hkind : Q.kind t a with
  | arrival =>
    rw [hkind] at hmoves
    rcases hmoves with ⟨b, hput⟩ | ⟨-, hsame⟩
    · rw [(Fifo.put?_eq_some hput).2.1]
      exact ih.trans (List.prefix_append _ _)
    · rwa [hsame]
  | service =>
    rw [hkind] at hmoves
    rcases hmoves with ⟨b, htake⟩ | ⟨-, hsame⟩
    · rwa [(Fifo.take?_eq_some htake).2.1]
    · rwa [hsame]
  | other =>
    rw [hkind] at hmoves
    have hsame : Q.queue t' = Q.queue t := hmoves
    rwa [hsame]

/-- What a step takes from the queue. -/
theorem taken_step (h : M.run as = some s) (hs : M.step s a = some s') :
    (Q.services (as ++ [a]) = Q.services as + 1 ∧
      ((Q.queue s').taken.length = (Q.queue s).taken.length + 1 ∨
        (Q.queue s).items = [] ∧ (Q.queue s') = Q.queue s)) ∨
    (Q.services (as ++ [a]) = Q.services as ∧
      (Q.queue s').taken.length = (Q.queue s).taken.length) := by
  have hmoves := Q.queue_step as s a s' h hs
  simp only [services, tally_concat h]
  cases hkind : Q.kind s a with
  | arrival =>
    rw [hkind] at hmoves
    refine .inr ⟨rfl, ?_⟩
    rcases hmoves with ⟨b, hput⟩ | ⟨-, hsame⟩
    · rw [(Fifo.put?_eq_some hput).2.2]
    · rw [hsame]
  | service =>
    rw [hkind] at hmoves
    refine .inl ⟨rfl, ?_⟩
    rcases hmoves with ⟨b, htake⟩ | hidle
    · rw [(Fifo.take?_eq_some htake).2.2, List.length_append, List.length_singleton]
      exact .inl rfl
    · exact .inr hidle
  | other =>
    rw [hkind] at hmoves
    have hsame : Q.queue s' = Q.queue s := hmoves
    exact .inr ⟨rfl, by rw [hsame]⟩

/-- **Waiting.**  What was accepted is taken once there were as many services as items. -/
theorem taken_of_services (h : M.run as = some s) (h' : M.run (as ++ bs) = some s')
    (hservices : Q.services as + Q.length s ≤ Q.services (as ++ bs)) :
    (Q.queue s).accepted <+: (Q.queue s').taken := by
  have hlaw (t : σ) : (Q.queue t).accepted.length =
      (Q.queue t).taken.length + (Q.queue t).items.length := by
    rw [(Q.queue t).law, List.length_append]
  -- Until it is, no service is wasted.
  have hwait : (Q.queue s).accepted.length ≤ (Q.queue s').taken.length ∨
      Q.services (as ++ bs) + (Q.queue s).taken.length =
        Q.services as + (Q.queue s').taken.length := by
    refine run_rest (I := fun bs s' =>
      (Q.queue s).accepted.length ≤ (Q.queue s').taken.length ∨
        Q.services (as ++ bs) + (Q.queue s).taken.length =
          Q.services as + (Q.queue s').taken.length) h ?_ ?_ h'
    · rw [List.append_nil]
      exact .inr rfl
    · intro bs t a t' hrun ih hs
      rw [← List.append_assoc]
      rcases taken_step (Q := Q) hrun hs with ⟨hservices, htaken | ⟨hnil, hsame⟩⟩ |
        ⟨hservices, htaken⟩
      · omega
      · -- The queue is empty: all that was accepted is taken.
        left
        have hgrow := (accepted_grows (Q := Q) h hrun).length_le
        have hall := hlaw t
        rw [hnil, List.length_nil] at hall
        rw [hsame]
        omega
      · omega
  have hlength : (Q.queue s).accepted.length ≤ (Q.queue s').taken.length := by
    have hall := hlaw s
    unfold length at hservices
    omega
  have htaken : (Q.queue s').taken <+: (Q.queue s').accepted := by
    rw [(Q.queue s').law]
    exact List.prefix_append _ _
  exact List.prefix_of_prefix_length_le (accepted_grows h h') htaken hlength

end QueueIn

end Machine
