import Mathlib.Data.List.Nodup
import Mathlib.Data.List.Perm.Subperm

/-!
# Library — the correlation of two logs by a key

Two components log what they send and what they receive, and whoever reads the logs draws an
interaction between every two entries that have the same key.  The interactions are right if
each receipt has exactly one, no two share a sending, and what the two logs say agrees.

* `pairs` — all interactions that the key draws.
* `Exact` — they are right.
* `exact_of_partner` — so they are if the keys are unique and the sending of every receipt is
  in the log.
-/

namespace Correlation

variable {α β κ : Type} [DecidableEq κ] {keyT : α → κ} {keyR : β → κ} {agree : α → β → Prop}
  {tx : List α} {rx : List β}

/-- The interactions between the sendings `tx` and the receipts `rx`. -/
def pairs (keyT : α → κ) (keyR : β → κ) (tx : List α) (rx : List β) : List (α × β) :=
  rx.flatMap fun r => (tx.filter fun t => keyT t = keyR r).map fun t => (t, r)

/-- The interactions are those of the messages. -/
structure Exact (keyT : α → κ) (keyR : β → κ) (agree : α → β → Prop) (tx : List α)
    (rx : List β) : Prop where
  /-- Every receipt has exactly one interaction. -/
  received : (pairs keyT keyR tx rx).map Prod.snd = rx
  /-- No two receipts share a sending. -/
  sent : ((pairs keyT keyR tx rx).map Prod.fst).Subperm tx
  agrees : ∀ p ∈ pairs keyT keyR tx rx, agree p.1 p.2

/-- A pair is a sender and a receiver with one key. -/
theorem mem_pairs {t : α} {r : β} :
    (t, r) ∈ pairs keyT keyR tx rx ↔ t ∈ tx ∧ r ∈ rx ∧ keyT t = keyR r := by
  simp only [pairs, List.mem_flatMap, List.mem_map, List.mem_filter, decide_eq_true_eq,
    Prod.mk.injEq]
  constructor
  · rintro ⟨r, hr, t, ⟨ht, hkey⟩, rfl, rfl⟩
    exact ⟨ht, hr, hkey⟩
  · rintro ⟨ht, hr, hkey⟩
    exact ⟨r, hr, t, ⟨ht, hkey⟩, rfl, rfl⟩

/-- Unique keys single out the sending. -/
theorem filter_key_eq (hkeys : (tx.map keyT).Nodup) {t : α} (ht : t ∈ tx) :
    tx.filter (fun u => keyT u = keyT t) = [t] := by
  induction tx with
  | nil => cases ht
  | cons u tx ih =>
    rw [List.map_cons, List.nodup_cons] at hkeys
    obtain ⟨hfresh, hrest⟩ := hkeys
    rcases List.mem_cons.mp ht with rfl | ht
    · -- No later entry has the key of the first.
      have hnone : tx.filter (fun u => keyT u = keyT t) = [] := by
        refine List.filter_eq_nil_iff.mpr fun u hu hkey => hfresh ?_
        rw [← of_decide_eq_true hkey]
        exact List.mem_map_of_mem hu
      rw [List.filter_cons_of_pos (by simp), hnone]
    · have hne : keyT u ≠ keyT t := by
        intro hkey
        rw [hkey] at hfresh
        exact hfresh (List.mem_map_of_mem ht)
      rw [List.filter_cons_of_neg (by simp [hne]), ih hrest ht]

/-- If the keys are distinct and every receiver has a partner, the receivers come once each. -/
theorem pairs_snd (hkeys : (tx.map keyT).Nodup)
    (hpartner : ∀ r ∈ rx, ∃ t ∈ tx, keyT t = keyR r) :
    (pairs keyT keyR tx rx).map Prod.snd = rx := by
  induction rx with
  | nil => rfl
  | cons r rx ih =>
    obtain ⟨t, ht, hkey⟩ := hpartner r (List.mem_cons_self ..)
    have hone : (tx.filter fun u => keyT u = keyR r) = [t] := by
      rw [← hkey]
      exact filter_key_eq hkeys ht
    rw [pairs] at ih
    rw [pairs, List.flatMap_cons, hone, List.map_append,
      ih fun r hr => hpartner r (List.mem_cons_of_mem _ hr)]
    rfl

/-- The two sides of the interactions have the same keys. -/
theorem pairs_keys :
    ((pairs keyT keyR tx rx).map Prod.fst).map keyT =
      ((pairs keyT keyR tx rx).map Prod.snd).map keyR := by
  rw [List.map_map, List.map_map]
  refine List.map_congr_left fun p hp => ?_
  exact (mem_pairs.mp hp).2.2

/-- **Correlation.**  Unique keys, and a sending for every receipt, draw the right
    interactions. -/
theorem exact_of_partner (htx : (tx.map keyT).Nodup) (hrx : (rx.map keyR).Nodup)
    (hpartner : ∀ r ∈ rx, ∃ t ∈ tx, keyT t = keyR r ∧ agree t r) :
    Exact keyT keyR agree tx rx := by
  have hsnd : (pairs keyT keyR tx rx).map Prod.snd = rx := by
    refine pairs_snd htx fun r hr => ?_
    obtain ⟨t, ht, hkey, -⟩ := hpartner r hr
    exact ⟨t, ht, hkey⟩
  refine ⟨hsnd, ?_, ?_⟩
  · -- The sendings have the keys of the receipts, which are unique.
    have hnodup : ((pairs keyT keyR tx rx).map Prod.fst).Nodup := by
      refine List.Nodup.of_map keyT ?_
      rw [pairs_keys, hsnd]
      exact hrx
    refine List.subperm_of_subset hnodup fun t ht => ?_
    obtain ⟨⟨t, r⟩, hp, rfl⟩ := List.mem_map.mp ht
    exact (mem_pairs.mp hp).1
  · rintro ⟨t, r⟩ hp
    obtain ⟨ht, hr, hkey⟩ := mem_pairs.mp hp
    obtain ⟨u, hu, hkey', hagree⟩ := hpartner r hr
    -- The sending of the interaction is the partner.
    obtain rfl : t = u := List.inj_on_of_nodup_map htx ht hu (hkey.trans hkey'.symm)
    exact hagree

end Correlation
