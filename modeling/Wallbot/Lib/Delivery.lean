import Mathlib.Data.List.Perm.Basic
import Wallbot.Lib.Machine

/-!
# Library — numbered readings over an unreliable network

The purpose of a pipeline that forwards readings: a reading is accepted, attempted once in
its turn, and from then on known by its number.  An attempt may put it into the network or
fail; what is in the network may be lost or arrive in any order, and an arrival is acted on
or not.  Nothing is said about how any of this is done.

`Delivery.reachable_sound` is the accounting that follows: attempts never overtake
acceptance, and no number arrives twice or without having been attempted.
-/

namespace Delivery

open scoped List

/-- The accepted readings, and the numbers of those attempted, in the network (`live`),
    arrived and acted on. -/
structure Ledger (α : Type) where
  accepted : List α
  attempted : ℕ
  live : List ℕ
  arrived : List ℕ
  acted : List ℕ

/-- What the sender, the network and the receiver do. -/
inductive Action (α : Type) where
  | accept (a : α)
  /-- Attempt the next reading; `sent` when it enters the network. -/
  | attempt (sent : Bool)
  /-- The network loses the `i`-th of its readings. -/
  | lose (i : ℕ)
  /-- The `i`-th reading in the network arrives; `act` when it is acted on. -/
  | arrive (i : ℕ) (act : Bool)

variable {α : Type}

/-- Each action moves an item to the next of the lists. -/
def Ledger.step (s : Ledger α) : Action α → Option (Ledger α)
  | .accept a => some { s with accepted := s.accepted ++ [a] }
  | .attempt sent =>
    if s.attempted < s.accepted.length then
      some
        { s with
          attempted := s.attempted + 1
          live := if sent then s.live ++ [s.attempted] else s.live }
    else none
  | .lose i => some { s with live := s.live.eraseIdx i }
  | .arrive i act =>
    s.live[i]?.map fun k =>
      { s with
        live := s.live.eraseIdx i
        arrived := s.arrived ++ [k]
        acted := if act then s.acted ++ [k] else s.acted }

/-- The machine of all ledgers. -/
def ledger (α : Type) : Machine (Ledger α) (Action α) where
  init := { accepted := [], attempted := 0, live := [], arrived := [], acted := [] }
  step := Ledger.step

/-- The accounting of a ledger. -/
structure Ledger.Sound (s : Ledger α) : Prop where
  inOrder : s.attempted ≤ s.accepted.length
  known : ∀ k ∈ s.live ++ s.arrived, k < s.attempted
  once : (s.live ++ s.arrived).Nodup
  acted : s.acted.Sublist s.arrived

/-- Taking a number out of the network and noting its arrival moves it. -/
theorem move_perm {live : List ℕ} (arrived : List ℕ) {i k : ℕ} (h : live[i]? = some k) :
    live.eraseIdx i ++ (arrived ++ [k]) ~ live ++ arrived := by
  obtain ⟨hi, rfl⟩ := List.getElem?_eq_some_iff.mp h
  calc live.eraseIdx i ++ (arrived ++ [live[i]])
      ~ live.eraseIdx i ++ (live[i] :: arrived) :=
        (List.perm_append_singleton _ _).append_left _
    _ ~ live[i] :: live.eraseIdx i ++ arrived := List.perm_middle
    _ ~ live ++ arrived := (List.getElem_cons_eraseIdx_perm hi).append_right _

/-- Every action keeps the ledger sound. -/
theorem Ledger.Sound.step {s s' : Ledger α} {a : Action α} (h : s.Sound)
    (hs : s.step a = some s') : s'.Sound := by
  cases a with
  | accept a =>
    cases hs
    exact ⟨by simpa using Nat.le_trans h.inOrder (Nat.le_succ _), h.known, h.once, h.acted⟩
  | attempt sent =>
    simp only [Ledger.step, Option.ite_none_right_eq_some, Option.some.injEq] at hs
    obtain ⟨hlt, rfl⟩ := hs
    -- The number attempted next is above all known ones.
    have hfresh : s.attempted ∉ s.live ++ s.arrived := fun hk =>
      Nat.lt_irrefl _ (h.known _ hk)
    cases sent with
    | false => exact ⟨hlt, fun k hk => Nat.lt_succ_of_lt (h.known k hk), h.once, h.acted⟩
    | true =>
      have hperm : s.live ++ [s.attempted] ++ s.arrived ~
          s.attempted :: (s.live ++ s.arrived) := by
        rw [List.append_assoc]
        exact List.perm_middle
      refine ⟨hlt, ?_, hperm.nodup_iff.mpr (List.nodup_cons.mpr ⟨hfresh, h.once⟩), h.acted⟩
      intro k hk
      rcases List.mem_cons.mp (hperm.mem_iff.mp hk) with rfl | hold
      · exact Nat.lt_succ_self _
      · exact Nat.lt_succ_of_lt (h.known k hold)
  | lose i =>
    cases hs
    have hsub : (s.live.eraseIdx i ++ s.arrived).Sublist (s.live ++ s.arrived) :=
      (List.eraseIdx_sublist _ _).append_right _
    exact ⟨h.inOrder, fun k hk => h.known k (hsub.subset hk), h.once.sublist hsub, h.acted⟩
  | arrive i act =>
    simp only [Ledger.step, Option.map_eq_some_iff] at hs
    obtain ⟨k, hk, rfl⟩ := hs
    -- The number only moves, and numbers known once are known once still.
    have hperm := move_perm s.arrived hk
    refine ⟨h.inOrder, fun j hj => h.known j (hperm.mem_iff.mp hj), hperm.nodup_iff.mpr h.once, ?_⟩
    cases act with
    | false => exact h.acted.trans (List.sublist_append_left _ _)
    | true => exact h.acted.append_right [k]

/-- **Accounting.**  Every reachable ledger is sound. -/
theorem reachable_sound {s : Ledger α} (h : (ledger α).Reachable s) : s.Sound :=
  h.invariant ⟨Nat.le_refl _, by simp [ledger], List.nodup_nil, List.Sublist.refl _⟩
    fun _ _ _ hs hstep => hs.step hstep

end Delivery
