import Mathlib.Data.List.Dedup
import Mathlib.Data.List.Induction

/-!
# Library — intern tables

A table gives every name a symbol, and names of the same key the same one.  A name that is looked
up for the first time is added, with a symbol that a registry makes up; what the registry answers
may depend on all the names it was asked for before.

* `Table` — the entries in the order in which they were added, no two of the same key.
* `Table.intern` — looking a name up, and `Table.after` for a sequence of names.
* `lookup_intern_self`, `lookup_intern_of_some` — the answer is in the table, and stays there.
* `length_after` — there is one entry for each key.
* `lookup_after_inj` — if the registry tells names of different keys apart, so does the table.
-/

namespace InternTable

variable {α κ σ : Type} [DecidableEq κ]

/-- The entries, oldest first. -/
structure Table (key : α → κ) (σ : Type) where
  entries : List (α × σ)
  nodup : (entries.map fun e => key e.1).Nodup

/-- The registry answers names of `as` that have different keys by different symbols. -/
def Distinguishes (key : α → κ) (fresh : List α → α → σ) (as : List α) : Prop :=
  ∀ asked later, ∀ a ∈ as, ∀ b ∈ as, asked ++ [a] <+: later → key a ≠ key b →
    fresh asked a ≠ fresh later b

namespace Table

variable {key : α → κ} {fresh : List α → α → σ} {t : Table key σ} {a : α} {as : List α} {k : κ}
  {x : σ}

/-- No entries. -/
def empty : Table key σ where
  entries := []
  nodup := List.nodup_nil

/-- The names that were added. -/
def names (t : Table key σ) : List α := t.entries.map Prod.fst

/-- The value that is stored for a key. -/
def lookup (t : Table key σ) (k : κ) : Option σ :=
  (t.entries.find? fun e => key e.1 = k).map Prod.snd

/-- A key is missing if no entry has it. -/
theorem lookup_eq_none_iff : t.lookup k = none ↔ ∀ e ∈ t.entries, key e.1 ≠ k := by
  simp only [lookup, Option.map_eq_none_iff, List.find?_eq_none, decide_eq_true_eq, ne_eq]

/-- A value is found if an entry has its key. -/
theorem lookup_eq_some_iff : t.lookup k = some x ↔ ∃ a, (a, x) ∈ t.entries ∧ key a = k := by
  constructor
  · intro h
    obtain ⟨e, hfind, rfl⟩ := Option.map_eq_some_iff.mp h
    have hkey : key e.1 = k := by simpa using List.find?_some hfind
    exact ⟨e.1, List.mem_of_find?_eq_some hfind, hkey⟩
  · rintro ⟨a, hmem, rfl⟩
    obtain ⟨y, hy⟩ : ∃ y, t.lookup (key a) = some y := by
      apply Option.ne_none_iff_exists'.mp
      intro hnone
      exact lookup_eq_none_iff.mp hnone (a, x) hmem rfl
    obtain ⟨e, hfind, rfl⟩ := Option.map_eq_some_iff.mp hy
    -- The entry that is found has the same key, so it is the same entry.
    have hkey : key e.1 = key a := by simpa using List.find?_some hfind
    have heq := List.inj_on_of_nodup_map t.nodup (List.mem_of_find?_eq_some hfind) hmem hkey
    rw [hy, heq]

/-- Add a name. -/
def add (t : Table key σ) (a : α) (x : σ) (h : t.lookup (key a) = none) : Table key σ where
  entries := t.entries ++ [(a, x)]
  nodup := by
    rw [List.map_append, List.map_singleton, ← List.concat_eq_append, List.nodup_concat]
    refine ⟨?_, t.nodup⟩
    rw [List.mem_map]
    rintro ⟨e, hmem, hkey⟩
    exact lookup_eq_none_iff.mp h e hmem hkey

/-- A new entry comes last. -/
theorem names_add (h : t.lookup (key a) = none) : (t.add a x h).names = t.names ++ [a] := by
  rw [names, add, List.map_append, List.map_singleton, names]

/-- Look a name up, or add it. -/
def intern (fresh : List α → α → σ) (t : Table key σ) (a : α) : Table key σ × σ :=
  match h : t.lookup (key a) with
  | some x => (t, x)
  | none => (t.add a (fresh t.names a) h, fresh t.names a)

/-- The table after the names `as`. -/
def after (fresh : List α → α → σ) (as : List α) : Table key σ :=
  as.foldl (fun t a => (t.intern fresh a).1) empty

/-- A name with a known key changes nothing. -/
theorem intern_of_some (h : t.lookup (key a) = some x) : t.intern fresh a = (t, x) := by
  unfold intern
  split
  · rename_i y hy
    rw [Option.some.inj (h.symm.trans hy)]
  · rename_i hnone
    rw [h] at hnone
    cases hnone

/-- A name with a new key gets a fresh value. -/
theorem intern_of_none (h : t.lookup (key a) = none) :
    t.intern fresh a = (t.add a (fresh t.names a) h, fresh t.names a) := by
  unfold intern
  split
  · rename_i y hy
    rw [h] at hy
    cases hy
  · rfl

/-- One name more. -/
theorem after_concat (as : List α) (a : α) :
    (after fresh (as ++ [a]) : Table key σ) = ((after fresh as).intern fresh a).1 := by
  rw [after, List.foldl_concat]
  rfl

/-- The table only grows. -/
theorem entries_intern (fresh : List α → α → σ) (t : Table key σ) (a : α) :
    t.entries <+: (t.intern fresh a).1.entries := by
  cases h : t.lookup (key a) with
  | some x =>
    have hsame : (t.intern fresh a).1.entries = t.entries := by rw [intern_of_some h]
    exact hsame ▸ List.prefix_refl t.entries
  | none =>
    rw [intern_of_none h]
    exact List.prefix_append _ _

/-- What is known stays known. -/
theorem lookup_intern_of_some (fresh : List α → α → σ) (a : α) (h : t.lookup k = some x) :
    (t.intern fresh a).1.lookup k = some x := by
  obtain ⟨b, hmem, hkey⟩ := lookup_eq_some_iff.mp h
  exact lookup_eq_some_iff.mpr ⟨b, (entries_intern fresh t a).subset hmem, hkey⟩

/-- What is interned is known. -/
theorem lookup_intern_self (fresh : List α → α → σ) (t : Table key σ) (a : α) :
    (t.intern fresh a).1.lookup (key a) = some (t.intern fresh a).2 := by
  cases h : t.lookup (key a) with
  | some x =>
    rw [intern_of_some h]
    exact h
  | none =>
    rw [intern_of_none h]
    exact lookup_eq_some_iff.mpr ⟨a, List.mem_append_right _ (List.mem_singleton_self _), rfl⟩

/-! ### The entries after a sequence of names -/

/-- The table has no names but those interned. -/
theorem mem_names_after {b : α} (h : b ∈ (after fresh as : Table key σ).names) : b ∈ as := by
  induction as using List.reverseRecOn with
  | nil => cases h
  | append_singleton as a ih =>
    rw [after_concat] at h
    cases hlookup : (after fresh as : Table key σ).lookup (key a) with
    | some x =>
      rw [intern_of_some hlookup] at h
      exact List.mem_append_left _ (ih h)
    | none =>
      rw [intern_of_none hlookup, names_add, List.mem_append] at h
      rcases h with hold | hnew
      · exact List.mem_append_left _ (ih hold)
      · exact List.mem_append_right _ hnew

/-- Every name is found. -/
theorem lookup_after_isSome (h : a ∈ as) :
    ∃ x, (after fresh as : Table key σ).lookup (key a) = some x := by
  induction as using List.reverseRecOn with
  | nil => cases h
  | append_singleton as b ih =>
    rw [after_concat]
    rcases List.mem_append.mp h with hold | hnew
    · obtain ⟨x, hx⟩ := ih hold
      exact ⟨x, lookup_intern_of_some fresh b hx⟩
    · rw [List.mem_singleton.mp hnew]
      exact ⟨_, lookup_intern_self fresh _ b⟩

/-- **One entry for each key.** -/
theorem length_after (fresh : List α → α → σ) (as : List α) :
    (after fresh as : Table key σ).entries.length = (as.map key).dedup.length := by
  have hperm : ((after fresh as : Table key σ).entries.map fun e => key e.1).Perm
      (as.map key).dedup := by
    rw [List.perm_ext_iff_of_nodup (after fresh as).nodup (List.nodup_dedup _)]
    intro k
    rw [List.mem_dedup, List.mem_map, List.mem_map]
    constructor
    · rintro ⟨e, hmem, rfl⟩
      exact ⟨e.1, mem_names_after (List.mem_map_of_mem hmem), rfl⟩
    · rintro ⟨a, hmem, rfl⟩
      obtain ⟨x, hx⟩ : ∃ x, (after fresh as : Table key σ).lookup (key a) = some x :=
        lookup_after_isSome hmem
      obtain ⟨b, hb, hkey⟩ := lookup_eq_some_iff.mp hx
      exact ⟨(b, x), hb, hkey⟩
  rw [← hperm.length_eq, List.length_map]

/-- Each key was asked for once. -/
theorem countP_names_after (h : a ∈ as) :
    (after fresh as : Table key σ).names.countP (fun b => key b = key a) = 1 := by
  have hkeys : (after fresh as : Table key σ).names.map key =
      (after fresh as : Table key σ).entries.map fun e => key e.1 := List.map_map
  have hmem : key a ∈ (after fresh as : Table key σ).names.map key := by
    obtain ⟨x, hx⟩ : ∃ x, (after fresh as : Table key σ).lookup (key a) = some x :=
      lookup_after_isSome h
    obtain ⟨b, hb, hkey⟩ := lookup_eq_some_iff.mp hx
    rw [hkeys, ← hkey]
    exact List.mem_map_of_mem (f := fun e : α × σ => key e.1) hb
  have hcount := List.count_eq_one_of_mem (hkeys ▸ (after fresh as).nodup) hmem
  rw [List.count, List.countP_map] at hcount
  simpa only [Function.comp_def, beq_eq_decide] using hcount

/-! ### Symbols -/

/-- Every symbol was made up when its name was asked for. -/
theorem exists_asked (h : (a, x) ∈ (after fresh as : Table key σ).entries) :
    ∃ asked, asked ++ [a] <+: (after fresh as : Table key σ).names ∧ x = fresh asked a := by
  induction as using List.reverseRecOn with
  | nil => cases h
  | append_singleton as b ih =>
    rw [after_concat] at h ⊢
    cases hlookup : (after fresh as : Table key σ).lookup (key b) with
    | some y =>
      rw [intern_of_some hlookup] at h ⊢
      exact ih h
    | none =>
      rw [intern_of_none hlookup] at h ⊢
      rw [names_add]
      rcases List.mem_append.mp h with hold | hnew
      · obtain ⟨asked, hasked, hx⟩ := ih hold
        exact ⟨asked, hasked.trans (List.prefix_append _ _), hx⟩
      · obtain ⟨rfl, rfl⟩ := Prod.mk.inj (List.mem_singleton.mp hnew)
        exact ⟨_, List.prefix_refl _, rfl⟩

/-- Fresh values that are equal were made for one key. -/
theorem key_eq_of_fresh_eq {b : α} {asked later : List α} (hfresh : Distinguishes key fresh as)
    (ha : a ∈ as) (hb : b ∈ as) (hle : asked ++ [a] <+: later ++ [b])
    (heq : fresh asked a = fresh later b) : key a = key b := by
  rcases List.prefix_concat_iff.mp hle with hsame | hlt
  · obtain ⟨-, hlast⟩ := List.append_inj' hsame rfl
    exact congrArg key (List.singleton_inj.mp hlast)
  · by_contra hne
    exact hfresh asked later a ha b hb hlt hne heq

/-- **Different keys have different symbols.** -/
theorem lookup_after_inj {k' : κ} (hfresh : Distinguishes key fresh as)
    (h : (after fresh as : Table key σ).lookup k = some x)
    (h' : (after fresh as : Table key σ).lookup k' = some x) : k = k' := by
  obtain ⟨a, ha, rfl⟩ := lookup_eq_some_iff.mp h
  obtain ⟨b, hb, rfl⟩ := lookup_eq_some_iff.mp h'
  obtain ⟨asked, hasked, hx⟩ := exists_asked ha
  obtain ⟨asked', hasked', hx'⟩ := exists_asked hb
  have hmem : a ∈ as := mem_names_after (hasked.subset (List.mem_append_right _ (by simp)))
  have hmem' : b ∈ as := mem_names_after (hasked'.subset (List.mem_append_right _ (by simp)))
  -- One of the two was asked for before the other.
  rcases List.prefix_or_prefix_of_prefix hasked hasked' with hle | hle
  · exact key_eq_of_fresh_eq hfresh hmem hmem' hle (hx.symm.trans hx')
  · exact (key_eq_of_fresh_eq hfresh hmem' hmem hle (hx'.symm.trans hx)).symm

end Table

end InternTable
