import Mathlib.Data.Int.Notation
import Wallbot.Lib.InternTable
import Wallbot.Lib.Machine

namespace Wallbot.Freertos

open InternTable

/-!
# The task names — `task_name_sym` of `stats.c`

The statistics task registers the name of every task it meets with the trace recorder and keeps
the symbols in an array of `MAX_TASKS` entries, in which one loop looks a name up and a second one
adds it.

* `strncmp_eq_zero_iff` — `strncmp` looks at the first characters of its strings only.
* `TaskNames`, `taskNameSym` — the array and the function.
* `Represents` — the array holds an intern table in its first entries, and `Represents.taskNameSym`
  says that a call looks its name up in that table.
* `task_names_table` — the array and the symbols after every call of a sequence.

The recorder is not part of the repository.  `xTraceRegisterString` stands for it: the symbol it
answers with, which may depend on the names it has registered before.
-/

/-! ### Strings -/

/-- A terminated string, without its terminator. -/
structure CString where
  bytes : List UInt8
  noNul : ∀ b ∈ bytes, b ≠ 0
  deriving DecidableEq

/-- `strncmp`, where a string that has ended is at its terminator. -/
def strncmp : List UInt8 → List UInt8 → ℕ → ℤ
  | _, _, 0 => 0
  | [], [], _ + 1 => 0
  | [], b :: _, _ + 1 => 0 - (b.toNat : ℤ)
  | a :: _, [], _ + 1 => (a.toNat : ℤ) - 0
  | a :: as, b :: bs, n + 1 => if a = b then strncmp as bs n else (a.toNat : ℤ) - b.toNat

/-- Strings without NUL bytes compare equal if their first `n` bytes are the same. -/
theorem strncmp_eq_zero_iff {as bs : List UInt8} {n : ℕ} (ha : ∀ b ∈ as, b ≠ 0)
    (hb : ∀ b ∈ bs, b ≠ 0) : strncmp as bs n = 0 ↔ as.take n = bs.take n := by
  have hpos (b : UInt8) (hne : b ≠ 0) : b.toNat ≠ 0 := fun h => hne (UInt8.toNat_inj.mp h)
  fun_induction strncmp as bs n with
  | case1 as bs => simp
  | case2 n => simp
  | case3 b bs n =>
    have hne := hpos b (hb b (List.mem_cons_self ..))
    simp
    omega
  | case4 a as n =>
    have hne := hpos a (ha a (List.mem_cons_self ..))
    simp
    omega
  | case5 as b bs n ih =>
    have hrest := ih (List.forall_mem_cons.mp ha).2 (List.forall_mem_cons.mp hb).2
    simpa using hrest
  | case6 a as b bs n hne =>
    have hnat : a.toNat ≠ b.toNat := fun h => hne (UInt8.toNat_inj.mp h)
    simp [hne]
    omega

/-! ### The array -/

/-- `traceString`; 0 is none. -/
abbrev TraceString := UInt32

/-- `MAX_TASKS` -/
def maxTasks : ℕ := 12

/-- `configMAX_TASK_NAME_LEN` -/
def configMaxTaskNameLen : ℕ := 16

/-- The characters of a task name that are compared. -/
def CString.key (name : CString) : List UInt8 := name.bytes.take configMaxTaskNameLen

/-- Two names compare equal if their keys are the same. -/
theorem strncmp_names (name name' : CString) :
    strncmp name.bytes name'.bytes configMaxTaskNameLen = 0 ↔ name.key = name'.key :=
  strncmp_eq_zero_iff name.noNul name'.noNul

/-- `task_name_s` -/
structure TaskName where
  sym : TraceString
  name : Option CString
  deriving DecidableEq

/-- An entry as it is initialised. -/
def TaskName.free : TaskName where
  sym := 0
  name := none

/-- `g_task_names`, and the names that were passed to `xTraceRegisterString`. -/
structure TaskNames where
  gTaskNames : List TaskName
  size : gTaskNames.length = maxTasks
  registered : List CString

namespace TaskNames

/-- The array before the first name. -/
def start : TaskNames where
  gTaskNames := List.replicate maxTasks .free
  size := List.length_replicate
  registered := []

end TaskNames

section

variable (xTraceRegisterString : List CString → CString → TraceString)

/-- The first loop: the symbol of `name`, or 0; `none` where `strncmp` gets a null pointer. -/
def lookupSym (name : CString) : List TaskName → Option TraceString
  | [] => some 0
  | entry :: entries =>
    if entry.sym ≠ 0 then
      match entry.name with
      | none => none
      | some stored =>
        if strncmp stored.bytes name.bytes configMaxTaskNameLen = 0 then some entry.sym
        else lookupSym name entries
    else lookupSym name entries

/-- The second loop: the first free entry takes the name; `none` where its assert fails. -/
def addName (s : TaskNames) (name : CString) : Option (TaskNames × TraceString) :=
  match s.gTaskNames.findIdx? fun entry => entry.sym = 0 with
  | none => some (s, 0)
  | some i =>
    -- configASSERT(g_task_names[i].name == NULL)
    if (s.gTaskNames.getD i .free).name = none then
      let sym := xTraceRegisterString s.registered name
      some
        ({ gTaskNames := s.gTaskNames.set i { sym := sym, name := some name }
           size := by rw [List.length_set, s.size]
           registered := s.registered ++ [name] }, sym)
    else none

/-- `task_name_sym`; `none` where an assert fails. -/
def taskNameSym (s : TaskNames) (name : CString) : Option (TaskNames × TraceString) := do
  let sym ← lookupSym name s.gTaskNames
  let (s, sym) ← if sym = 0 then addName xTraceRegisterString s name else some (s, sym)
  -- configASSERT(sym != 0)
  if sym ≠ 0 then some (s, sym) else none

/-- Sequences of calls, with the symbols that were returned. -/
def taskNameSyms : Machine (TaskNames × List (CString × TraceString)) CString where
  init := (.start, [])
  step s name :=
    (taskNameSym xTraceRegisterString s.1 name).map fun r =>
      (r.1, s.2 ++ [(name, r.2)])

end

/-! ### The table in the array -/

/-- The entry of a name that was added. -/
def usedEntry (e : CString × TraceString) : TaskName where
  sym := e.2
  name := some e.1

variable {register : List CString → CString → TraceString} {s : TaskNames}
  {t : Table CString.key TraceString} {name : CString} {names : List CString}

/-- The entries of `t` come first, and all others are free. -/
structure Represents (s : TaskNames) (t : Table CString.key TraceString) : Prop where
  entries : s.gTaskNames =
    t.entries.map usedEntry ++ List.replicate (maxTasks - t.entries.length) .free
  registered : s.registered = t.names
  sym_ne_zero : ∀ e ∈ t.entries, e.2 ≠ 0

/-- It is the empty table. -/
theorem represents_start : Represents .start (.empty : Table CString.key TraceString) where
  entries := rfl
  registered := rfl
  sym_ne_zero := nofun

/-- The entries in use have different names. -/
theorem Represents.occupied (h : Represents s t) :
    ∃ used, s.gTaskNames = used ++ List.replicate (maxTasks - used.length) ⟨0, none⟩ ∧
      (∀ e ∈ used, e.sym ≠ 0 ∧ e.name ≠ none) ∧
      (used.map fun e => e.name.map CString.key).Nodup := by
  refine ⟨t.entries.map usedEntry, ?_, ?_, ?_⟩
  · rw [List.length_map]
    exact h.entries
  · rw [List.forall_mem_map]
    exact fun e he => ⟨h.sym_ne_zero e he, Option.some_ne_none _⟩
  · have hsome := t.nodup.map fun _ _ => Option.some.inj
    rw [List.map_map] at hsome ⊢
    exact hsome

/-- The first loop passes over free entries. -/
theorem lookupSym_replicate (name : CString) (m : ℕ) :
    lookupSym name (List.replicate m .free) = some 0 := by
  induction m with
  | zero => rfl
  | succ m ih => exact ih

/-- It compares the name with that of an entry in use. -/
theorem lookupSym_usedEntry (name : CString) {e : CString × TraceString} (he : e.2 ≠ 0)
    (entries : List TaskName) :
    lookupSym name (usedEntry e :: entries) =
      if e.1.key = name.key then some e.2 else lookupSym name entries := by
  have hsym : (usedEntry e).sym ≠ 0 := he
  rw [lookupSym, if_pos hsym]
  exact if_congr (strncmp_names e.1 name) rfl rfl

/-- **The first loop** looks the name up in the table. -/
theorem Represents.lookupSym (h : Represents s t) (name : CString) :
    lookupSym name s.gTaskNames = some ((t.lookup name.key).getD 0) := by
  rw [h.entries, Table.lookup]
  have hne := h.sym_ne_zero
  generalize t.entries = es at hne ⊢
  generalize maxTasks - _ = m
  induction es with
  | nil => exact lookupSym_replicate name m
  | cons e es ih =>
    obtain ⟨hsym, hrest⟩ := List.forall_mem_cons.mp hne
    rw [List.map_cons, List.cons_append, lookupSym_usedEntry name hsym]
    by_cases hkey : e.1.key = name.key
    · rw [if_pos hkey, List.find?_cons_of_pos (by simpa using hkey)]
      rfl
    · rw [if_neg hkey, List.find?_cons_of_neg (by simpa using hkey)]
      exact ih hrest

/-- **The second loop** adds the name behind the table. -/
theorem Represents.addName (h : Represents s t) (hnew : t.lookup name.key = none)
    (hroom : t.entries.length < maxTasks) (hsym : register t.names name ≠ 0) :
    ∃ s', addName register s name = some (s', register t.names name) ∧
      Represents s' (t.add name (register t.names name) hnew) := by
  -- The first free entry stands behind the entries of the table.
  obtain ⟨m, hm⟩ : ∃ m, maxTasks - t.entries.length = m + 1 :=
    Nat.exists_eq_add_of_lt (Nat.sub_pos_of_lt hroom) |>.imp fun m hm => by omega
  have hentries : s.gTaskNames = t.entries.map usedEntry ++ .free :: List.replicate m .free := by
    rw [h.entries, hm, List.replicate_succ]
  have hlen : (t.entries.map usedEntry).length = t.entries.length := List.length_map _
  have hfind : s.gTaskNames.findIdx? (fun entry => entry.sym = 0) = some t.entries.length := by
    have hused : (t.entries.map usedEntry).findIdx? (fun entry => entry.sym = 0) = none := by
      rw [List.findIdx?_eq_none_iff, List.forall_mem_map]
      exact fun e he => decide_eq_false (h.sym_ne_zero e he)
    rw [hentries, List.findIdx?_append, hused, hlen, List.findIdx?_cons]
    simp [TaskName.free]
  have hfree : s.gTaskNames.getD t.entries.length .free = .free := by
    rw [hentries, List.getD_eq_getElem?_getD, List.getElem?_append_right (Nat.le_of_eq hlen), hlen,
      Nat.sub_self]
    rfl
  have hset : s.gTaskNames.set t.entries.length ⟨register t.names name, some name⟩ =
      (t.add name (register t.names name) hnew).entries.map usedEntry ++
        List.replicate m .free := by
    rw [hentries, ← hlen, List.set_append_right _ _ (Nat.le_refl _), Nat.sub_self,
      List.set_cons_zero, Table.add, List.map_append, List.append_assoc]
    rfl
  have hrest : maxTasks - (t.add name (register t.names name) hnew).entries.length = m := by
    rw [Table.add, List.length_append, List.length_singleton]
    omega
  refine ⟨⟨s.gTaskNames.set t.entries.length ⟨register t.names name, some name⟩,
    by rw [List.length_set, s.size], s.registered ++ [name]⟩, ?_, ?_, ?_, ?_⟩
  · have hnull : (s.gTaskNames.getD t.entries.length .free).name = none := by rw [hfree]; rfl
    simp only [Freertos.addName, hfind, if_pos hnull, h.registered]
  · rw [hrest]
    exact hset
  · rw [Table.names_add, ← h.registered]
  · rw [Table.add, List.forall_mem_append, List.forall_mem_singleton]
    exact ⟨h.sym_ne_zero, hsym⟩

/-- **A call** looks its name up in the table, and adds it there if there is room. -/
theorem Represents.taskNameSym (h : Represents s t)
    (hroom : t.lookup name.key = none → t.entries.length < maxTasks)
    (hsym : register t.names name ≠ 0) :
    ∃ s', taskNameSym register s name = some (s', (t.intern register name).2) ∧
      Represents s' (t.intern register name).1 := by
  have hlookup := h.lookupSym name
  cases hfound : t.lookup name.key with
  | some sym =>
    obtain ⟨stored, hmem, -⟩ := Table.lookup_eq_some_iff.mp hfound
    have hne : sym ≠ 0 := h.sym_ne_zero _ hmem
    rw [Table.intern_of_some hfound]
    rw [hfound, Option.getD_some] at hlookup
    refine ⟨s, ?_, h⟩
    simp [Freertos.taskNameSym, hlookup, hne]
  | none =>
    obtain ⟨s', hadd, hrep⟩ := h.addName hfound (hroom hfound) hsym
    rw [Table.intern_of_none hfound]
    rw [hfound, Option.getD_none] at hlookup
    refine ⟨s', ?_, hrep⟩
    simp [Freertos.taskNameSym, hlookup, hadd, hsym]

/-! ### Sequences of calls -/

/-- What is relied on of the recorder while it is asked for names of `names`. -/
structure RecorderContract (register : List CString → CString → TraceString)
    (names : List CString) : Prop where
  ne_zero : ∀ registered, ∀ name ∈ names, register registered name ≠ 0
  distinguishes : Distinguishes CString.key register names

/-- The array, the names registered and the symbols returned, after the calls for `names`. -/
structure TableAfter (names : List CString)
    (s : TaskNames × List (CString × TraceString)) : Prop where
  calls : s.2.map Prod.fst = names
  /-- Equal names get the same symbol, and different names different ones. -/
  symbols : ∀ c ∈ s.2, ∀ c' ∈ s.2, c.2 = c'.2 ↔ c.1.key = c'.1.key
  /-- Each name is registered once, and nothing else is. -/
  registered_once : ∀ name ∈ names, s.1.registered.countP (fun r => r.key = name.key) = 1
  registered_mem : ∀ r ∈ s.1.registered, r ∈ names
  /-- The occupied entries form a prefix, with different names. -/
  occupied : ∃ used, s.1.gTaskNames = used ++ List.replicate (maxTasks - used.length) ⟨0, none⟩ ∧
    (∀ e ∈ used, e.sym ≠ 0 ∧ e.name ≠ none) ∧ (used.map fun e => e.name.map CString.key).Nodup

/-- The contract for some names holds for fewer of them. -/
theorem RecorderContract.mono {names' : List CString} (h : RecorderContract register names)
    (hsub : names' ⊆ names) : RecorderContract register names' where
  ne_zero := fun registered name hmem => h.ne_zero registered name (hsub hmem)
  distinguishes := fun asked later a ha b hb => h.distinguishes asked later a (hsub ha) b (hsub hb)

/-- Fewer names have fewer different keys. -/
theorem length_dedup_le {names' : List CString} (hsub : names' ⊆ names) :
    (names'.map CString.key).dedup.length ≤ (names.map CString.key).dedup.length := by
  have hdedup : (names'.map CString.key).dedup ⊆ (names.map CString.key).dedup := by
    intro k hk
    rw [List.mem_dedup] at hk ⊢
    exact List.map_subset _ hsub hk
  exact List.Nodup.length_le_of_subset (List.nodup_dedup _) hdedup

/-- **The run**: the array represents the table of the names, which holds the symbols returned. -/
theorem run_represents (hreg : RecorderContract register names)
    (hfew : (names.map CString.key).dedup.length ≤ maxTasks) :
    ∃ s, (taskNameSyms register).run names = some s ∧
      Represents s.1 (.after register names : Table CString.key TraceString) ∧
      s.2.map Prod.fst = names ∧
      ∀ c ∈ s.2, (.after register names : Table CString.key TraceString).lookup c.1.key =
        some c.2 := by
  induction names using List.reverseRecOn with
  | nil => exact ⟨_, rfl, represents_start, rfl, nofun⟩
  | append_singleton names name ih =>
    have hsub : names ⊆ names ++ [name] := List.subset_append_left _ _
    have hmem : name ∈ names ++ [name] := List.mem_append_right _ (List.mem_singleton_self _)
    obtain ⟨s, hs, hrep, hcalls, hsymbols⟩ :=
      ih (hreg.mono hsub) (Nat.le_trans (length_dedup_le hsub) hfew)
    rw [← Table.length_after register, Table.after_concat] at hfew
    rw [Table.after_concat]
    generalize (Table.after register names : Table CString.key TraceString) = t at *
    -- A name that is new is one entry more, and that many still fit.
    have hroom : t.lookup name.key = none → t.entries.length < maxTasks := by
      intro hnew
      rw [Table.intern_of_none hnew, Table.add, List.length_append, List.length_singleton] at hfew
      exact hfew
    obtain ⟨s', hcall, hrep'⟩ := hrep.taskNameSym hroom (hreg.ne_zero _ name hmem)
    refine ⟨(s', s.2 ++ [(name, (t.intern register name).2)]), ?_, hrep', ?_, ?_⟩
    · rw [Machine.run_concat hs]
      show (taskNameSym register s.1 name).map _ = _
      rw [hcall]
      rfl
    · rw [List.map_append, hcalls, List.map_singleton]
    · rw [List.forall_mem_append, List.forall_mem_singleton]
      refine ⟨fun c hc => ?_, Table.lookup_intern_self register t name⟩
      exact Table.lookup_intern_of_some register name (hsymbols c hc)

/-- **The table of task names.**  If the names of a sequence of calls differ in at most
    `MAX_TASKS` ways on the characters that are compared, no assert fails, and after every call
    the array and the symbols are as they should be. -/
theorem task_names_table (hreg : RecorderContract register names)
    (hfew : (names.map CString.key).dedup.length ≤ maxTasks) :
    ∀ calls, calls <+: names →
      ∃ s, (taskNameSyms register).run calls = some s ∧ TableAfter calls s := by
  intro calls hprefix
  have hreg' := hreg.mono hprefix.subset
  obtain ⟨s, hs, hrep, hcalls, hsymbols⟩ :=
    run_represents hreg' (Nat.le_trans (length_dedup_le hprefix.subset) hfew)
  refine ⟨s, hs, hcalls, ?_, ?_, ?_, ?_⟩
  · intro c hc c' hc'
    have hfound := hsymbols c hc
    have hfound' := hsymbols c' hc'
    constructor
    · intro heq
      rw [heq] at hfound
      exact Table.lookup_after_inj hreg'.distinguishes hfound hfound'
    · intro hkey
      rw [hkey] at hfound
      exact Option.some.inj (hfound.symm.trans hfound')
  · intro name hmem
    rw [hrep.registered]
    exact Table.countP_names_after hmem
  · intro r hr
    rw [hrep.registered] at hr
    exact Table.mem_names_after hr
  · exact hrep.occupied

/-- `"IDLE"` -/
def idleName : CString where
  bytes := [73, 68, 76, 69]
  noNul := by simp

/-- `"Tmr Svc"` -/
def timerName : CString where
  bytes := [84, 109, 114, 32, 83, 118, 99]
  noNul := by simp

/-- A recorder that knows two tasks. -/
def twoTasks (_ : List CString) (name : CString) : TraceString :=
  if name = idleName then 1 else 2

/-- The recorder of the witness meets it. -/
theorem recorderContract_twoTasks :
    RecorderContract twoTasks [idleName, timerName, idleName, timerName] where
  ne_zero := by
    intro registered name _
    unfold twoTasks
    split <;> decide
  distinguishes := by
    have hnames (name : CString) (hmem : name ∈ [idleName, timerName, idleName, timerName]) :
        name = idleName ∨ name = timerName := by
      simp only [List.mem_cons, List.not_mem_nil] at hmem
      tauto
    have hne : timerName ≠ idleName := by decide
    intro asked later a ha b hb _ hkey
    rcases hnames a ha with rfl | rfl <;> rcases hnames b hb with rfl | rfl
    · exact absurd rfl hkey
    · simp [twoTasks, hne]
    · simp [twoTasks, hne]
    · exact absurd rfl hkey

/-- Two tasks that are met again. -/
theorem task_names_table_twoTasks :
    ∃ s, (taskNameSyms twoTasks).run [idleName, timerName, idleName, timerName] = some s ∧
      TableAfter [idleName, timerName, idleName, timerName] s :=
  task_names_table recorderContract_twoTasks (by decide) _ (List.prefix_refl _)

end Wallbot.Freertos
