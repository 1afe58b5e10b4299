import Mathlib.Data.List.Forall2
import Wallbot.TaskNames

namespace Wallbot.Freertos

open InternTable

/-!
# The task statistics — `stats.c`

Every second the statistics task asks the kernel for all tasks, and logs an event for each of
them: the symbol of its name, the size of its stack and the counters of the kernel.  An assert
that fails stops the firmware for good, and three of them stand between a task and its event: on
the number of tasks, on the symbol, and on the size, which is only known for the names of
`app_config.h`.

* `taskStackSize_eq` — the chain of comparisons of `task_stack_size` looks a name up in a table.
* `statsTask` — the task, a step for each period; `statsLog` for the loop in it.
* `Traced` — the trace tells the tasks apart, and has the size of the stack of each.
* `task_statistics` — exactly when no assert fails, and then the trace is as it should be.

The percentage under `PRINT_STATS`, which is not defined, is left out.
-/

/-! ### The tasks of `app_config.h` -/

/-- `configMINIMAL_STACK_SIZE` -/
def configMinimalStackSize : UInt32 := 256

/-- `STATS_NAME`, `"Stats"` -/
def statsName : CString := ⟨[83, 116, 97, 116, 115], by simp⟩

/-- `STATS_STACK_SIZE` -/
def statsStackSize : UInt32 := 2 * configMinimalStackSize

/-- `SENSOR_NAME`, `"Sensor"` -/
def sensorName : CString := ⟨[83, 101, 110, 115, 111, 114], by simp⟩

/-- `SENSOR_STACK_SIZE` -/
def sensorStackSize : UInt32 := configMinimalStackSize

/-- `COMMS_NAME`, `"Comms"` -/
def commsName : CString := ⟨[67, 111, 109, 109, 115], by simp⟩

/-- `COMMS_STACK_SIZE` -/
def commsStackSize : UInt32 := configMinimalStackSize

/-- `IDLE_STACK_SIZE` -/
def idleStackSize : UInt32 := configMinimalStackSize

/-- `configTIMER_TASK_STACK_DEPTH` -/
def timerStackSize : UInt32 := configMinimalStackSize * 2

/-- `TZCTRL_NAME`, `"TzCtrl"` -/
def tzCtrlName : CString := ⟨[84, 122, 67, 116, 114, 108], by simp⟩

/-- `TRC_CFG_CTRL_TASK_STACK_SIZE` -/
def tzCtrlStackSize : UInt32 := 1024

/-- `IP_NAME`, `"IP-task"` -/
def ipName : CString := ⟨[73, 80, 45, 116, 97, 115, 107], by simp⟩

/-- `ipconfigIP_TASK_STACK_SIZE_WORDS` -/
def ipStackSize : UInt32 := configMinimalStackSize * 5

/-- `EMAC_NAME`, `"EMAC"` -/
def emacName : CString := ⟨[69, 77, 65, 67], by simp⟩

/-- `nwRX_TASK_STACK_SIZE` -/
def emacStackSize : UInt32 := configMinimalStackSize * 2

/-- `VOLTAGE_MONITOR_NAME`, `"VoltageMonitor"` -/
def voltageMonitorName : CString :=
  ⟨[86, 111, 108, 116, 97, 103, 101, 77, 111, 110, 105, 116, 111, 114], by simp⟩

/-- `VOLTAGE_MONITOR_STACK_SIZE` -/
def voltageMonitorStackSize : UInt32 := configMinimalStackSize

/-- `task_stack_size`; `none` where its assert fails. -/
def taskStackSize (name : CString) : Option UInt32 :=
  let stackSize : UInt32 :=
    if strncmp name.bytes statsName.bytes configMaxTaskNameLen = 0 then statsStackSize
    else if strncmp name.bytes sensorName.bytes configMaxTaskNameLen = 0 then sensorStackSize
    else if strncmp name.bytes commsName.bytes configMaxTaskNameLen = 0 then commsStackSize
    else if strncmp name.bytes idleName.bytes configMaxTaskNameLen = 0 then idleStackSize
    else if strncmp name.bytes timerName.bytes configMaxTaskNameLen = 0 then timerStackSize
    else if strncmp name.bytes tzCtrlName.bytes configMaxTaskNameLen = 0 then tzCtrlStackSize
    else if strncmp name.bytes ipName.bytes configMaxTaskNameLen = 0 then ipStackSize
    else if strncmp name.bytes emacName.bytes configMaxTaskNameLen = 0 then emacStackSize
    else if strncmp name.bytes voltageMonitorName.bytes configMaxTaskNameLen = 0 then
      voltageMonitorStackSize
    else 0
  -- configASSERT(stack_size != 0)
  if stackSize ≠ 0 then some stackSize else none

/-- The tasks in the order of the comparisons. -/
def taskStacks : List (CString × UInt32) :=
  [(statsName, statsStackSize), (sensorName, sensorStackSize), (commsName, commsStackSize),
    (idleName, idleStackSize), (timerName, timerStackSize), (tzCtrlName, tzCtrlStackSize),
    (ipName, ipStackSize), (emacName, emacStackSize),
    (voltageMonitorName, voltageMonitorStackSize)]

/-- A name that `task_stack_size` knows. -/
def KnownTask (name : CString) : Prop :=
  ∃ e ∈ taskStacks, e.1.key = name.key

instance (name : CString) : Decidable (KnownTask name) :=
  inferInstanceAs (Decidable (∃ e ∈ taskStacks, e.1.key = name.key))

/-- A chain of comparisons. -/
def stackSizeIn (name : CString) : List (CString × UInt32) → UInt32
  | [] => 0
  | e :: es =>
    if strncmp name.bytes e.1.bytes configMaxTaskNameLen = 0 then e.2 else stackSizeIn name es

/-- The chain finds the first entry whose compared characters are those of the name. -/
theorem stackSizeIn_eq (name : CString) (es : List (CString × UInt32)) :
    stackSizeIn name es = ((es.find? fun e => e.1.key = name.key).map Prod.snd).getD 0 := by
  induction es with
  | nil => rfl
  | cons e es ih =>
    rw [stackSizeIn, List.find?_cons, ih]
    by_cases hkey : e.1.key = name.key
    · rw [if_pos ((strncmp_names _ _).mpr hkey.symm)]
      simp [hkey]
    · have hne : ¬ strncmp name.bytes e.1.bytes configMaxTaskNameLen = 0 :=
        fun h => hkey ((strncmp_names _ _).mp h).symm
      rw [if_neg hne]
      simp [hkey]

/-- No size is 0, so the assert fails for the names that are not in the table. -/
theorem taskStackSize_eq (name : CString) :
    taskStackSize name = (taskStacks.find? fun e => e.1.key = name.key).map Prod.snd := by
  have hchain : taskStackSize name =
      if stackSizeIn name taskStacks ≠ 0 then some (stackSizeIn name taskStacks) else none := rfl
  rw [hchain, stackSizeIn_eq]
  cases hfind : taskStacks.find? fun e => e.1.key = name.key with
  | none => rfl
  | some e =>
    have hsizes : ∀ e ∈ taskStacks, e.2 ≠ 0 := by simp [taskStacks]; decide
    have hne : e.2 ≠ 0 := hsizes e (List.mem_of_find?_eq_some hfind)
    simp [hne]

/-- The assert holds for the tasks in the table, and for no others. -/
theorem taskStackSize_ne_none_iff {name : CString} :
    taskStackSize name ≠ none ↔ KnownTask name := by
  rw [taskStackSize_eq, ne_eq, Option.map_eq_none_iff, List.find?_eq_none, KnownTask]
  simp

/-- The size depends on the characters that are compared only. -/
theorem taskStackSize_congr {name name' : CString} (h : name.key = name'.key) :
    taskStackSize name = taskStackSize name' := by
  rw [taskStackSize_eq, taskStackSize_eq, h]

/-- A size that is traced can be divided by. -/
theorem taskStackSize_ne_zero {name : CString} {size : UInt32}
    (h : taskStackSize name = some size) : size ≠ 0 := by
  obtain ⟨hne, hsize⟩ := Option.ite_none_right_eq_some.mp h
  exact Option.some.inj hsize ▸ hne

/-- There are no more names of known tasks than entries of the table. -/
theorem length_dedup_le_of_known {names : List CString} (h : ∀ name ∈ names, KnownTask name) :
    (names.map CString.key).dedup.length ≤ taskStacks.length := by
  have hsub : (names.map CString.key).dedup ⊆ taskStacks.map fun e => e.1.key := by
    intro k hk
    rw [List.mem_dedup, List.mem_map] at hk
    obtain ⟨name, hmem, rfl⟩ := hk
    obtain ⟨e, he, hkey⟩ := h name hmem
    exact List.mem_map.mpr ⟨e, he, hkey⟩
  have hle := (List.nodup_dedup _).length_le_of_subset hsub
  rwa [List.length_map] at hle

/-! ### The task -/

/-- `TaskStatus_t`, as far as it is logged. -/
structure TaskStatus where
  pcTaskName : CString
  usStackHighWaterMark : UInt16
  ulRunTimeCounter : UInt32
  deriving DecidableEq

/-- The arguments of `log_task_stats`. -/
structure Report where
  status : TaskStatus
  totalRuntime : UInt32
  deriving DecidableEq

/-- The name that the report is about. -/
def Report.name (r : Report) : CString := r.status.pcTaskName

/-- The arguments of the `vTracePrintF` of `log_task_stats`. -/
structure StatsEvent where
  chn : TraceString
  sym : TraceString
  stackSize : UInt32
  stackHighWaterMark : UInt16
  runTimeCounter : UInt32
  totalRuntime : UInt32
  deriving DecidableEq

/-- What the kernel answers in one period: the number of tasks, then as many entries as fit the
    array that is passed to it, and the run time. -/
structure Sample where
  numTasks : UInt32
  taskStats : List TaskStatus
  totalRuntime : UInt32
  fits : taskStats.length ≤ numTasks.toNat

/-- `g_stats_chn`, `g_task_names`, and the events in the trace. -/
structure Stats where
  gStatsChn : TraceString
  names : TaskNames
  trace : List StatsEvent

/-- `"stats"`, the name of the channel. -/
def statsChannel : CString := ⟨[115, 116, 97, 116, 115], by simp⟩

section

variable (xTraceRegisterString : List CString → CString → TraceString)

/-- The recorder once the channel is registered. -/
def afterChannel (registered : List CString) (name : CString) : TraceString :=
  xTraceRegisterString (statsChannel :: registered) name

/-- `log_task_stats`; `none` where an assert fails. -/
def logTaskStats (s : Stats) (r : Report) : Option Stats := do
  let (names, sym) ← taskNameSym (afterChannel xTraceRegisterString) s.names r.status.pcTaskName
  let stackSize ← taskStackSize r.status.pcTaskName
  some
    { s with
      names := names
      trace := s.trace ++
        [{ chn := s.gStatsChn
           sym := sym
           stackSize := stackSize
           stackHighWaterMark := r.status.usStackHighWaterMark
           runTimeCounter := r.status.ulRunTimeCounter
           totalRuntime := r.totalRuntime }] }

/-- One pass of the loop of `stats_task`. -/
def statsPass (s : Stats) (p : Sample) : Option Stats :=
  -- configASSERT(num_tasks <= MAX_TASKS)
  if p.numTasks.toNat ≤ maxTasks then
    if p.totalRuntime / 100 ≠ 0 then
      p.taskStats.foldlM
        (fun s status => logTaskStats xTraceRegisterString s ⟨status, p.totalRuntime⟩) s
    else some s
  else none

/-- The task when it enters its loop. -/
def statsStart : Stats where
  gStatsChn := xTraceRegisterString [] statsChannel
  names := .start
  trace := []

/-- `stats_task`, a step for each period. -/
def statsTask : Machine Stats Sample where
  init := statsStart xTraceRegisterString
  step := statsPass xTraceRegisterString

/-- The calls of `log_task_stats`. -/
def statsLog : Machine Stats Report where
  init := statsStart xTraceRegisterString
  step := logTaskStats xTraceRegisterString

end

/-- The calls that a pass makes: none while the total run time is below 100. -/
def Sample.reports (p : Sample) : List Report :=
  if p.totalRuntime / 100 ≠ 0 then p.taskStats.map fun status => ⟨status, p.totalRuntime⟩ else []

variable {register : List CString → CString → TraceString} {s s' : Stats} {r : Report}
  {reports : List Report} {samples : List Sample}

/-- A pass makes its calls if the tasks fit the array. -/
theorem statsPass_eq (s : Stats) (p : Sample) :
    (statsTask register).step s p =
      if p.numTasks.toNat ≤ maxTasks then (statsLog register).runFrom s p.reports else none := by
  have hpass : (statsTask register).step s p = statsPass register s p := rfl
  rw [hpass, statsPass, Machine.runFrom, Sample.reports]
  by_cases htotal : p.totalRuntime / 100 ≠ 0
  · rw [if_pos htotal, if_pos htotal, List.foldlM_map]
    rfl
  · rw [if_neg htotal, if_neg htotal]
    rfl

/-- The passes are the calls they make, if the tasks fit the array. -/
theorem statsTask_run_eq_some :
    (statsTask register).run samples = some s ↔
      (∀ p ∈ samples, p.numTasks.toNat ≤ maxTasks) ∧
        (statsLog register).run (samples.flatMap Sample.reports) = some s :=
  Machine.runFrom_flatMap_eq_some statsPass_eq

/-! ### The calls of `log_task_stats` -/

/-- The event has the arguments that the report calls for. -/
structure Describes (chn : TraceString) (r : Report) (e : StatsEvent) : Prop where
  chn : e.chn = chn
  stackSize : taskStackSize r.name = some e.stackSize
  stackHighWaterMark : e.stackHighWaterMark = r.status.usStackHighWaterMark
  runTimeCounter : e.runTimeCounter = r.status.ulRunTimeCounter
  totalRuntime : e.totalRuntime = r.totalRuntime

/-- The table of the names in `reports`. -/
abbrev tableOf (register : List CString → CString → TraceString) (reports : List Report) :
    Table CString.key TraceString :=
  .after (afterChannel register) (reports.map Report.name)

/-- After the calls for `reports`. -/
structure Logged (register : List CString → CString → TraceString) (reports : List Report)
    (s : Stats) : Prop where
  chn : s.gStatsChn = register [] statsChannel
  names : Represents s.names (tableOf register reports)
  events : List.Forall₂ (fun r e => Describes s.gStatsChn r e ∧
    (tableOf register reports).lookup r.name.key = some e.sym) reports s.trace

/-- A call whose asserts hold adds one event. -/
theorem logTaskStats_eq {names : TaskNames} {sym : TraceString} {stackSize : UInt32}
    (hsym : taskNameSym (afterChannel register) s.names r.name = some (names, sym))
    (hsize : taskStackSize r.name = some stackSize) :
    logTaskStats register s r = some
      { s with
        names := names
        trace := s.trace ++ [⟨s.gStatsChn, sym, stackSize, r.status.usStackHighWaterMark,
          r.status.ulRunTimeCounter, r.totalRuntime⟩] } := by
  rw [Report.name] at hsym hsize
  rw [logTaskStats, hsym, hsize]
  rfl

/-- **A call** for a task that is known logs its event, if the names have room in the array. -/
theorem Logged.logTaskStats (h : Logged register reports s) (hknown : KnownTask r.name)
    (hfew : ((reports ++ [r]).map (fun r => r.name.key)).dedup.length ≤ maxTasks)
    (hsym : ∀ registered, afterChannel register registered r.name ≠ 0) :
    ∃ s', logTaskStats register s r = some s' ∧ Logged register (reports ++ [r]) s' := by
  obtain ⟨stackSize, hsize⟩ :=
    Option.ne_none_iff_exists'.mp (taskStackSize_ne_none_iff.mpr hknown)
  have htable : tableOf register (reports ++ [r]) =
      ((tableOf register reports).intern (afterChannel register) r.name).1 := by
    rw [tableOf, List.map_append, List.map_singleton, Table.after_concat]
  have hroom : (tableOf register reports).lookup r.name.key = none →
      (tableOf register reports).entries.length < maxTasks := by
    intro hnew
    have hlen : (tableOf register (reports ++ [r])).entries.length ≤ maxTasks := by
      rw [tableOf, Table.length_after, List.map_map]
      exact hfew
    rw [htable, Table.intern_of_none hnew, Table.add, List.length_append,
      List.length_singleton] at hlen
    exact hlen
  obtain ⟨names, hcall, hrep⟩ := h.names.taskNameSym hroom (hsym _)
  refine ⟨_, logTaskStats_eq hcall hsize, h.chn, ?_, ?_⟩
  · rw [htable]
    exact hrep
  · rw [htable]
    apply List.rel_append
    · exact h.events.imp fun r' e he =>
        ⟨he.1, Table.lookup_intern_of_some (afterChannel register) r.name he.2⟩
    · refine .cons ⟨⟨rfl, hsize, rfl, rfl, rfl⟩, ?_⟩ .nil
      exact Table.lookup_intern_self (afterChannel register) _ r.name

/-- A call that returns was made for a known task. -/
theorem knownTask_of_logTaskStats (h : logTaskStats register s r = some s') :
    KnownTask r.name := by
  obtain ⟨⟨names, sym⟩, -, hrest⟩ := Option.bind_eq_some_iff.mp h
  obtain ⟨stackSize, hsize, -⟩ := Option.bind_eq_some_iff.mp hrest
  exact taskStackSize_ne_none_iff.mp (Option.ne_none_iff_exists'.mpr ⟨stackSize, hsize⟩)

/-- **The calls** for tasks that are known. -/
theorem statsLog_run (hreg : RecorderContract (afterChannel register) (reports.map Report.name))
    (hknown : ∀ r ∈ reports, KnownTask r.name) :
    ∃ s, (statsLog register).run reports = some s ∧ Logged register reports s := by
  induction reports using List.reverseRecOn with
  | nil => exact ⟨_, rfl, rfl, represents_start, .nil⟩
  | append_singleton reports r ih =>
    have hsub : reports ⊆ reports ++ [r] := List.subset_append_left _ _
    have hmem : r ∈ reports ++ [r] := List.mem_append_right _ (List.mem_singleton_self _)
    obtain ⟨s, hs, hlogged⟩ :=
      ih (hreg.mono (List.map_subset _ hsub)) fun r' hr' => hknown r' (hsub hr')
    have hfew : ((reports ++ [r]).map (fun r => r.name.key)).dedup.length ≤ maxTasks := by
      have hnames : ∀ name ∈ (reports ++ [r]).map Report.name, KnownTask name :=
        List.forall_mem_map.mpr hknown
      have hle := length_dedup_le_of_known hnames
      rw [List.map_map] at hle
      exact Nat.le_trans hle (by decide)
    have hsym (registered : List CString) : afterChannel register registered r.name ≠ 0 :=
      hreg.ne_zero registered r.name (List.mem_map_of_mem hmem)
    obtain ⟨s', hcall, hlogged'⟩ := hlogged.logTaskStats (hknown r hmem) hfew hsym
    exact ⟨s', by rw [Machine.run_concat hs]; exact hcall, hlogged'⟩

/-- Each task that got past the asserts is known. -/
theorem knownTask_of_run (h : (statsLog register).run reports = some s) :
    ∀ r ∈ reports, KnownTask r.name := by
  refine Machine.run_history (I := fun reports _ => ∀ r ∈ reports, KnownTask r.name) nofun ?_ h
  intro reports s r s' ih hstep
  rw [List.forall_mem_append, List.forall_mem_singleton]
  exact ⟨ih, knownTask_of_logTaskStats hstep⟩

/-! ### The trace -/

/-- The trace after the calls for `reports`. -/
structure Traced (reports : List Report) (s : Stats) : Prop where
  /-- There is an event for each report, in their order. -/
  events : List.Forall₂ (Describes s.gStatsChn) reports s.trace
  /-- Events about the same name have the same symbol, and others have different ones. -/
  symbols : ∀ c ∈ reports.zip s.trace, ∀ c' ∈ reports.zip s.trace,
    c.2.sym = c'.2.sym ↔ c.1.name.key = c'.1.name.key
  /-- All events of a symbol have the same size of the stack. -/
  stackSizes : ∀ e ∈ s.trace, ∀ e' ∈ s.trace, e.sym = e'.sym → e.stackSize = e'.stackSize
  /-- The unused share of a stack is defined. -/
  nonzero : ∀ e ∈ s.trace, e.stackSize ≠ 0
  /-- No name is registered twice, and no more names than there are tasks. -/
  registered : (s.names.registered.map CString.key).Nodup ∧
    s.names.registered.length ≤ taskStacks.length

/-- What the calls have logged can be read back from the trace. -/
theorem Logged.traced (h : Logged register reports s)
    (hreg : RecorderContract (afterChannel register) (reports.map Report.name))
    (hknown : ∀ r ∈ reports, KnownTask r.name) : Traced reports s := by
  obtain ⟨hlen, hzip⟩ := List.forall₂_iff_zip.mp h.events
  have hsymbols : ∀ c ∈ reports.zip s.trace, ∀ c' ∈ reports.zip s.trace,
      c.2.sym = c'.2.sym ↔ c.1.name.key = c'.1.name.key := by
    rintro ⟨r, e⟩ hc ⟨r', e'⟩ hc'
    have hfound := (hzip hc).2
    have hfound' := (hzip hc').2
    constructor
    · intro heq
      rw [show e.sym = e'.sym from heq] at hfound
      exact Table.lookup_after_inj hreg.distinguishes hfound hfound'
    · intro hkey
      rw [show r.name.key = r'.name.key from hkey] at hfound
      exact Option.some.inj (hfound.symm.trans hfound')
  have hreport : ∀ e ∈ s.trace, ∃ r, (r, e) ∈ reports.zip s.trace := by
    intro e he
    rw [← List.map_snd_zip (Nat.le_of_eq hlen.symm), List.mem_map] at he
    obtain ⟨⟨r, e⟩, hc, rfl⟩ := he
    exact ⟨r, hc⟩
  refine ⟨h.events.imp fun r e he => he.1, hsymbols, ?_, fun e he => ?_, ?_, ?_⟩
  · intro e he e' he' heq
    obtain ⟨r, hc⟩ := hreport e he
    obtain ⟨r', hc'⟩ := hreport e' he'
    have hkey : r.name.key = r'.name.key := (hsymbols _ hc _ hc').mp heq
    have hsize := (hzip hc).1.stackSize
    rw [taskStackSize_congr hkey, (hzip hc').1.stackSize] at hsize
    exact (Option.some.inj hsize).symm
  · obtain ⟨r, hc⟩ := hreport e he
    exact taskStackSize_ne_zero (hzip hc).1.stackSize
  · rw [h.names.registered, Table.names, List.map_map]
    exact (tableOf register reports).nodup
  · rw [h.names.registered, Table.names, List.length_map, Table.length_after]
    exact length_dedup_le_of_known (List.forall_mem_map.mpr hknown)

/-- The tasks of the sample fit the array, and those that are logged are known. -/
structure Sample.Admitted (p : Sample) : Prop where
  numTasks : p.numTasks.toNat ≤ maxTasks
  known : ∀ r ∈ p.reports, KnownTask r.name

/-- **The task statistics.**  Over any periods, no assert of the task fails if and only if there
    are never more than `MAX_TASKS` tasks and all that are logged are known.  The trace then has
    an event for every task that was met, and a symbol stands for one task and its stack. -/
theorem task_statistics (samples : List Sample)
    (hreg : RecorderContract (afterChannel register)
      ((samples.flatMap Sample.reports).map Report.name)) :
    ((∃ s, (statsTask register).run samples = some s) ↔ ∀ p ∈ samples, p.Admitted) ∧
      ∀ s, (statsTask register).run samples = some s →
        Traced (samples.flatMap Sample.reports) s := by
  constructor
  · constructor
    · rintro ⟨s, hs⟩ p hp
      obtain ⟨hfits, hrun⟩ := statsTask_run_eq_some.mp hs
      have hknown := knownTask_of_run hrun
      exact ⟨hfits p hp, fun r hr => hknown r (List.mem_flatMap.mpr ⟨p, hp, hr⟩)⟩
    · intro hadm
      have hknown : ∀ r ∈ samples.flatMap Sample.reports, KnownTask r.name := by
        intro r hr
        obtain ⟨p, hp, hr⟩ := List.mem_flatMap.mp hr
        exact (hadm p hp).known r hr
      obtain ⟨s, hs, -⟩ := statsLog_run hreg hknown
      exact ⟨s, statsTask_run_eq_some.mpr ⟨fun p hp => (hadm p hp).numTasks, hs⟩⟩
  · intro s hs
    have hrun := (statsTask_run_eq_some.mp hs).2
    have hknown := knownTask_of_run hrun
    -- The run of the calls is the one that is known to log them.
    obtain ⟨s', hs', hlogged⟩ := statsLog_run hreg hknown
    rw [hrun, Option.some.injEq] at hs'
    exact hs' ▸ hlogged.traced hreg hknown

/-- The idle task and the timer task, after 200 ticks. -/
def twoTasksSample : Sample where
  numTasks := 2
  taskStats := [⟨idleName, 190, 150⟩, ⟨timerName, 400, 50⟩]
  totalRuntime := 200
  fits := by decide

/-- They are met in two periods. -/
theorem task_statistics_twoTasks :
    ((∃ s, (statsTask twoTasks).run [twoTasksSample, twoTasksSample] = some s) ↔
        ∀ p ∈ [twoTasksSample, twoTasksSample], p.Admitted) ∧
      ∀ s, (statsTask twoTasks).run [twoTasksSample, twoTasksSample] = some s →
        Traced ([twoTasksSample, twoTasksSample].flatMap Sample.reports) s :=
  task_statistics [twoTasksSample, twoTasksSample] recorderContract_twoTasks

end Wallbot.Freertos
