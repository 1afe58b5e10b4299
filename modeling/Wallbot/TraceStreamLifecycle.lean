import Wallbot.Lib.HandleLog
import Wallbot.TraceStreamPort

namespace Wallbot.Freertos

open Halting HandleLog

/-!
# Socket handles of the trace stream port

The two static sockets are shared by reads, writes and the end of a trace.

* `StackCall.events` — what a call of the stack does to handles, and `Lifecycle` — what is
  expected of the log of a run: no handle is used after it was closed, and the open ones are
  stored.
* `Live` — the invariant until a trace end closes a socket; it is an invariant of the set-up
  in the sense of `initSockets_invariant`.
* `Ended` — the invariant from then on: `xTraceStreamPortOnTraceEnd` leaves the closed handles
  in the static variables.
* `lifecycle_iff` — which runs keep to the rules: those that come near no socket any more.
-/

/-! ### Handles -/

/-- The two static variables. -/
inductive Role where
  | server
  | client
  deriving DecidableEq, Repr

/-- An event of the socket, if it is a handle. -/
def Socket.event (f : ℕ → Event Role ℕ) : Socket → List (Event Role ℕ)
  | .handle n => [f n]
  | _ => []

/-- What a call does to handles. -/
def StackCall.events : StackCall → List (Event Role ℕ)
  | .socket ret => ret.event (.opened .server)
  | .bind s _ => s.event .used
  | .listen s _ => s.event .used
  | .accept s ret => s.event .used ++ ret.event (.opened .client)
  | .setsockopt s => s.event .used
  | .recv s _ _ => s.event .used
  | .send s _ _ => s.event .used
  | .closesocket s => s.event .closed

namespace PortState

/-- The log of the calls made so far. -/
def events (p : PortState) : List (Event Role ℕ) := p.calls.flatMap StackCall.events

/-- The socket that is kept for a role. -/
def stored (p : PortState) : Role → Socket
  | .server => p.gServerSocket
  | .client => p.gClientSocket

/-- A call adds its events. -/
theorem events_call (p : PortState) (c : StackCall) : (p.call c).events = p.events ++ c.events := by
  simp [events, call]

end PortState

/-- What is expected of the handles. -/
structure Lifecycle (p : PortState) : Prop where
  /-- No handle is used or closed after it was closed. -/
  disciplined : Disciplined p.events
  /-- Every open handle is stored, so there is at most one of each kind. -/
  stored : ∀ role n, Open p.events role n → p.stored role = .handle n
  single : ∀ role n m, Open p.events role n → Open p.events role m → n = m

/-! ### Before the end of a trace -/

/-- There is no client without a server, and no client socket that is `NULL`. -/
def ClientServed (p : PortState) : Prop :=
  p.gClientSocket = .invalid ∨
    (∃ n, p.gClientSocket = .handle n) ∧ p.gServerSocket ≠ .invalid

/-- Nothing has been closed, and the handles opened are those stored. -/
structure Live (p : PortState) : Prop where
  noneClosed : ∀ n, .closed n ∉ p.events
  opened : ∀ role n, .opened role n ∈ p.events ↔ p.stored role = .handle n
  fresh : ∀ role n, p.stored role = .handle n → n < p.nextHandle
  apart : ∀ r r' n, r ≠ r' → p.stored r = .handle n → p.stored r' ≠ .handle n
  served : ClientServed p

/-- Before the first call. -/
theorem live_start : Live .start where
  noneClosed := by simp [PortState.events, PortState.start]
  opened := by
    rintro (_ | _) n
    · simp [PortState.events, PortState.start, PortState.stored]
    · simp [PortState.events, PortState.start, PortState.stored]
  fresh := by rintro (_ | _) n hn <;> cases hn
  apart := by rintro (_ | _) r' n - hn <;> cases hn
  served := .inl rfl

/-- The events are uses. -/
def Uses (es : List (Event Role ℕ)) : Prop := ∀ e ∈ es, ∃ n, e = .used n

/-- No event is no use. -/
theorem uses_nil : Uses [] := by simp [Uses]

/-- Only a handle has events. -/
theorem mem_event {s : Socket} {f : ℕ → Event Role ℕ} {e : Event Role ℕ} :
    e ∈ s.event f ↔ ∃ n, s = .handle n ∧ e = f n := by
  cases s <;> simp [Socket.event]

/-- A use of a socket is a use. -/
theorem uses_event (s : Socket) : Uses (s.event .used) := by
  intro e he
  obtain ⟨n, -, rfl⟩ := mem_event.mp he
  exact ⟨n, rfl⟩

variable {io : Stack} {p p' : PortState} {us : List (Event Role ℕ)}

/-- Using sockets opens and closes none. -/
theorem Live.of_uses (h : Live p) (hus : Uses us) (hev : p'.events = p.events ++ us)
    (hs : ∀ role n, p'.stored role = .handle n ↔ p.stored role = .handle n)
    (hnext : p'.nextHandle = p.nextHandle) (hserved : ClientServed p') : Live p' where
  noneClosed := by
    intro n hn
    rcases List.mem_append.mp (hev ▸ hn) with hold | hnew
    · exact h.noneClosed n hold
    · exact nomatch hus _ hnew
  opened := by
    intro role n
    rw [hev, hs, ← h.opened, List.mem_append]
    exact or_iff_left fun hnew => nomatch hus _ hnew
  fresh := fun role n hn => hnext ▸ h.fresh role n ((hs role n).mp hn)
  apart := fun r r' n hr hn hn' => h.apart r r' n hr ((hs r n).mp hn) ((hs r' n).mp hn')
  served := hserved

/-- Opening a fresh handle for a role that has none. -/
theorem Live.of_opened (h : Live p) (role : Role) (hus : Uses us)
    (hnone : ∀ n, p.stored role ≠ .handle n)
    (hev : p'.events = p.events ++ us ++ [.opened role p.nextHandle])
    (hs : p'.stored role = .handle p.nextHandle)
    (hother : ∀ r, r ≠ role → p'.stored r = p.stored r)
    (hnext : p'.nextHandle = p.nextHandle + 1) (hserved : ClientServed p') : Live p' where
  noneClosed := by
    intro n hn
    rw [hev, List.mem_append, List.mem_append] at hn
    rcases hn with (hold | huse) | hnew
    · exact h.noneClosed n hold
    · exact nomatch hus _ huse
    · simp at hnew
  opened := by
    intro r n
    -- The log has one opening more, and only `role` stores another handle.
    have hmem : .opened r n ∈ p'.events ↔
        p.stored r = .handle n ∨ r = role ∧ n = p.nextHandle := by
      rw [hev, List.mem_append, List.mem_append, ← h.opened]
      have huse : .opened r n ∉ us := fun huse => nomatch hus _ huse
      simp [huse]
    rw [hmem]
    by_cases hr : r = role
    · rw [hr, hs]
      simp [hnone n, eq_comm]
    · rw [hother r hr]
      simp [hr]
  fresh := by
    intro r n hn
    rw [hnext]
    by_cases hr : r = role
    · rw [hr, hs] at hn
      cases hn
      omega
    · rw [hother r hr] at hn
      have hlt := h.fresh r n hn
      omega
  apart := by
    -- The fresh handle is above all others.
    have hnew (r : Role) (n : ℕ) (hr : r ≠ role) (hn : p'.stored r = .handle n) :
        n ≠ p.nextHandle := Nat.ne_of_lt (h.fresh r n (hother r hr ▸ hn))
    intro r r' n hne hn hn'
    by_cases hr : r = role
    · have hr' : r' ≠ role := fun heq => hne (hr.trans heq.symm)
      rw [hr, hs] at hn
      cases hn
      exact hnew r' _ hr' hn' rfl
    · by_cases hr' : r' = role
      · rw [hr', hs] at hn'
        cases hn'
        exact hnew r _ hr hn rfl
      · exact h.apart r r' n hne (hother r hr ▸ hn) (hother r' hr' ▸ hn')
  served := hserved

/-- A call that opens and closes nothing keeps the handles. -/
theorem Live.call (h : Live p) {c : StackCall} (hc : Uses c.events) : Live (p.call c) :=
  h.of_uses hc (p.events_call c) (fun role n => by cases role <;> exact Iff.rfl) rfl h.served

/-- Binding, listening and setting options use a handle and no more. -/
theorem StackCall.Configures.uses {c : StackCall} (h : c.Configures) : Uses c.events := by
  cases c <;> first | exact uses_event _ | exact h.elim

/-- A new server socket is stored if it is a handle. -/
theorem Live.createServer (h : Live p) (hs : p.gServerSocket = .invalid) (r : Reply) :
    Live (p.createServer r) := by
  have hclient : p.gClientSocket = .invalid := by
    rcases h.served with hc | ⟨-, hne⟩
    · exact hc
    · exact absurd hs hne
  have hserved : ClientServed (p.createServer r) := by
    cases r <;> exact .inl hclient
  have hev : (p.createServer r).events = p.events ++ (p.give r).2.event (.opened .server) := by
    simp [PortState.events, StackCall.events]
  cases r with
  | invalid | null =>
    -- No handle came back, so nothing was opened.
    refine h.of_uses uses_nil hev ?_ rfl hserved
    rintro (_ | _) n
    · exact iff_of_false (fun hn => by cases hn) (by simp [PortState.stored, hs])
    · exact Iff.rfl
  | fresh =>
    refine h.of_opened .server uses_nil ?_
      (by simpa [PortState.give, Socket.event] using hev) rfl ?_ rfl hserved
    · simp [PortState.stored, hs]
    · rintro (_ | _) hr
      · exact absurd rfl hr
      · rfl

/-- So is the client, unless none connected in time. -/
theorem Live.acceptClient (h : Live p) (hs : p.gServerSocket ≠ .invalid)
    (hc : p.gClientSocket = .invalid) (r : Reply) : Live (p.acceptClient r) := by
  have hev : (p.acceptClient r).events =
      p.events ++ p.gServerSocket.event .used ++ (p.give r).2.event (.opened .client) := by
    simp [PortState.events, StackCall.events]
  have huse := uses_event p.gServerSocket
  cases r with
  | invalid | null =>
    -- The timeout, after which the socket is set back, and a failure leave the same.
    refine h.of_uses huse (by simpa [PortState.give, Socket.event] using hev) ?_ rfl (.inl rfl)
    rintro (_ | _) n
    · exact Iff.rfl
    · exact iff_of_false (fun hn => by cases hn) (by simp [PortState.stored, hc])
  | fresh =>
    refine h.of_opened .client huse ?_ hev rfl ?_ rfl (.inr ⟨⟨_, rfl⟩, hs⟩)
    · simp [PortState.stored, hc]
    · rintro (_ | _) hr
      · rfl
      · exact absurd rfl hr

/-- The set-up keeps the invariant, wherever it stops. -/
theorem Live.setup (h : Live p) : Ends Live Live (initSockets io p) := by
  refine initSockets_invariant ?_ ?_ ?_ ?_ h
  · intro q port hq
    exact hq.of_uses uses_nil (by simp [PortState.events])
      (fun role n => by cases role <;> exact Iff.rfl) rfl hq.served
  · exact fun q r hs hq => hq.createServer hs r
  · exact fun q r hs hc hq => hq.acceptClient hs hc r
  · exact fun q c hc hq => hq.call hc.uses

/-- So does every read and write. -/
theorem Live.run (h : Live p) (c : IoCall) : Ends Live (fun r => Live r.port) (c.run p) :=
  IoCall.run_ends (fun _ => h) (fun _ _ _ _ h' => h'.call (uses_event _))
    (fun _ _ _ _ h' => h'.call (uses_event _)) h.setup

/-- While nothing is closed, the handles are used as they should be. -/
theorem Live.lifecycle (h : Live p) : Lifecycle p where
  disciplined := disciplined_of_no_closed h.noneClosed
  stored := fun role n hopen => (h.opened role n).mp hopen.1
  single := by
    intro role n m hn hm
    have hstored : Socket.handle n = .handle m :=
      ((h.opened role n).mp hn.1).symm.trans ((h.opened role m).mp hm.1)
    cases hstored
    rfl

/-! ### The end of a trace -/

/-- Closing a handle is an event; closing what is none does nothing. -/
theorem close_events (p : PortState) (s : Socket) :
    (p.close s).events = p.events ++ s.event .closed := by
  unfold PortState.close
  by_cases h : s = .invalid
  · rw [h]
    simp [Socket.event]
  · rw [if_pos h, PortState.events_call]
    rfl

/-- Closing a socket does not unset the variable it is stored in. -/
theorem close_stored (p : PortState) (s : Socket) (role : Role) :
    (p.close s).stored role = p.stored role := by
  unfold PortState.close
  split <;> cases role <;> rfl

/-- No handle comes from closing one. -/
theorem close_nextHandle (p : PortState) (s : Socket) : (p.close s).nextHandle = p.nextHandle := by
  unfold PortState.close
  split <;> rfl

/-- The end of a trace closes the client, then the server. -/
theorem traceEnd_events (p : PortState) :
    (xTraceStreamPortOnTraceEnd p).events =
      p.events ++ (p.gClientSocket.event .closed ++ p.gServerSocket.event .closed) := by
  have hserver : (p.close p.gClientSocket).gServerSocket = p.gServerSocket :=
    close_stored p p.gClientSocket .server
  unfold xTraceStreamPortOnTraceEnd
  rw [close_events, close_events, hserver, List.append_assoc]

/-- It leaves both variables set: this is the slip that a later call trips over. -/
theorem traceEnd_stored (p : PortState) (role : Role) :
    (xTraceStreamPortOnTraceEnd p).stored role = p.stored role := by
  unfold xTraceStreamPortOnTraceEnd
  rw [close_stored, close_stored]

/-- The property speaks of the two variables only. -/
theorem ClientServed.of_stored (h : ClientServed p)
    (hs : ∀ role, p'.stored role = p.stored role) : ClientServed p' := by
  have hserver : p'.gServerSocket = p.gServerSocket := hs .server
  have hclient : p'.gClientSocket = p.gClientSocket := hs .client
  rwa [ClientServed, hserver, hclient]

/-- The events of a trace end are the closings of what is stored. -/
theorem mem_traceEnd {e : Event Role ℕ} :
    e ∈ p.gClientSocket.event .closed ++ p.gServerSocket.event .closed ↔
      ∃ role n, p.stored role = .handle n ∧ e = .closed n := by
  rw [List.mem_append, mem_event, mem_event]
  constructor
  · rintro (⟨n, hn, he⟩ | ⟨n, hn, he⟩)
    · exact ⟨.client, n, hn, he⟩
    · exact ⟨.server, n, hn, he⟩
  · rintro ⟨_ | _, n, hn, he⟩
    · exact .inr ⟨n, hn, he⟩
    · exact .inl ⟨n, hn, he⟩

/-- Everything opened was closed, and what was closed is still stored. -/
structure Ended (p : PortState) : Prop where
  disciplined : Disciplined p.events
  noneOpen : ∀ role n, ¬ Open p.events role n
  closed : ∀ role n, p.stored role = .handle n → .closed n ∈ p.events
  handle : ∃ role n, p.stored role = .handle n
  served : ClientServed p

/-- After the end of a trace nothing is open. -/
theorem Ended.lifecycle (h : Ended p) : Lifecycle p where
  disciplined := h.disciplined
  stored := fun role n hopen => absurd hopen (h.noneOpen role n)
  single := fun role n _ hopen => absurd hopen (h.noneOpen role n)

/-- The first trace end that finds a handle closes all there are, each once. -/
theorem Live.traceEnd (h : Live p) (hhandle : ∃ role n, p.stored role = .handle n) :
    Ended (xTraceStreamPortOnTraceEnd p) := by
  have hev := traceEnd_events p
  have hclosed : ∀ role n, p.stored role = .handle n →
      .closed n ∈ (xTraceStreamPortOnTraceEnd p).events := by
    intro role n hn
    rw [hev]
    exact List.mem_append_right _ (mem_traceEnd.mpr ⟨role, n, hn, rfl⟩)
  refine ⟨?_, ?_, ?_, ?_, h.served.of_stored (traceEnd_stored p)⟩
  · rw [hev]
    have hone (s : Socket) : Disciplined (s.event (.closed : ℕ → Event Role ℕ)) := by
      cases s <;> simp [Socket.event, Disciplined]
    refine (disciplined_of_no_closed h.noneClosed).append ((hone _).append (hone _) ?_) ?_
    · -- The client and the server are not the same handle.
      intro k hk e he
      obtain ⟨n, hn, hkn⟩ := mem_event.mp hk
      obtain ⟨m, hm, rfl⟩ := mem_event.mp he
      cases hkn
      rintro (htouch | htouch)
      · cases htouch
      · cases htouch
        exact h.apart .server .client _ (by decide) hm hn
    · exact fun k hk => absurd hk (h.noneClosed k)
  · -- What was opened before is stored, hence closed now.
    rintro role n ⟨hopened, hopen⟩
    refine hopen (hclosed role n ((h.opened role n).mp ?_))
    rw [hev] at hopened
    rcases List.mem_append.mp hopened with hold | hnew
    · exact hold
    · obtain ⟨r, m, hm, he⟩ := mem_traceEnd.mp hnew
      cases he
  · intro role n hn
    rw [traceEnd_stored] at hn
    exact hclosed role n hn
  · obtain ⟨role, n, hn⟩ := hhandle
    exact ⟨role, n, (traceEnd_stored p role).trans hn⟩

/-- A trace end that finds no handle changes nothing. -/
theorem Live.traceEnd_idle (h : Live p) (hnone : ¬ ∃ role n, p.stored role = .handle n) :
    Live (xTraceStreamPortOnTraceEnd p) := by
  have hev : (xTraceStreamPortOnTraceEnd p).events = p.events ++ [] := by
    rw [traceEnd_events]
    congr 1
    refine List.eq_nil_iff_forall_not_mem.mpr fun e he => hnone ?_
    obtain ⟨role, n, hn, -⟩ := mem_traceEnd.mp he
    exact ⟨role, n, hn⟩
  refine h.of_uses uses_nil hev (fun role n => by rw [traceEnd_stored]) ?_
    (h.served.of_stored (traceEnd_stored p))
  unfold xTraceStreamPortOnTraceEnd
  rw [close_nextHandle, close_nextHandle]

/-! ### After the end of a trace -/

/-- The calls of `p'` go on from those of `p`. -/
def Extends (p p' : PortState) : Prop := p.calls <+: p'.calls

/-- A discipline that is broken stays broken. -/
theorem Extends.not_disciplined (h : Extends p p') (hp : ¬ Disciplined p.events) :
    ¬ Disciplined p'.events := by
  obtain ⟨more, hmore⟩ := h
  rw [PortState.events, ← hmore, List.flatMap_append]
  exact fun hd => hp hd.left

/-- A call is added at the end. -/
theorem Extends.call (h : Extends p p') (c : StackCall) : Extends p (p'.call c) :=
  h.trans (List.prefix_append _ _)

/-- Closing a socket adds at most one call at the end. -/
theorem Extends.close (h : Extends p p') (s : Socket) : Extends p (p'.close s) := by
  unfold PortState.close
  split
  · exact h.call _
  · exact h

/-- A call that needs a closed handle breaks the discipline, whatever follows it. -/
theorem Ended.not_disciplined (h : Ended p) {c : StackCall} (hc : Extends (p.call c) p')
    (role : Role) {n : ℕ} (hs : p.stored role = .handle n) (huse : .used n ∈ c.events) :
    ¬ Disciplined p'.events := by
  apply hc.not_disciplined
  rw [PortState.events_call]
  exact HandleLog.not_disciplined (h.closed role n hs) huse (.inl rfl)

/-- So does the set-up. -/
theorem onlySetup_extends (h : OnlySetup p p') : Extends p p' := by
  obtain ⟨setup, hcalls, -⟩ := h
  exact ⟨setup, hcalls.symm⟩

/-- A read or a write only adds calls. -/
theorem run_extends (p : PortState) (c : IoCall) :
    Ends (Extends p) (fun r => Extends p r.port) (c.run p) := by
  refine IoCall.run_ends (fun _ => List.prefix_refl _) (fun _ _ _ _ h' => h'.call _)
    (fun _ _ _ _ h' => h'.call _) ?_
  exact (initSockets_onlySetup c.stack p).mono (fun _ h => onlySetup_extends h)
    (fun _ h => onlySetup_extends h)

/-- Once the trace has ended, nothing may need a socket any more: a read or a write must find
    the network down and no client, or stop at its check of the size. -/
def IoCall.Idle (c : IoCall) (p : PortState) : Prop :=
  match c with
  | .read io size _ => size = 0 ∨ io.networkUp = false ∧ p.gClientSocket = .invalid
  | .write io _ _ => io.networkUp = false ∧ p.gClientSocket = .invalid

/-- The property speaks of the events and the two variables only. -/
theorem Ended.of_events (h : Ended p) (hev : p'.events = p.events)
    (hs : ∀ role, p'.stored role = p.stored role) : Ended p' where
  disciplined := hev ▸ h.disciplined
  noneOpen := hev ▸ h.noneOpen
  closed := fun role n hn => hev ▸ h.closed role n (hs role ▸ hn)
  handle := by
    obtain ⟨role, n, hn⟩ := h.handle
    exact ⟨role, n, (hs role).trans hn⟩
  served := h.served.of_stored hs

/-- An idle call needs no handle. -/
theorem Ended.run_idle (h : Ended p) {c : IoCall} (hc : c.Idle p) :
    Ends Ended (fun r => Ended r.port) (c.run p) := by
  cases c with
  | read io size count =>
    by_cases hsize : size = 0
    · rw [hsize]
      exact h
    · -- The network is down and there is no client, so the read makes no call at all.
      obtain ⟨hup, hclient⟩ := hc.resolve_left hsize
      rw [IoCall.run, traceIoRead_eq hsize, initSockets, hup]
      show Ended (readReady io size count p).port
      rw [readReady_port, if_neg (not_not.mpr hclient)]
      exact h
  | write io size count =>
    obtain ⟨hup, hclient⟩ := hc
    rw [IoCall.run, traceIoWrite_eq, initSockets, hup]
    show Ended (writeReady io size p).port
    rw [writeReady_port, hclient]
    split
    · -- It sends to `FREERTOS_INVALID_SOCKET`, which is no handle.
      refine h.of_events ?_ fun role => by cases role <;> rfl
      rw [PortState.events_call]
      exact List.append_nil _
    · exact h

/-- With both sockets there, the set-up makes no call. -/
theorem initSockets_of_both (io : Stack) (hs : p.gServerSocket ≠ .invalid)
    (hc : p.gClientSocket ≠ .invalid) :
    ∃ p', initSockets io p = .ok p' ∧ p'.gServerSocket = p.gServerSocket ∧
      p'.gClientSocket = p.gClientSocket ∧ p'.calls = p.calls := by
  unfold initSockets
  split
  · obtain ⟨p', hinit, hs', hc', hcalls⟩ := initServerSocket_of_stored io hs
    refine ⟨p', ?_, hs', hc', hcalls⟩
    rw [hinit]
    show initClientSocket io p' = _
    unfold initClientSocket
    rw [configAssert, if_pos (by simpa [hs'] using hs)]
    show (if _ then _ else _) = _
    rw [if_neg (hc' ▸ hc)]
    rfl
  · exact ⟨p, rfl, rfl, rfl, rfl⟩

/-- With a server socket and no client, it asks the server for one. -/
theorem initSockets_accepts {io : Stack} (hup : io.networkUp = true)
    (hs : p.gServerSocket ≠ .invalid) (hc : p.gClientSocket = .invalid) :
    ∃ ret, Ends (Extends (p.call (.accept p.gServerSocket ret)))
      (Extends (p.call (.accept p.gServerSocket ret))) (initSockets io p) := by
  obtain ⟨p', hinit, hs', hc', hcalls⟩ := initServerSocket_of_stored io hs
  refine ⟨(p'.give io.accept).2, ?_⟩
  have haccept : Extends (p.call (.accept p.gServerSocket (p'.give io.accept).2))
      (p'.acceptClient io.accept) := by
    rw [Extends, acceptClient_calls, hcalls, hs']
    exact List.prefix_refl _
  rw [initSockets, if_pos hup, hinit]
  show Ends _ _ (initClientSocket io p')
  unfold initClientSocket
  rw [configAssert, if_pos (by simpa [hs'] using hs)]
  show Ends _ _ (if _ then _ else _)
  rw [if_pos (hc'.trans hc)]
  split
  · exact configAssert_ends (fun _ => haccept.call _) fun _ => haccept.call _
  · exact haccept

/-- Any other call needs a handle that is closed. -/
theorem Ended.run_not_idle (h : Ended p) {c : IoCall} (hc : ¬ c.Idle p) :
    Ends (fun p' => ¬ Disciplined p'.events) (fun r => ¬ Disciplined r.port.events) (c.run p) := by
  have hchecked : c.Checked := by
    cases c with
    | read io size count => exact fun hsize => hc (.inl hsize)
    | write io size count => trivial
  rcases h.served with hnone | ⟨⟨n, hn⟩, hserver⟩
  · -- No client: the handle is the server, and the network is up.
    obtain ⟨role, n, hrole⟩ := h.handle
    have hserver : p.gServerSocket = .handle n := by
      cases role with
      | server => exact hrole
      | client => exact nomatch hnone.symm.trans hrole
    have hup : c.stack.networkUp = true := by
      by_contra hdown
      rw [Bool.not_eq_true] at hdown
      cases c with
      | read io size count => exact hc (.inr ⟨hdown, hnone⟩)
      | write io size count => exact hc ⟨hdown, hnone⟩
    obtain ⟨ret, hinit⟩ := initSockets_accepts hup (by simp [hserver]) hnone
    have hbroken (p' : PortState) (hext : Extends (p.call (.accept p.gServerSocket ret)) p') :
        ¬ Disciplined p'.events := by
      apply h.not_disciplined hext .server hserver
      simp [StackCall.events, hserver, Socket.event]
    exact (IoCall.run_ends (fun hsize => absurd hchecked hsize) (fun _ _ _ _ h' => h'.call _)
      (fun _ _ _ _ h' => h'.call _) hinit).mono hbroken fun r => hbroken r.port
  · -- A client: it is asked for data, or sent some.
    have hclient : p.gClientSocket ≠ .invalid := by simp [hn]
    obtain ⟨p', hinit, hs', hc', hcalls⟩ := initSockets_of_both c.stack hserver hclient
    have hbroken {call : StackCall} (huse : .used n ∈ call.events) :
        ¬ Disciplined (p'.call call).events := by
      refine h.not_disciplined ?_ .client hn huse
      simp only [Extends, PortState.call, hcalls, List.prefix_rfl]
    cases c with
    | read io size count =>
      rw [IoCall.run, traceIoRead_eq hchecked, show initSockets io p = _ from hinit]
      show ¬ Disciplined (readReady io size count p').port.events
      rw [readReady_port, if_pos (hc' ▸ hclient)]
      apply hbroken
      simp [StackCall.events, hc', hn, Socket.event]
    | write io size count =>
      rw [IoCall.run, traceIoWrite_eq, show initSockets io p = _ from hinit]
      show ¬ Disciplined (writeReady io size p').port.events
      rw [writeReady_port, if_pos (hs' ▸ hserver)]
      apply hbroken
      simp [StackCall.events, hc', hn, Socket.event]

/-- A second trace end closes a handle again. -/
theorem Ended.traceEnd (h : Ended p) :
    ¬ Disciplined (xTraceStreamPortOnTraceEnd p).events := by
  obtain ⟨role, n, hn⟩ := h.handle
  rw [traceEnd_events]
  exact HandleLog.not_disciplined (h.closed role n hn) (mem_traceEnd.mpr ⟨role, n, hn, rfl⟩)
    (.inr rfl)

/-! ### Whole runs -/

/-- The port, with whether a trace end has closed a handle and whether an assertion failed. -/
structure Port where
  state : PortState
  ended : Bool
  halted : Bool

/-- What the recorder asks of the port. -/
inductive PortAction where
  | io (c : IoCall)
  | traceEnd
  deriving DecidableEq, Repr

/-- The socket is a handle. -/
def Socket.isHandle : Socket → Bool
  | .handle _ => true
  | _ => false

/-- The sequences of calls of the port, in any order. -/
def port : Machine Port PortAction where
  init := { state := .start, ended := false, halted := false }
  step s a :=
    if s.halted then none else
      match a with
      | .io c =>
        match c.run s.state with
        | .ok r => some { s with state := r.port }
        | .error p => some { s with state := p, halted := true }
      | .traceEnd =>
        some
          { s with
            state := xTraceStreamPortOnTraceEnd s.state
            ended := s.ended || s.state.gServerSocket.isHandle || s.state.gClientSocket.isHandle }

/-- After a trace end has closed a handle: no second one, and no call but idle ones. -/
def LeftAlone (s : Port) (a : PortAction) : Prop :=
  s.ended = true →
    match a with
    | .io c => c.Idle s.state
    | .traceEnd => False

variable {s s' : Port} {a : PortAction}

/-- A read or a write leads where its postcondition says. -/
theorem port_step_io {I : PortState → Prop} {c : IoCall}
    (h : Ends I (fun r => I r.port) (c.run s.state)) (hs : port.step s (.io c) = some s') :
    I s'.state ∧ s'.ended = s.ended := by
  simp only [port, Option.ite_none_left_eq_some] at hs
  obtain ⟨-, hs⟩ := hs
  cases hrun : c.run s.state with
  | ok r =>
    rw [hrun] at h
    simp only [hrun, Option.some.injEq] at hs
    subst hs
    exact ⟨h, rfl⟩
  | error p =>
    rw [hrun] at h
    simp only [hrun, Option.some.injEq] at hs
    subst hs
    exact ⟨h, rfl⟩

/-- The end of a trace counts as one when it finds a handle. -/
theorem port_step_traceEnd (hs : port.step s .traceEnd = some s') :
    s'.state = xTraceStreamPortOnTraceEnd s.state ∧
      (s'.ended = true ↔ s.ended = true ∨ ∃ role n, s.state.stored role = .handle n) := by
  simp only [port, Option.ite_none_left_eq_some, Option.some.injEq] at hs
  obtain ⟨-, rfl⟩ := hs
  refine ⟨rfl, ?_⟩
  have hhandle (t : Socket) : t.isHandle = true ↔ ∃ n, t = .handle n := by
    cases t <;> simp [Socket.isHandle]
  rw [Bool.or_eq_true, Bool.or_eq_true, hhandle, hhandle, or_assoc]
  refine or_congr_right ⟨?_, ?_⟩
  · rintro (⟨n, hn⟩ | ⟨n, hn⟩)
    · exact ⟨.server, n, hn⟩
    · exact ⟨.client, n, hn⟩
  · rintro ⟨_ | _, n, hn⟩
    · exact .inl ⟨n, hn⟩
    · exact .inr ⟨n, hn⟩

/-- The invariant that belongs to the state. -/
def Port.Kept (s : Port) : Prop :=
  if s.ended then Ended s.state else Live s.state

/-- Either way the handles are used as they should be. -/
theorem Port.Kept.lifecycle (h : s.Kept) : Lifecycle s.state := by
  unfold Port.Kept at h
  split at h
  · exact h.lifecycle
  · exact h.lifecycle

/-- Every step adds calls. -/
theorem port_step_extends (hs : port.step s a = some s') : Extends s.state s'.state := by
  cases a with
  | io c => exact (port_step_io (run_extends s.state c) hs).1
  | traceEnd =>
    rw [(port_step_traceEnd hs).1]
    have hrefl : Extends s.state s.state := List.prefix_refl _
    exact (hrefl.close _).close _

/-- A step that leaves the closed handles alone keeps the invariant. -/
theorem Port.Kept.step (h : s.Kept) (hok : LeftAlone s a) (hs : port.step s a = some s') :
    s'.Kept := by
  unfold Port.Kept at h
  cases hended : s.ended with
  | false =>
    -- Before the end of a trace every step is fine.
    rw [hended] at h
    have hlive : Live s.state := h
    cases a with
    | io c =>
      obtain ⟨hlive', hended'⟩ := port_step_io (hlive.run c) hs
      rw [Port.Kept, hended', hended]
      exact hlive'
    | traceEnd =>
      obtain ⟨hstate, hended'⟩ := port_step_traceEnd hs
      by_cases hhandle : ∃ role n, s.state.stored role = .handle n
      · rw [Port.Kept, hended'.mpr (.inr hhandle), hstate]
        exact hlive.traceEnd hhandle
      · have hfalse : s'.ended = false := by
          rw [← Bool.not_eq_true, hended', hended]
          simpa using hhandle
        rw [Port.Kept, hfalse, hstate]
        exact hlive.traceEnd_idle hhandle
  | true =>
    -- After it only idle calls are left.
    rw [hended] at h
    have hend : Ended s.state := h
    cases a with
    | io c =>
      obtain ⟨hend', hended'⟩ := port_step_io (hend.run_idle (hok hended)) hs
      rw [Port.Kept, hended', hended]
      exact hend'
    | traceEnd => exact (hok hended).elim

/-- Any other step needs a closed handle. -/
theorem Port.Kept.broken (h : s.Kept) (hbad : ¬ LeftAlone s a) (hs : port.step s a = some s') :
    ¬ Disciplined s'.state.events := by
  unfold LeftAlone at hbad
  rw [Classical.not_imp] at hbad
  obtain ⟨hended, hbad⟩ := hbad
  have hend : Ended s.state := by
    rw [Port.Kept, hended] at h
    exact h
  cases a with
  | io c => exact (port_step_io (hend.run_not_idle hbad) hs).1
  | traceEnd =>
    rw [(port_step_traceEnd hs).1]
    exact hend.traceEnd

/-- A run keeps the invariant as long as it leaves closed handles alone, and the first step
    that does not is one too many. -/
theorem run_kept_or_broken {as : List PortAction} (h : port.run as = some s) :
    port.Along LeftAlone as ∧ s.Kept ∨
      ¬ port.Along LeftAlone as ∧ ¬ Disciplined s.state.events := by
  refine Machine.run_history_of_run (I := fun as s => port.Along LeftAlone as ∧ s.Kept ∨
    ¬ port.Along LeftAlone as ∧ ¬ Disciplined s.state.events) (.inl ⟨Machine.along_nil, live_start⟩)
    ?_ h
  intro as s a s' hrun ih hs
  have halong : port.Along LeftAlone (as ++ [a]) ↔ port.Along LeftAlone as ∧ LeftAlone s a := by
    rw [Machine.along_concat, hrun]
    simp
  rw [halong]
  -- The log of a broken run is a beginning of every later one.
  rcases ih with ⟨has, hkept⟩ | ⟨has, hbroken⟩
  · by_cases hok : LeftAlone s a
    · exact .inl ⟨⟨has, hok⟩, hkept.step hok hs⟩
    · exact .inr ⟨fun hboth => hok hboth.2, hkept.broken hok hs⟩
  · exact .inr ⟨fun hboth => has hboth.1, (port_step_extends hs).not_disciplined hbroken⟩

/-- **The lifecycle of socket handles.**  A run keeps to the rules exactly when it leaves the
    handles alone that the end of a trace has closed. -/
theorem lifecycle_iff {as : List PortAction} (h : port.run as = some s) :
    Lifecycle s.state ↔ port.Along LeftAlone as := by
  rcases run_kept_or_broken h with ⟨has, hkept⟩ | ⟨has, hbroken⟩
  · exact iff_of_true hkept.lifecycle has
  · exact iff_of_false (fun hlife => hbroken hlife.disciplined) has

/-- The network is up and a client connects. -/
def connecting : Stack where
  networkUp := true
  socket := .fresh
  bind := 0
  listen := 0
  accept := .fresh
  setsockopt := 0
  transfer := 4

/-- A trace of one write, and its end. -/
def oneTrace : List PortAction := [.io (.write connecting 4 0)] ++ [.traceEnd]

/-- A trace from its first write to its end. -/
theorem lifecycle_oneTrace : ∃ s, port.run oneTrace = some s ∧ Lifecycle s.state := by
  have halong : port.Along LeftAlone ([] ++ [.io (.write connecting 4 0)] ++ [.traceEnd]) := by
    refine Machine.along_concat.mpr ⟨Machine.along_concat.mpr ⟨Machine.along_nil, ?_⟩, ?_⟩
    · rintro s ⟨⟩ hended
      cases hended
    · rintro s ⟨⟩ hended
      cases hended
  have hsome : (port.run oneTrace).isSome := by decide
  have hrun : port.run oneTrace = some ((port.run oneTrace).get hsome) :=
    (Option.some_get hsome).symm
  exact ⟨_, hrun, (lifecycle_iff hrun).mpr halong⟩

/-- The recorder polls for commands after the end of a trace. -/
theorem read_after_trace_end :
    ∃ s, port.run [.io (.read connecting 4 0), .traceEnd, .io (.read connecting 4 0)] = some s ∧
      ¬ Lifecycle s.state := by
  refine ⟨_, rfl, fun h => ?_⟩
  have hlog : Disciplined
      (([.opened .server 0, .used 0, .used 0, .used 0, .opened .client 1, .used 1, .used 1,
        .closed 1, .closed 0] : List (Event Role ℕ)) ++ [.used 1]) := h.disciplined
  exact not_disciplined (by decide) (List.mem_singleton_self _) (.inl rfl) hlog

end Wallbot.Freertos
