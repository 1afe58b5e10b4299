import Wallbot.Lib.Halting
import Wallbot.Lib.Machine

namespace Wallbot.Freertos

open Halting

/-!
# The trace stream port — `trcStreamPort.c`

The recorder reads and writes its stream through one server and one client socket, which both
functions create when they need them.

* `Socket`, `StackCall` — the sockets, and the calls of the TCP stack in the order they are
  made; `Stack` has the answers of the stack during one call of the port.
* `PortState` — the static variables.  A function of the port returns `Except.error` where a
  `configASSERT` stops the firmware, with the state it stops in.
* `initServerSocket`, `initClientSocket`, `traceIoRead`, `traceIoWrite`,
  `xTraceStreamPortOnTraceEnd` — the functions.
* `initSockets_ends` — which sockets there are after the set-up that reads and writes share.

The pointers that the functions check against `NULL` are those of the caller's variables, so
these checks are left out.
-/

/-! ### The TCP stack -/

/-- A `Socket_t`: `FREERTOS_INVALID_SOCKET`, `NULL`, or a handle.  Handles are numbered in the
    order in which the stack gives them out. -/
inductive Socket where
  | invalid
  | null
  | handle (n : ℕ)
  deriving DecidableEq, Repr

/-- What `FreeRTOS_socket` or `FreeRTOS_accept` returns. -/
inductive Reply where
  | invalid
  | null
  | fresh
  deriving DecidableEq, Repr

/-- The answers of the stack during one call of the port.  `transfer` is that of
    `FreeRTOS_recv` or `FreeRTOS_send`. -/
structure Stack where
  networkUp : Bool
  socket : Reply
  bind : Int32
  listen : Int32
  accept : Reply
  setsockopt : Int32
  transfer : Int32
  deriving DecidableEq, Repr

/-- The calls of the TCP stack, with the socket that each is about and what it returns. -/
inductive StackCall where
  | socket (ret : Socket)
  | bind (s : Socket) (port : UInt16)
  | listen (s : Socket) (backlog : ℕ)
  | accept (s : Socket) (ret : Socket)
  | setsockopt (s : Socket)
  | recv (s : Socket) (size : UInt32) (ret : Int32)
  | send (s : Socket) (size : UInt32) (ret : Int32)
  | closesocket (s : Socket)
  deriving DecidableEq, Repr

/-- `SERVER_BACKLOG` -/
def serverBacklog : ℕ := 1

/-- `TRC_CFG_STREAM_PORT_TCPIP_PORT` -/
def trcCfgStreamPortTcpipPort : UInt16 := 8888

/-- `FREERTOS_SOCKET_ERROR` -/
def freertosSocketError : Int32 := -1

/-- `FreeRTOS_htons` on the little-endian target. -/
def htons (x : UInt16) : UInt16 := (x <<< 8) ||| (x >>> 8)

/-! ### The port -/

/-- The static variables, with the calls made so far. -/
structure PortState where
  gServerSocket : Socket
  gClientSocket : Socket
  /-- `g_server_addr.sin_port` -/
  sinPort : UInt16
  nextHandle : ℕ
  calls : List StackCall
  deriving DecidableEq, Repr

namespace PortState

/-- The static variables as they are initialised. -/
def start : PortState where
  gServerSocket := .invalid
  gClientSocket := .invalid
  sinPort := 0
  nextHandle := 0
  calls := []

/-- The call is made, and noted. -/
def call (p : PortState) (c : StackCall) : PortState :=
  { p with calls := p.calls ++ [c] }

/-- The socket that a reply is, with the handle taken from the stock. -/
def give (p : PortState) : Reply → PortState × Socket
  | .invalid => (p, .invalid)
  | .null => (p, .null)
  | .fresh => ({ p with nextHandle := p.nextHandle + 1 }, .handle p.nextHandle)

end PortState

/-- `configASSERT`. -/
def configAssert (c : Bool) (p : PortState) : Except PortState PortState :=
  if c then .ok p else .error p

/-- `g_server_socket = FreeRTOS_socket(..)`. -/
def PortState.createServer (p : PortState) (r : Reply) : PortState :=
  let (p, s) := p.give r
  { p.call (.socket s) with gServerSocket := s }

/-- `g_client_socket = FreeRTOS_accept(g_server_socket, ..)`, and what follows for a timeout. -/
def PortState.acceptClient (p : PortState) (r : Reply) : PortState :=
  let (p, s) := p.give r
  let p := { p.call (.accept p.gServerSocket s) with gClientSocket := s }
  if p.gClientSocket = .null then { p with gClientSocket := .invalid } else p

/-- `init_server_socket`. -/
def initServerSocket (io : Stack) (p : PortState) : Except PortState PortState := do
  let p := if p.sinPort = 0 then { p with sinPort := htons trcCfgStreamPortTcpipPort } else p
  if p.gServerSocket = .invalid then
    let p := p.createServer io.socket
    let p ← configAssert (p.gServerSocket ≠ .invalid) p
    let p := p.call (.bind p.gServerSocket p.sinPort)
    let p ← configAssert (io.bind = 0) p
    let p := p.call (.listen p.gServerSocket serverBacklog)
    configAssert (io.listen = 0) p
  else
    return p

/-- `init_client_socket`. -/
def initClientSocket (io : Stack) (p : PortState) : Except PortState PortState := do
  let p ← configAssert (p.gServerSocket ≠ .invalid) p
  if p.gClientSocket = .invalid then
    let p := p.acceptClient io.accept
    if p.gClientSocket ≠ .invalid then
      configAssert (io.setsockopt = 0) (p.call (.setsockopt p.gClientSocket))
    else
      return p
  else
    return p

/-- The set-up that reads and writes share. -/
def initSockets (io : Stack) (p : PortState) : Except PortState PortState :=
  if io.networkUp then initServerSocket io p >>= initClientSocket io else .ok p

/-- What a read or a write returns, with the caller's count variable. -/
structure Returned where
  port : PortState
  ret : Int32
  count : Int32
  deriving DecidableEq, Repr

/-- `trace_io_read`; `count` is `*bytes_read` before the call. -/
def traceIoRead (io : Stack) (size : UInt32) (count : Int32) (p : PortState) :
    Except PortState Returned := do
  let p ← configAssert (size ≠ 0) p
  let p ← initSockets io p
  if p.gClientSocket ≠ .invalid then
    let p := p.call (.recv p.gClientSocket size io.transfer)
    let ret := io.transfer
    if ret = freertosSocketError then return ⟨p, -1, count⟩
    else if 0 ≤ ret then return ⟨p, 0, ret⟩
    else return ⟨p, ret, count⟩
  else
    return ⟨p, 0, count⟩

/-- `trace_io_write`. -/
def traceIoWrite (io : Stack) (size : UInt32) (p : PortState) : Except PortState Returned := do
  let p ← initSockets io p
  if p.gServerSocket ≠ .invalid then
    let p := p.call (.send p.gClientSocket size io.transfer)
    let ret := io.transfer
    if ret < 0 then return ⟨p, -1, 0⟩
    else return ⟨p, 0, ret⟩
  else
    return ⟨p, 0, 0⟩

/-- `if(s != FREERTOS_INVALID_SOCKET) { FreeRTOS_closesocket(s); }` -/
def PortState.close (p : PortState) (s : Socket) : PortState :=
  if s ≠ .invalid then p.call (.closesocket s) else p

/-- `xTraceStreamPortOnTraceEnd`, which always succeeds. -/
def xTraceStreamPortOnTraceEnd (p : PortState) : PortState :=
  let p := p.close p.gClientSocket
  p.close p.gServerSocket

/-- A call of `trace_io_read` or `trace_io_write`; `count` is the caller's variable. -/
inductive IoCall where
  | read (io : Stack) (size : UInt32) (count : Int32)
  | write (io : Stack) (size : UInt32) (count : Int32)
  deriving DecidableEq, Repr

/-- The call made; a write overwrites the count before anything else. -/
def IoCall.run (c : IoCall) (p : PortState) : Except PortState Returned :=
  match c with
  | .read io size count => traceIoRead io size count p
  | .write io size _ => traceIoWrite io size p

/-- The answers of the stack during the call. -/
def IoCall.stack : IoCall → Stack
  | .read io _ _ => io
  | .write io _ _ => io

/-! ### The set-up -/

/-- The bytes a call transfers, or its error. -/
def StackCall.transfer? : StackCall → Option Int32
  | .recv _ _ ret => some ret
  | .send _ _ ret => some ret
  | _ => none

/-- A call that only sets up a socket that is there already. -/
def StackCall.Configures : StackCall → Prop
  | .bind _ _ => True
  | .listen _ _ => True
  | .setsockopt _ => True
  | _ => False

/-- Configuring a socket transfers nothing. -/
theorem StackCall.Configures.transfer?_none {c : StackCall} (h : c.Configures) :
    c.transfer? = none := by
  cases c <;> first | rfl | exact h.elim

variable {io : Stack} {p p' : PortState}

/-- An assertion goes on where its condition holds, and stops the firmware elsewhere. -/
theorem configAssert_ends {c : Bool} {I : PortState → Prop} {J : PortState → Prop}
    (hfalse : c = false → I p) (htrue : c = true → J p) : Ends I J (configAssert c p) := by
  cases c with
  | false => exact hfalse rfl
  | true => exact htrue rfl

/-- **Invariants of the set-up.**  What each assignment and each configuring call keeps, the
    set-up keeps, wherever it stops. -/
theorem initSockets_invariant {I : PortState → Prop}
    (hport : ∀ p port, I p → I { p with sinPort := port })
    (hserver : ∀ p r, p.gServerSocket = .invalid → I p → I (p.createServer r))
    (hclient : ∀ p r, p.gServerSocket ≠ .invalid → p.gClientSocket = .invalid → I p →
      I (p.acceptClient r))
    (hcall : ∀ p c, c.Configures → I p → I (p.call c)) (hp : I p) :
    Ends I I (initSockets io p) := by
  have hinitServer : Ends I I (initServerSocket io p) := by
    unfold initServerSocket
    -- The port is filled in first, whether there is a socket or not.
    set q := if p.sinPort = 0 then { p with sinPort := htons trcCfgStreamPortTcpipPort } else p
      with hq
    have hIq : I q := by
      rw [hq]
      split
      · exact hport p _ hp
      · exact hp
    by_cases hs : q.gServerSocket = .invalid
    · rw [if_pos hs]
      have hcreated := hserver q io.socket hs hIq
      apply Ends.bind (configAssert_ends (fun _ => hcreated) fun _ => hcreated)
      · intro p₁ h₁
        have hbind := hcall p₁ (.bind p₁.gServerSocket p₁.sinPort) trivial h₁
        apply Ends.bind (configAssert_ends (fun _ => hbind) fun _ => hbind)
        intro p₂ h₂
        have hlisten := hcall p₂ (.listen p₂.gServerSocket serverBacklog) trivial h₂
        exact configAssert_ends (fun _ => hlisten) fun _ => hlisten
    · rw [if_neg hs]
      exact hIq
  unfold initSockets
  split
  · refine hinitServer.bind fun p₁ h₁ => ?_
    unfold initClientSocket
    -- The first assertion tells `hclient` that there is a server.
    refine Ends.bind (J := fun p' => I p' ∧ p'.gServerSocket ≠ .invalid)
      (configAssert_ends (fun _ => h₁) fun hs => ⟨h₁, by simpa using hs⟩) ?_
    rintro p₂ ⟨h₂, hs⟩
    by_cases hc : p₂.gClientSocket = .invalid
    · have h₃ := hclient p₂ io.accept hs hc h₂
      rw [if_pos hc]
      dsimp only
      split
      · have h₄ := hcall _ (.setsockopt (p₂.acceptClient io.accept).gClientSocket) trivial h₃
        exact configAssert_ends (fun _ => h₄) fun _ => h₄
      · exact h₃
    · rw [if_neg hc]
      exact h₂
  · exact hp

/-- From `p` to `p'` nothing was transferred. -/
def OnlySetup (p p' : PortState) : Prop :=
  ∃ setup, p'.calls = p.calls ++ setup ∧ ∀ c ∈ setup, c.transfer? = none

/-- No call is no transfer. -/
theorem OnlySetup.refl (p : PortState) : OnlySetup p p := ⟨[], by simp, by simp⟩

/-- One call more that transfers nothing. -/
theorem OnlySetup.of_calls {p'' : PortState} (h : OnlySetup p p') {c : StackCall}
    (hc : c.transfer? = none) (hcalls : p''.calls = p'.calls ++ [c]) : OnlySetup p p'' := by
  obtain ⟨setup, hsetup, hnone⟩ := h
  refine ⟨setup ++ [c], by rw [hcalls, hsetup, List.append_assoc], ?_⟩
  rw [List.forall_mem_append, List.forall_mem_singleton]
  exact ⟨hnone, hc⟩

/-- `createServer` makes one call. -/
@[simp] theorem createServer_calls (p : PortState) (r : Reply) :
    (p.createServer r).calls = p.calls ++ [.socket (p.give r).2] := by
  cases r <;> rfl

/-- `acceptClient` makes one call. -/
@[simp] theorem acceptClient_calls (p : PortState) (r : Reply) :
    (p.acceptClient r).calls = p.calls ++ [.accept p.gServerSocket (p.give r).2] := by
  cases r <;> rfl

/-- The set-up transfers nothing. -/
theorem initSockets_onlySetup (io : Stack) (p : PortState) :
    Ends (OnlySetup p) (OnlySetup p) (initSockets io p) := by
  refine initSockets_invariant (fun q port h => h) ?_ ?_ ?_ (OnlySetup.refl p)
  · exact fun q r _ h => h.of_calls rfl (createServer_calls q r)
  · exact fun q r _ _ h => h.of_calls rfl (acceptClient_calls q r)
  · exact fun q c hc h => h.of_calls hc.transfer?_none rfl

/-! ### Which sockets there are -/

/-- A client is connected once the set-up is done: there was one, or `FreeRTOS_accept` gives
    one. -/
def Connects (io : Stack) (p : PortState) : Prop :=
  p.gClientSocket ≠ .invalid ∨ io.networkUp = true ∧ io.accept = .fresh

/-- The set-up of the server socket stops in one of its assertions. -/
def ServerFails (io : Stack) (p : PortState) : Prop :=
  io.networkUp = true ∧ p.gServerSocket = .invalid ∧
    (io.socket = .invalid ∨ io.bind ≠ 0 ∨ io.listen ≠ 0)

/-- A server socket that exists is left alone. -/
theorem initServerSocket_of_stored (io : Stack) (h : p.gServerSocket ≠ .invalid) :
    ∃ p', initServerSocket io p = .ok p' ∧ p'.gServerSocket = p.gServerSocket ∧
      p'.gClientSocket = p.gClientSocket ∧ p'.calls = p.calls := by
  unfold initServerSocket
  by_cases hport : p.sinPort = 0
  · simp only [if_pos hport, if_neg h]
    exact ⟨_, rfl, rfl, rfl, rfl⟩
  · simp only [if_neg hport, if_neg h]
    exact ⟨_, rfl, rfl, rfl, rfl⟩

/-- Otherwise it is created, or an assertion fails. -/
theorem initServerSocket_of_invalid (io : Stack) (h : p.gServerSocket = .invalid) :
    Ends
      (fun _ => io.socket = .invalid ∨ io.bind ≠ 0 ∨ io.listen ≠ 0)
      (fun p' => ¬ (io.socket = .invalid ∨ io.bind ≠ 0 ∨ io.listen ≠ 0) ∧
        p'.gServerSocket ≠ .invalid ∧ p'.gClientSocket = p.gClientSocket)
      (initServerSocket io p) := by
  have hcreated (q : PortState) :
      ((q.createServer io.socket).gServerSocket = .invalid ↔ io.socket = .invalid) ∧
        (q.createServer io.socket).gClientSocket = q.gClientSocket := by
    cases io.socket <;> simp [PortState.createServer, PortState.give, PortState.call]
  unfold initServerSocket
  set q := if p.sinPort = 0 then { p with sinPort := htons trcCfgStreamPortTcpipPort } else p
    with hq
  have hqp : q.gServerSocket = .invalid ∧ q.gClientSocket = p.gClientSocket := by
    rw [hq]
    split <;> exact ⟨h, rfl⟩
  rw [if_pos hqp.1]
  -- configASSERT(g_server_socket != FREERTOS_INVALID_SOCKET).
  refine Ends.bind (J := fun p' => io.socket ≠ .invalid ∧ p'.gServerSocket ≠ .invalid ∧
    p'.gClientSocket = p.gClientSocket) (configAssert_ends ?_ ?_) ?_
  · exact fun hc => .inl ((hcreated q).1.mp (by simpa using hc))
  · intro hc
    have hs : (q.createServer io.socket).gServerSocket ≠ .invalid := by simpa using hc
    exact ⟨mt (hcreated q).1.mpr hs, hs, (hcreated q).2.trans hqp.2⟩
  · rintro p₁ ⟨hsocket, hs, hclient⟩
    -- configASSERT(status == 0), after the bind and after the listen.
    refine Ends.bind (J := fun p' => io.bind = 0 ∧ p'.gServerSocket ≠ .invalid ∧
      p'.gClientSocket = p.gClientSocket) (configAssert_ends ?_ ?_) ?_
    · exact fun hc => .inr (.inl (by simpa using hc))
    · exact fun hc => ⟨by simpa using hc, hs, hclient⟩
    · rintro p₂ ⟨hbind, hs₂, hclient₂⟩
      apply configAssert_ends
      · exact fun hc => .inr (.inr (by simpa using hc))
      · intro hc
        have hlisten : io.listen = 0 := by simpa using hc
        exact ⟨by simp [hsocket, hbind, hlisten], hs₂, hclient₂⟩

/-- With a server socket, the client socket is there already, or accepted, or there is none. -/
theorem initClientSocket_ends (io : Stack) (h : p.gServerSocket ≠ .invalid) :
    Ends
      (fun _ => p.gClientSocket ≠ .invalid ∨ io.accept = .fresh)
      (fun p' => (p'.gClientSocket ≠ .invalid ↔ p.gClientSocket ≠ .invalid ∨ io.accept = .fresh) ∧
        p'.gServerSocket ≠ .invalid)
      (initClientSocket io p) := by
  have haccepted : ((p.acceptClient io.accept).gClientSocket ≠ .invalid ↔ io.accept = .fresh) ∧
      (p.acceptClient io.accept).gServerSocket = p.gServerSocket := by
    cases io.accept <;> simp [PortState.acceptClient, PortState.give, PortState.call]
  unfold initClientSocket
  rw [configAssert, if_pos (by simpa using h)]
  show Ends _ _ (if _ then _ else _)
  by_cases hclient : p.gClientSocket = .invalid
  · rw [if_pos hclient]
    split
    · -- A client was accepted, and only its `setsockopt` is left to fail.
      rename_i hfresh
      have hio := haccepted.1.mp hfresh
      refine configAssert_ends (fun _ => .inr hio) fun _ => ⟨?_, ?_⟩
      · exact iff_of_true hfresh (.inr hio)
      · exact haccepted.2 ▸ h
    · -- Nobody has connected within the timeout.
      rename_i hnone
      refine ⟨iff_of_false hnone ?_, haccepted.2 ▸ h⟩
      rintro (hne | hio)
      · exact hne hclient
      · exact hnone (haccepted.1.mpr hio)
  · rw [if_neg hclient]
    exact ⟨iff_of_true hclient (.inl hclient), h⟩

/-- A server socket that cannot be set up stops the firmware. -/
theorem initSockets_of_serverFails (h : ServerFails io p) :
    ∃ p', initSockets io p = .error p' := by
  obtain ⟨hup, hserver, hfails⟩ := h
  have hends := initServerSocket_of_invalid io hserver
  rw [initSockets, if_pos hup]
  cases hinit : initServerSocket io p with
  | error p' => exact ⟨p', rfl⟩
  | ok p' =>
    rw [hinit] at hends
    exact absurd hfails hends.1

/-- Otherwise it is known which sockets there are afterwards. -/
theorem initSockets_ends (h : ¬ ServerFails io p) :
    Ends
      (fun _ => Connects io p)
      (fun p' => (p'.gClientSocket ≠ .invalid ↔ Connects io p) ∧
        (p'.gServerSocket = .invalid ↔ io.networkUp = false ∧ p.gServerSocket = .invalid))
      (initSockets io p) := by
  unfold initSockets
  by_cases hup : io.networkUp = true
  · rw [if_pos hup]
    have hconnects : Connects io p ↔ p.gClientSocket ≠ .invalid ∨ io.accept = .fresh := by
      simp [Connects, hup]
    -- With the failures excluded, the set-up of the server does not stop.
    have hserver : Ends (fun _ => False)
        (fun p' => p'.gServerSocket ≠ .invalid ∧ p'.gClientSocket = p.gClientSocket)
        (initServerSocket io p) := by
      by_cases hs : p.gServerSocket = .invalid
      · apply (initServerSocket_of_invalid io hs).mono
        · exact fun _ hfails => h ⟨hup, hs, hfails⟩
        · exact fun _ hp' => hp'.2
      · obtain ⟨p', hinit, hserver, hclient, -⟩ := initServerSocket_of_stored io hs
        rw [hinit]
        exact ⟨by rwa [hserver], hclient⟩
    refine (hserver.mono (fun _ => False.elim) (fun _ hp' => hp')).bind ?_
    rintro p₁ ⟨hs₁, hc₁⟩
    have hends := initClientSocket_ends io hs₁
    rw [hc₁, ← hconnects] at hends
    refine hends.mono (fun _ hp' => hp') ?_
    rintro p' ⟨hclient, hs'⟩
    exact ⟨hclient, by simp [hs', hup]⟩
  · rw [if_neg hup]
    rw [Bool.not_eq_true] at hup
    exact ⟨by simp [Connects, hup], by simp [hup]⟩

/-! ### Reads and writes after the set-up -/

/-- A read once the sockets are set up. -/
def readReady (io : Stack) (size : UInt32) (count : Int32) (p : PortState) : Returned :=
  if p.gClientSocket ≠ .invalid then
    let p := p.call (.recv p.gClientSocket size io.transfer)
    let ret := io.transfer
    if ret = freertosSocketError then ⟨p, -1, count⟩
    else if 0 ≤ ret then ⟨p, 0, ret⟩
    else ⟨p, ret, count⟩
  else ⟨p, 0, count⟩

/-- A read is the set-up, then the transfer. -/
theorem traceIoRead_eq {io : Stack} {size : UInt32} {count : Int32} (hsize : size ≠ 0) :
    traceIoRead io size count p = (initSockets io p).map (readReady io size count) := by
  unfold traceIoRead
  rw [configAssert, if_pos (by simpa using hsize)]
  show (initSockets io p >>= _) = _
  cases initSockets io p with
  | error p' => rfl
  | ok p' =>
    show (if _ then _ else _) = Except.ok (readReady io size count p')
    simp only [readReady]
    split_ifs <;> rfl

/-- The transfer is one `recv`, if there is a client. -/
theorem readReady_port (io : Stack) (size : UInt32) (count : Int32) (p : PortState) :
    (readReady io size count p).port =
      if p.gClientSocket ≠ .invalid then p.call (.recv p.gClientSocket size io.transfer) else p := by
  simp only [readReady]
  split_ifs <;> rfl

/-- A write once the sockets are set up. -/
def writeReady (io : Stack) (size : UInt32) (p : PortState) : Returned :=
  if p.gServerSocket ≠ .invalid then
    let p := p.call (.send p.gClientSocket size io.transfer)
    let ret := io.transfer
    if ret < 0 then ⟨p, -1, 0⟩ else ⟨p, 0, ret⟩
  else ⟨p, 0, 0⟩

/-- A write is the set-up, then the transfer. -/
theorem traceIoWrite_eq {io : Stack} {size : UInt32} :
    traceIoWrite io size p = (initSockets io p).map (writeReady io size) := by
  unfold traceIoWrite
  cases initSockets io p with
  | error p' => rfl
  | ok p' =>
    show (if _ then _ else _) = Except.ok (writeReady io size p')
    simp only [writeReady]
    split_ifs <;> rfl

/-- The transfer is one `send`, if there is a server: the slip of the guard. -/
theorem writeReady_port (io : Stack) (size : UInt32) (p : PortState) :
    (writeReady io size p).port =
      if p.gServerSocket ≠ .invalid then p.call (.send p.gClientSocket size io.transfer) else p := by
  simp only [writeReady]
  split_ifs <;> rfl

/-- The call passes its check of the size. -/
def IoCall.Checked : IoCall → Prop
  | .read _ size _ => size ≠ 0
  | .write _ _ _ => True

/-- **Invariants of reads and writes**: what the set-up keeps and no transfer hurts. -/
theorem IoCall.run_ends {I : PortState → Prop} {c : IoCall} (hunchecked : ¬ c.Checked → I p)
    (hrecv : ∀ p' s size ret, I p' → I (p'.call (.recv s size ret)))
    (hsend : ∀ p' s size ret, I p' → I (p'.call (.send s size ret)))
    (hinit : Ends I I (initSockets c.stack p)) : Ends I (fun r => I r.port) (c.run p) := by
  cases c with
  | read io size count =>
    by_cases hsize : size = 0
    · rw [hsize]
      exact hunchecked (not_not.mpr hsize)
    · rw [IoCall.run, traceIoRead_eq hsize]
      refine hinit.map fun p' h' => ?_
      rw [readReady_port]
      split
      · exact hrecv _ _ _ _ h'
      · exact h'
  | write io size count =>
    rw [IoCall.run, traceIoWrite_eq]
    refine hinit.map fun p' h' => ?_
    rw [writeReady_port]
    split
    · exact hsend _ _ _ _ h'
    · exact h'

end Wallbot.Freertos
