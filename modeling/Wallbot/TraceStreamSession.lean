import Wallbot.TraceStreamLifecycle

namespace Wallbot.Freertos

open Halting

/-!
# The session of the trace stream port

The calls of the TCP stack have to come in a certain order: a server socket is bound before it
is told to listen and told to listen before it accepts, and data goes through the client.  `session` is the
automaton of that order, with the two liberties that the port takes: it writes to a client that
is not there yet, and it goes on with the sockets that the end of a trace has closed.

* `Settled.initSockets`, `Settled.run`, `Settled.traceEnd` — each function of the port makes its
  calls in that order, wherever an assertion stops it.
* `one_session` — so does every run; the first client that connects is the only one, and all that
  is read or written later goes through it, whatever the stack answers.
-/

/-- How far the session is. -/
inductive Session where
  | closed
  | created (server : Socket)
  | bound (server : Socket)
  | listening (server : Socket)
  | accepted (server client : Socket)
  | serving (server client : Socket)
  deriving DecidableEq, Repr

/-- The calls that are in order. -/
def Session.next : Session → StackCall → Option Session
  | .closed, .socket s => some (.created s)
  | .created server, .bind s port =>
    if s = server ∧ port = htons trcCfgStreamPortTcpipPort then some (.bound server) else none
  | .bound server, .listen s backlog =>
    if s = server ∧ backlog = serverBacklog then some (.listening server) else none
  | .listening server, .accept s ret =>
    if s = server then
      if ret.isHandle then some (.accepted server ret) else some (.listening server)
    else none
  -- A write without a client is made all the same.
  | .listening server, .send s _ _ => if s = .invalid then some (.listening server) else none
  | .listening server, .closesocket s => if s = server then some (.listening server) else none
  | .accepted server client, .setsockopt s =>
    if s = client then some (.serving server client) else none
  | .serving server client, .recv s _ _ =>
    if s = client then some (.serving server client) else none
  | .serving server client, .send s _ _ =>
    if s = client then some (.serving server client) else none
  | .serving server client, .closesocket s =>
    if s = client ∨ s = server then some (.serving server client) else none
  | _, _ => none

/-- The sequences of calls that are in order. -/
def session : Machine Session StackCall where
  init := .closed
  step := Session.next

/-- How far the static variables say that the session is. -/
def PortState.session (p : PortState) : Session :=
  if p.gServerSocket = .invalid then .closed
  else if p.gClientSocket = .invalid then .listening p.gServerSocket
  else .serving p.gServerSocket p.gClientSocket

variable {io : Stack} {p p' : PortState} {t : Session} {c : StackCall}

/-- The calls made so far are in order. -/
def InOrder (p : PortState) (t : Session) : Prop := Freertos.session.run p.calls = some t

/-- The next call of the session keeps the order. -/
theorem InOrder.call (h : InOrder p t) {t' : Session} (hnext : t.next c = some t') :
    InOrder (p.call c) t' := by
  rw [InOrder, PortState.call, Machine.run_concat h]
  exact hnext

/-- Between two calls of the port. -/
structure Settled (p : PortState) : Prop where
  inOrder : InOrder p p.session
  server : p.gServerSocket = .invalid → p.gClientSocket = .invalid
  client : p.gClientSocket ≠ .invalid → p.gClientSocket.isHandle = true
  port : p.sinPort = 0 ∨ p.sinPort = htons trcCfgStreamPortTcpipPort

/-- The firmware was stopped in the middle of the set-up. -/
def Stopped (p : PortState) : Prop := ∃ t, InOrder p t

/-- Before the first call. -/
theorem settled_start : Settled .start where
  inOrder := rfl
  server := fun _ => rfl
  client := fun h => absurd rfl h
  port := .inl rfl

/-! ### The set-up -/

/-- While the server socket is set up. -/
structure SetUp (p : PortState) (t : Session) : Prop where
  inOrder : InOrder p t
  client : p.gClientSocket = .invalid
  port : p.sinPort = htons trcCfgStreamPortTcpipPort

/-- The next call of the set-up. -/
theorem SetUp.call (h : SetUp p t) {t' : Session} (hnext : t.next c = some t') :
    SetUp (p.call c) t' :=
  ⟨h.inOrder.call hnext, h.client, h.port⟩

/-- A server that was told to listen is set up. -/
theorem SetUp.settled (h : SetUp p t) (ht : t = .listening p.gServerSocket)
    (hs : p.gServerSocket ≠ .invalid) : Settled p where
  inOrder := by
    rw [PortState.session, if_neg hs, if_pos h.client, ← ht]
    exact h.inOrder
  server := fun hinv => absurd hinv hs
  client := fun hne => absurd h.client hne
  port := .inr h.port

/-- The set-up begins with the socket, whatever the stack answers. -/
theorem createServer_setUp (h : InOrder p .closed) (hclient : p.gClientSocket = .invalid)
    (hport : p.sinPort = htons trcCfgStreamPortTcpipPort) (r : Reply) :
    SetUp (p.createServer r) (.created (p.createServer r).gServerSocket) := by
  refine ⟨?_, ?_, ?_⟩
  · rw [InOrder, createServer_calls, Machine.run_concat h]
    cases r <;> rfl
  · cases r <;> exact hclient
  · cases r <;> exact hport

/-- The server socket is set up in order. -/
theorem Settled.initServerSocket (h : Settled p) :
    Ends Stopped (fun p' => Settled p' ∧ p'.gServerSocket ≠ .invalid) (initServerSocket io p) := by
  unfold Freertos.initServerSocket
  set q := if p.sinPort = 0 then { p with sinPort := htons trcCfgStreamPortTcpipPort } else p
    with hq
  have hport : q.sinPort = htons trcCfgStreamPortTcpipPort := by
    rw [hq]
    split
    · rfl
    · rename_i hne
      exact h.port.resolve_left hne
  have hsettled : Settled q := by
    rw [hq]
    split
    · exact ⟨h.inOrder, h.server, h.client, .inr rfl⟩
    · exact h
  clear_value q
  by_cases hs : q.gServerSocket = .invalid
  · rw [if_pos hs]
    have hclosed : InOrder q .closed := by
      have hin := hsettled.inOrder
      rwa [PortState.session, if_pos hs] at hin
    -- The socket is created, bound, and listens, or an assertion fails on the way.
    have hcreated : SetUp (q.createServer io.socket)
        (.created (q.createServer io.socket).gServerSocket) :=
      createServer_setUp hclosed (hsettled.server hs) hport io.socket
    refine Ends.bind (J := fun p' => SetUp p' (.created p'.gServerSocket) ∧
      p'.gServerSocket ≠ .invalid) (configAssert_ends ?_ ?_) ?_
    · exact fun _ => ⟨_, hcreated.inOrder⟩
    · exact fun hc => ⟨hcreated, by simpa using hc⟩
    · rintro p₁ ⟨h₁, hs₁⟩
      have hbound : SetUp (p₁.call (.bind p₁.gServerSocket p₁.sinPort)) (.bound p₁.gServerSocket) :=
        h₁.call (if_pos ⟨rfl, h₁.port⟩)
      refine Ends.bind (J := fun p' => SetUp p' (.bound p'.gServerSocket) ∧
        p'.gServerSocket ≠ .invalid) (configAssert_ends ?_ ?_) ?_
      · exact fun _ => ⟨_, hbound.inOrder⟩
      · exact fun _ => ⟨hbound, hs₁⟩
      · rintro p₂ ⟨h₂, hs₂⟩
        have hlistens : SetUp (p₂.call (.listen p₂.gServerSocket serverBacklog))
            (.listening p₂.gServerSocket) := h₂.call (if_pos ⟨rfl, rfl⟩)
        refine configAssert_ends (fun _ => ⟨_, hlistens.inOrder⟩) fun _ => ⟨?_, hs₂⟩
        exact hlistens.settled rfl hs₂
  · rw [if_neg hs]
    exact ⟨hsettled, hs⟩

/-- The answer to an `accept`. -/
theorem acceptClient_cases (h : InOrder p (.listening p.gServerSocket)) (r : Reply) :
    (p.acceptClient r).sinPort = p.sinPort ∧
      (p.acceptClient r).gServerSocket = p.gServerSocket ∧
      ((p.acceptClient r).gClientSocket = .invalid ∧
          InOrder (p.acceptClient r) (.listening p.gServerSocket) ∨
        (p.acceptClient r).gClientSocket.isHandle = true ∧
          InOrder (p.acceptClient r)
            (.accepted p.gServerSocket (p.acceptClient r).gClientSocket)) := by
  have hin {t : Session} (hnext : (Session.listening p.gServerSocket).next
      (.accept p.gServerSocket (p.give r).2) = some t) : InOrder (p.acceptClient r) t := by
    rw [InOrder, acceptClient_calls, Machine.run_concat h]
    exact hnext
  cases r with
  | invalid => exact ⟨rfl, rfl, .inl ⟨rfl, hin (if_pos rfl)⟩⟩
  | null => exact ⟨rfl, rfl, .inl ⟨rfl, hin (if_pos rfl)⟩⟩
  | fresh => exact ⟨rfl, rfl, .inr ⟨rfl, hin (if_pos rfl)⟩⟩

/-- A client is accepted and set up in order, or nobody has connected. -/
theorem Settled.initClientSocket (h : Settled p) (hs : p.gServerSocket ≠ .invalid) :
    Ends Stopped Settled (initClientSocket io p) := by
  unfold Freertos.initClientSocket
  rw [configAssert, if_pos (by simpa using hs)]
  show Ends _ _ (if _ then _ else _)
  by_cases hclient : p.gClientSocket = .invalid
  · rw [if_pos hclient]
    have hlistens : InOrder p (.listening p.gServerSocket) := by
      have hin := h.inOrder
      rwa [PortState.session, if_neg hs, if_pos hclient] at hin
    obtain ⟨hport, hserver, haccepted⟩ := acceptClient_cases hlistens io.accept
    have hport' : (p.acceptClient io.accept).sinPort = 0 ∨
        (p.acceptClient io.accept).sinPort = htons trcCfgStreamPortTcpipPort := by
      rw [hport]
      exact h.port
    rcases haccepted with ⟨hnone, hin⟩ | ⟨hhandle, hin⟩
    · -- Nobody has connected.
      rw [if_neg (not_not.mpr hnone)]
      refine ⟨?_, fun hinv => absurd (hserver.symm.trans hinv) hs, fun hne => absurd hnone hne,
        hport'⟩
      rw [PortState.session, if_neg (hserver ▸ hs), if_pos hnone, hserver]
      exact hin
    · have hne : (p.acceptClient io.accept).gClientSocket ≠ .invalid := by
        intro hinv
        rw [hinv] at hhandle
        cases hhandle
      rw [if_pos hne]
      have hserves : InOrder ((p.acceptClient io.accept).call
          (.setsockopt (p.acceptClient io.accept).gClientSocket))
          (.serving p.gServerSocket (p.acceptClient io.accept).gClientSocket) :=
        hin.call (if_pos rfl)
      refine configAssert_ends (fun _ => ⟨_, hserves⟩) fun _ => ?_
      refine ⟨?_, fun hinv => absurd (hserver.symm.trans hinv) hs, fun _ => hhandle, hport'⟩
      · have hsession : ((p.acceptClient io.accept).call
            (.setsockopt (p.acceptClient io.accept).gClientSocket)).session =
            .serving p.gServerSocket (p.acceptClient io.accept).gClientSocket := by
          rw [PortState.session, if_neg (by exact hserver ▸ hs), if_neg (by exact hne)]
          exact congrArg (Session.serving · _) hserver
        rw [hsession]
        exact hserves
  · rw [if_neg hclient]
    exact h

/-- The whole set-up keeps the order, wherever it stops. -/
theorem Settled.initSockets (h : Settled p) : Ends Stopped Settled (initSockets io p) := by
  unfold Freertos.initSockets
  split
  · exact h.initServerSocket.bind fun p' hp' => hp'.1.initClientSocket hp'.2
  · exact h

/-! ### The functions of the port -/

/-- A call of the port in its session. -/
theorem Settled.call (h : Settled p) (hnext : p.session.next c = some p.session) :
    Settled (p.call c) :=
  ⟨h.inOrder.call hnext, h.server, h.client, h.port⟩

/-- With a server and no client the session waits for one. -/
theorem session_of_noClient (hs : p.gServerSocket ≠ .invalid) (hc : p.gClientSocket = .invalid) :
    p.session = .listening p.gServerSocket := by
  rw [PortState.session, if_neg hs, if_pos hc]

/-- With a client it serves it. -/
theorem session_of_client (h : Settled p) (hc : p.gClientSocket ≠ .invalid) :
    p.session = .serving p.gServerSocket p.gClientSocket := by
  rw [PortState.session, if_neg (mt h.server hc), if_neg hc]

/-- **Reads and writes** are in order. -/
theorem Settled.run (h : Settled p) (c : IoCall) :
    Ends Stopped (fun r => Settled r.port) (c.run p) := by
  cases c with
  | read io size count =>
    by_cases hsize : size = 0
    · rw [hsize]
      exact ⟨_, h.inOrder⟩
    · rw [IoCall.run, traceIoRead_eq hsize]
      refine h.initSockets.map fun p' h' => ?_
      rw [readReady_port]
      split
      · rename_i hc
        exact h'.call (by rw [session_of_client h' hc]; exact if_pos rfl)
      · exact h'
  | write io size count =>
    rw [IoCall.run, traceIoWrite_eq]
    refine h.initSockets.map fun p' h' => ?_
    rw [writeReady_port]
    split
    · rename_i hs
      by_cases hc : p'.gClientSocket = .invalid
      · exact h'.call (by rw [session_of_noClient hs hc]; exact if_pos hc)
      · exact h'.call (by rw [session_of_client h' hc]; exact if_pos rfl)
    · exact h'

/-- **The end of a trace** closes the sockets in order. -/
theorem Settled.traceEnd (h : Settled p) : Settled (xTraceStreamPortOnTraceEnd p) := by
  have hclient : Settled (p.close p.gClientSocket) := by
    unfold PortState.close
    split
    · rename_i hc
      exact h.call (by rw [session_of_client h hc]; exact if_pos (.inl rfl))
    · exact h
  unfold xTraceStreamPortOnTraceEnd
  dsimp only
  generalize p.close p.gClientSocket = q at hclient ⊢
  unfold PortState.close
  split
  · rename_i hs
    by_cases hc : q.gClientSocket = .invalid
    · exact hclient.call (by rw [session_of_noClient hs hc]; exact if_pos rfl)
    · exact hclient.call (by rw [session_of_client hclient hc]; exact if_pos (.inr rfl))
  · exact hclient

/-! ### What the order means -/

/-- A server socket is created. -/
def StackCall.isSocket : StackCall → Bool
  | .socket _ => true
  | _ => false

/-- The call is one of the client, or closes the server. -/
def StackCall.Serves (server client : Socket) : StackCall → Prop
  | .setsockopt s => s = client
  | .recv s _ _ => s = client
  | .send s _ _ => s = client
  | .closesocket s => s = client ∨ s = server
  | _ => False

/-- The server socket, once it listens. -/
def Session.server? : Session → Option Socket
  | .listening server => some server
  | .accepted server _ => some server
  | .serving server _ => some server
  | _ => none

/-- The client, once there is one. -/
def Session.client? : Session → Option Socket
  | .accepted _ client => some client
  | .serving _ client => some client
  | _ => none

variable {t' : Session} {calls post : List StackCall} {server client : Socket}

/-- A client stays, and serves. -/
theorem Session.next_of_client (hnext : t.next c = some t') (hserver : t.server? = some server)
    (hclient : t.client? = some client) :
    c.Serves server client ∧ t'.server? = some server ∧ t'.client? = some client := by
  cases t with
  | accepted server' client' =>
    cases hserver
    cases hclient
    -- Only the options of the client are set.
    cases c <;> simp [Session.next] at hnext
    obtain ⟨hs, rfl⟩ := hnext
    exact ⟨hs, rfl, rfl⟩
  | serving server' client' =>
    cases hserver
    cases hclient
    -- It is read from and written to, and the two are closed.
    cases c <;> simp [Session.next] at hnext
    all_goals
      obtain ⟨hs, rfl⟩ := hnext
      exact ⟨hs, rfl, rfl⟩
  | closed => cases hserver
  | created => cases hserver
  | bound => cases hserver
  | listening => cases hclient

/-- From then on every call is about this server and this client. -/
theorem serves_of_runFrom (h : session.runFrom t post = some t')
    (hserver : t.server? = some server) (hclient : t.client? = some client) :
    ∀ c ∈ post, c.Serves server client := by
  induction post generalizing t with
  | nil => nofun
  | cons c post ih =>
    rw [Machine.runFrom_cons] at h
    obtain ⟨t₁, hnext, hrest⟩ := Option.bind_eq_some_iff.mp h
    obtain ⟨hserves, hserver₁, hclient₁⟩ := Session.next_of_client hnext hserver hclient
    exact List.forall_mem_cons.mpr ⟨hserves, ih hrest hserver₁ hclient₁⟩

/-- A client is accepted by a server that listens, in the session's order. -/
theorem Session.next_accept {ret : Socket} (hret : ret.isHandle = true)
    (hnext : t.next (.accept server ret) = some t') :
    t = .listening server ∧ t' = .accepted server ret := by
  cases t <;> simp [Session.next, hret] at hnext
  obtain ⟨rfl, rfl⟩ := hnext
  exact ⟨rfl, rfl⟩

/-- The server socket is set up in three steps, and then stays. -/
theorem Session.next_cases (hnext : t.next c = some t') :
    (∃ s, t = .closed ∧ c = .socket s ∧ t' = .created s) ∨
      (∃ s, t = .created s ∧ c = .bind s (htons trcCfgStreamPortTcpipPort) ∧ t' = .bound s) ∨
      (∃ s, t = .bound s ∧ c = .listen s serverBacklog ∧ t' = .listening s) ∨
      ∃ s, t.server? = some s ∧ t'.server? = some s ∧ c.isSocket = false := by
  cases t with
  | closed =>
    cases c <;> simp [Session.next] at hnext
    exact .inl ⟨_, rfl, rfl, hnext.symm⟩
  | created s =>
    cases c <;> simp [Session.next] at hnext
    obtain ⟨⟨rfl, rfl⟩, rfl⟩ := hnext
    exact .inr (.inl ⟨_, rfl, rfl, rfl⟩)
  | bound s =>
    cases c <;> simp [Session.next] at hnext
    obtain ⟨⟨rfl, rfl⟩, rfl⟩ := hnext
    exact .inr (.inr (.inl ⟨_, rfl, rfl, rfl⟩))
  | listening s =>
    refine .inr (.inr (.inr ⟨s, rfl, ?_⟩))
    cases c <;> simp [Session.next] at hnext
    case accept =>
      obtain ⟨rfl, hret⟩ := hnext
      split at hret <;> cases hret <;> exact ⟨rfl, rfl⟩
    all_goals
      obtain ⟨-, rfl⟩ := hnext
      exact ⟨rfl, rfl⟩
  | accepted s client =>
    obtain ⟨hserves, hserver, -⟩ := Session.next_of_client hnext rfl rfl
    refine .inr (.inr (.inr ⟨s, rfl, hserver, ?_⟩))
    cases c <;> first | rfl | exact hserves.elim
  | serving s client =>
    obtain ⟨hserves, hserver, -⟩ := Session.next_of_client hnext rfl rfl
    refine .inr (.inr (.inr ⟨s, rfl, hserver, ?_⟩))
    cases c <;> first | rfl | exact hserves.elim

/-- The server socket of a session: there is one, which was bound before it was told to listen, and
    told to listen before it was used. -/
structure Prepared (calls : List StackCall) (t : Session) : Prop where
  sockets : calls.countP StackCall.isSocket = if t = .closed then 0 else 1
  bound : ∀ s, t = .bound s ∨ t.server? = some s →
    .bind s (htons trcCfgStreamPortTcpipPort) ∈ calls
  listens : ∀ s, t.server? = some s → .listen s serverBacklog ∈ calls

/-- The order of the session prepares its server socket. -/
theorem session_prepared (h : session.run calls = some t) : Prepared calls t := by
  refine Machine.run_history (I := Prepared) ⟨rfl, ?_, ?_⟩ ?_ h
  · rintro s (hs | hs) <;> cases hs
  · exact fun s hs => by cases hs
  · intro calls t c t' ih hnext
    rcases Session.next_cases hnext with ⟨s, rfl, rfl, rfl⟩ | ⟨s, rfl, rfl, rfl⟩ |
      ⟨s, rfl, rfl, rfl⟩ | ⟨s, hs, hs', hc⟩
    · refine ⟨?_, ?_, ?_⟩
      · rw [List.countP_append, ih.sockets]
        rfl
      · rintro s' (hs' | hs') <;> cases hs'
      · exact fun s' hs' => by cases hs'
    · refine ⟨?_, ?_, ?_⟩
      · rw [List.countP_append, ih.sockets]
        rfl
      · rintro s' (hs' | hs')
        · cases hs'
          exact List.mem_append_right _ (List.mem_singleton_self _)
        · cases hs'
      · exact fun s' hs' => by cases hs'
    · refine ⟨?_, ?_, ?_⟩
      · rw [List.countP_append, ih.sockets]
        rfl
      · rintro s' (hs' | hs')
        · cases hs'
        · cases hs'
          exact List.mem_append_left _ (ih.bound s (.inl rfl))
      · intro s' hs'
        cases hs'
        exact List.mem_append_right _ (List.mem_singleton_self _)
    · have hopen (u : Session) (hu : u.server? = some s) : u ≠ .closed := by
        rintro rfl
        cases hu
      refine ⟨?_, ?_, ?_⟩
      · rw [List.countP_append, ih.sockets, if_neg (hopen t hs), if_neg (hopen t' hs'),
          List.countP_singleton, hc]
        rfl
      · rintro s' (hs'' | hs'')
        · rw [hs''] at hs'
          cases hs'
        · rw [hs'', Option.some.injEq] at hs'
          exact List.mem_append_left _ (ih.bound s' (.inr (hs' ▸ hs)))
      · intro s' hs''
        rw [hs'', Option.some.injEq] at hs'
        exact List.mem_append_left _ (ih.listens s' (hs' ▸ hs))

/-! ### Whole runs -/

/-- What the state of a run says about its calls. -/
def Port.InSession (s : Port) : Prop :=
  if s.halted then Stopped s.state else Settled s.state

/-- A call of the port, or the end of a trace, keeps the session. -/
theorem Port.InSession.step {s s' : Port} {a : PortAction} (h : s.InSession)
    (hs : port.step s a = some s') : s'.InSession := by
  simp only [port, Option.ite_none_left_eq_some] at hs
  obtain ⟨hrunning, hs⟩ := hs
  rw [Port.InSession, if_neg hrunning] at h
  cases a with
  | io c =>
    have hends := h.run c
    cases hrun : c.run s.state with
    | ok r =>
      rw [hrun] at hends
      simp only [hrun, Option.some.injEq] at hs
      subst hs
      rw [Port.InSession, if_neg hrunning]
      exact hends
    | error p =>
      rw [hrun] at hends
      simp only [hrun, Option.some.injEq] at hs
      subst hs
      exact hends
  | traceEnd =>
    simp only [Option.some.injEq] at hs
    subst hs
    rw [Port.InSession, if_neg hrunning]
    exact h.traceEnd

/-- The calls of a run. -/
structure OneSession (calls : List StackCall) : Prop where
  /-- They come in the order of the session. -/
  inOrder : ∃ t, session.run calls = some t
  /-- No second server socket is created. -/
  oneServer : calls.countP StackCall.isSocket ≤ 1
  /-- A client that connects does so on a server that was bound to the port and told to listen
      before (the end of a trace may have closed it since), -/
  prepared : ∀ before server n after, calls = before ++ .accept server (.handle n) :: after →
    .bind server (htons trcCfgStreamPortTcpipPort) ∈ before ∧ .listen server serverBacklog ∈ before
  /-- and no call after that is about any other client. -/
  oneClient : ∀ before server n after, calls = before ++ .accept server (.handle n) :: after →
    ∀ c ∈ after, c.Serves server (.handle n)

/-- **One session.**  In every run of the port the calls of the stack come in order, and the first
    client that connects is the only one. -/
theorem one_session {as : List PortAction} {s : Port} (h : port.run as = some s) :
    OneSession s.state.calls := by
  have hsession : s.InSession :=
    Machine.run_history (I := fun _ s => s.InSession) settled_start
      (fun _ _ _ _ hs hstep => hs.step hstep) h
  obtain ⟨t, ht⟩ : ∃ t, session.run s.state.calls = some t := by
    unfold Port.InSession at hsession
    split at hsession
    · exact hsession
    · exact ⟨_, hsession.inOrder⟩
  -- An `accept` that gives a handle is made by a server that listens.
  have haccept (before : List StackCall) (server : Socket) (n : ℕ) (after : List StackCall)
      (hcalls : s.state.calls = before ++ .accept server (.handle n) :: after) :
      session.run before = some (.listening server) ∧
        session.runFrom (.accepted server (.handle n)) after = some t := by
    rw [hcalls, Machine.run, Machine.runFrom_append] at ht
    obtain ⟨t₀, hbefore, hrest⟩ := Option.bind_eq_some_iff.mp ht
    obtain ⟨t₁, hnext, hafter⟩ := Option.bind_eq_some_iff.mp hrest
    obtain ⟨rfl, rfl⟩ := Session.next_accept rfl hnext
    exact ⟨hbefore, hafter⟩
  refine ⟨⟨t, ht⟩, ?_, ?_, ?_⟩
  · rw [(session_prepared ht).sockets]
    split <;> decide
  · intro before server n after hcalls
    have hprepared := session_prepared (haccept before server n after hcalls).1
    exact ⟨hprepared.bound server (.inr rfl), hprepared.listens server rfl⟩
  · intro before server n after hcalls
    exact serves_of_runFrom (haccept before server n after hcalls).2 rfl rfl

/-- A client connects, is written to, and the trace ends; then it is read from again. -/
theorem one_session_oneTrace :
    ∃ s, port.run [.io (.write connecting 4 0), .traceEnd, .io (.read connecting 4 0)] = some s ∧
      OneSession s.state.calls := by
  have hsome : (port.run [.io (.write connecting 4 0), .traceEnd,
      .io (.read connecting 4 0)]).isSome := by decide
  exact ⟨_, (Option.some_get hsome).symm, one_session (Option.some_get hsome).symm⟩

end Wallbot.Freertos
