import Wallbot.Lib.Fifo
import Wallbot.Lib.JsonText
import Wallbot.Lib.Machine
import Wallbot.WssPeripheral

namespace Wallbot.Wss

open JsonText

/-!
# Relay framing — the TCP server of `wss.py`

`ImuRelay` writes one JSON object per IMU message on a TCP connection, and the server takes what
each `recv` returns for one message.  The encoder and the decoder are parameters, with what is
relied on as `JsonContract`.

* `Server.recieve`, `Server.onmessage` — the loop of the server thread; an exception ends it.
* `server` — the machine of `recv` results and of messages popped by the peripheral.
* `delivered_iff` — the server hands on what was sent exactly when the stream happens to be cut
  between the objects.
* `relayText` — the text of a relay message, for examples.
-/

/-! ### The server thread -/

variable {μ δ : Type}

/-- A `put_nowait`: what is offered to the queue, how many messages it held, and whether it was
    taken or raised `Full`. -/
structure Offer (δ : Type) where
  data : δ
  queued : ℕ
  accepted : Bool
  deriving DecidableEq, Repr

/-- `g_msg_q`, what was offered to it, and whether the loop of `recieve` runs. -/
structure Server (δ : Type) where
  gMsgQ : Fifo δ 32
  offers : List (Offer δ)
  running : Bool

namespace Server

/-- A connection's thread before its first `recv`. -/
def start : Server δ where
  gMsgQ := .empty
  offers := []
  running := true

/-- The end of `ImuRelayServer.onmessage`: `put_nowait`, with `Full` caught. -/
def putNowait (s : Server δ) (data : δ) : Server δ :=
  match s.gMsgQ.put? data with
  | some q =>
    { s with
      gMsgQ := q
      offers := s.offers ++ [⟨data, s.gMsgQ.items.length, true⟩] }
  | none => { s with offers := s.offers ++ [⟨data, s.gMsgQ.items.length, false⟩] }

variable (jsonLoads : List Char → Option δ)

/-- `ImuRelayServer.onmessage`.  What `json.loads` raises is caught nowhere, so it ends the
    thread. -/
def onmessage (s : Server δ) (message : List Char) : Server δ :=
  match jsonLoads message with
  | some data => s.putNowait data
  | none => { s with running := false }

/-- A turn of the loop of `SocketServer.recieve`, with what `recv` returns. -/
def recieve (s : Server δ) (data : List Char) : Server δ :=
  if data = [] then { s with running := false }
  else s.onmessage jsonLoads data

end Server

/-- What the server thread and the register script do. -/
inductive ServerAction where
  /-- `client.recv(1024)` returns. -/
  | recv (data : List Char)
  /-- The peripheral pops a message. -/
  | pop
  deriving DecidableEq, Repr

/-- The interleavings of the server thread with the peripheral.  Once the thread has ended nobody
    receives. -/
def server (jsonLoads : List Char → Option δ) : Machine (Server δ) ServerAction where
  init := .start
  step s
    | .recv data => some (if s.running then s.recieve jsonLoads data else s)
    | .pop =>
      some
        (match s.gMsgQ.take? with
        | some (_, q) => { s with gMsgQ := q }
        | none => s)

/-- The successive results of `recv`. -/
def received (as : List ServerAction) : List (List Char) :=
  as.filterMap fun
    | .recv data => some data
    | .pop => none

/-- A `recv` more is a text more. -/
theorem received_concat_recv (as : List ServerAction) (data : List Char) :
    received (as ++ [.recv data]) = received as ++ [data] := by
  simp [received]

/-- The register script receives no text. -/
theorem received_concat_pop (as : List ServerAction) : received (as ++ [.pop]) = received as := by
  simp [received]

/-! ### What the thread hands on -/

/-- All of `msgs` were handed to the queue, in order and once each, and the thread goes on; only
    what met a full queue was dropped. -/
structure Delivered (dict : μ → δ) (msgs : List μ) (s : Server δ) : Prop where
  running : s.running = true
  handed : s.offers.map Offer.data = msgs.map dict
  accepted : s.gMsgQ.accepted = (s.offers.filter Offer.accepted).map Offer.data
  dropped : ∀ o ∈ s.offers, o.accepted = false → o.queued = 32

/-- What the thread has done with what it received. -/
structure Server.Inv (jsonLoads : List Char → Option δ) (as : List ServerAction)
    (s : Server δ) : Prop where
  running : s.running = true ↔ ∀ data ∈ received as, data ≠ [] ∧ (jsonLoads data).isSome
  handed : s.running = true → s.offers.map Offer.data = (received as).filterMap jsonLoads
  accepted : s.gMsgQ.accepted = (s.offers.filter Offer.accepted).map Offer.data
  dropped : ∀ o ∈ s.offers, o.accepted = false → o.queued = 32

namespace Server

variable {jsonLoads : List Char → Option δ} {as : List ServerAction} {s : Server δ}

/-- The invariant before the first `recv`. -/
theorem inv_start : (start : Server δ).Inv jsonLoads [] where
  running := by simp [start, received]
  handed := fun _ => rfl
  accepted := rfl
  dropped := by simp [start]

/-- One more offer, accepted unless the queue is full. -/
theorem putNowait_spec (s : Server δ) (data : δ) :
    ∃ accepted : Bool,
      (s.putNowait data).offers = s.offers ++ [⟨data, s.gMsgQ.items.length, accepted⟩] ∧
      (s.putNowait data).running = s.running ∧
      (s.putNowait data).gMsgQ.accepted = s.gMsgQ.accepted ++ (if accepted then [data] else []) ∧
      (accepted = false → s.gMsgQ.items.length = 32) := by
  unfold putNowait
  cases hput : s.gMsgQ.put? data with
  | some q => exact ⟨true, rfl, rfl, (Fifo.put?_eq_some hput).2.1, fun h => nomatch h⟩
  | none =>
    exact ⟨false, rfl, rfl, (List.append_nil _).symm, fun _ => Fifo.put?_eq_none_iff.mp hput⟩

/-- A text that is decoded is handed on. -/
theorem Inv.loaded (h : s.Inv jsonLoads as) (hrun : s.running = true) {text : List Char}
    (hne : text ≠ []) {data : δ} (hload : jsonLoads text = some data) :
    (s.putNowait data).Inv jsonLoads (as ++ [.recv text]) := by
  obtain ⟨accepted, hoffers, hrunning, haccepted, hfull⟩ := s.putNowait_spec data
  refine ⟨?_, ?_, ?_, ?_⟩
  · rw [hrunning, received_concat_recv]
    rw [List.forall_mem_append, List.forall_mem_singleton, hload]
    exact iff_of_true hrun ⟨h.running.mp hrun, hne, rfl⟩
  · intro _
    rw [hoffers, received_concat_recv, List.map_append, List.filterMap_append, h.handed hrun]
    simp [hload]
  · rw [haccepted, hoffers, h.accepted, List.filter_append, List.map_append]
    cases accepted <;> rfl
  · rw [hoffers, List.forall_mem_append, List.forall_mem_singleton]
    exact ⟨h.dropped, hfull⟩

/-- Anything else ends the thread, or finds it ended. -/
theorem Inv.stopped (h : s.Inv jsonLoads as) (text : List Char)
    (hbad : s.running = false ∨ ¬ (text ≠ [] ∧ (jsonLoads text).isSome)) :
    Inv jsonLoads (as ++ [.recv text]) { s with running := false } := by
  refine ⟨?_, (fun hfalse => nomatch hfalse), h.accepted, h.dropped⟩
  rw [received_concat_recv]
  refine iff_of_false (fun hfalse => nomatch hfalse) fun hall => ?_
  -- Had all results been texts, the thread would have been running and this one decoded.
  rcases hbad with hrun | hbad
  · have htrue : s.running = true :=
      h.running.mpr fun text' hmem => hall text' (List.mem_append_left _ hmem)
    rw [hrun] at htrue
    cases htrue
  · exact hbad (hall text (by simp))

/-- A `recv` keeps the invariant, whether its text is decoded or ends the thread. -/
theorem Inv.recv (h : s.Inv jsonLoads as) (text : List Char) :
    Inv jsonLoads (as ++ [.recv text]) (if s.running then s.recieve jsonLoads text else s) := by
  cases hrun : s.running with
  | false =>
    have hstopped := h.stopped text (.inl hrun)
    rw [← hrun] at hstopped
    exact hstopped
  | true =>
    rw [if_pos rfl]
    unfold recieve onmessage
    by_cases hne : text = []
    · rw [if_pos hne]
      exact h.stopped text (.inr fun hboth => hboth.1 hne)
    · rw [if_neg hne]
      cases hload : jsonLoads text with
      | none => exact h.stopped text (.inr (by simp [hload]))
      | some data => exact h.loaded hrun hne hload

/-- A pop takes an item and leaves the rest of the server alone. -/
theorem Inv.pop (h : s.Inv jsonLoads as) {s' : Server δ}
    (hs : (server jsonLoads).step s .pop = some s') : s'.Inv jsonLoads (as ++ [.pop]) := by
  have hsame : s'.running = s.running ∧ s'.offers = s.offers ∧
      s'.gMsgQ.accepted = s.gMsgQ.accepted := by
    simp only [server, Option.some.injEq] at hs
    cases htake : s.gMsgQ.take? with
    | none =>
      simp only [htake] at hs
      subst hs
      exact ⟨rfl, rfl, rfl⟩
    | some r =>
      obtain ⟨msg, q⟩ := r
      simp only [htake] at hs
      subst hs
      exact ⟨rfl, rfl, (Fifo.take?_eq_some htake).2.1⟩
  obtain ⟨hrunning, hoffers, haccepted⟩ := hsame
  refine ⟨?_, ?_, ?_, ?_⟩
  · rw [hrunning, received_concat_pop]
    exact h.running
  · rw [hrunning, hoffers, received_concat_pop]
    exact h.handed
  · rw [haccepted, hoffers]
    exact h.accepted
  · rw [hoffers]
    exact h.dropped

/-- The invariant holds in every run. -/
theorem inv_run (h : (server jsonLoads).run as = some s) : s.Inv jsonLoads as := by
  refine Machine.run_history (I := fun as s => s.Inv jsonLoads as) inv_start ?_ h
  intro as s a s' hinv hs
  cases a with
  | recv text =>
    cases hs
    exact hinv.recv text
  | pop => exact hinv.pop hs

end Server

/-! ### Framing -/

/-- What is relied on for the messages `msgs`: `json_printf` emits one object of at most 1024
    bytes, and `json.loads` decodes it and accepts nothing but single JSON texts. -/
structure JsonContract (jsonPrintf : μ → List Char) (jsonLoads : List Char → Option δ)
    (dict : μ → δ) (msgs : List μ) : Prop where
  object : ∀ msg ∈ msgs, Object (jsonPrintf msg)
  short : ∀ msg ∈ msgs, (jsonPrintf msg).length ≤ 1024
  loaded : ∀ msg ∈ msgs, jsonLoads (jsonPrintf msg) = some (dict msg)
  exact : ∀ text data, jsonLoads text = some data → Json .element text

/-- **Framing.**  However the stream of the encoded messages is cut into results of `recv`, and
    whenever the peripheral pops, the messages are delivered exactly when each result is one
    encoded message. -/
theorem delivered_iff {jsonPrintf : μ → List Char} {jsonLoads : List Char → Option δ}
    {dict : μ → δ} {msgs : List μ} (hjson : JsonContract jsonPrintf jsonLoads dict msgs)
    {as : List ServerAction} (hchunks : ∀ data ∈ received as, data ≠ [] ∧ data.length ≤ 1024)
    (hstream : (received as).flatten = (msgs.map jsonPrintf).flatten)
    {s : Server δ} (hrun : (server jsonLoads).run as = some s) :
    Delivered dict msgs s ↔ received as = msgs.map jsonPrintf := by
  have hinv := Server.inv_run hrun
  have hobjs : ∀ o ∈ msgs.map jsonPrintf, Object o := by
    intro o ho
    obtain ⟨msg, hmsg, rfl⟩ := List.mem_map.mp ho
    exact hjson.object msg hmsg
  constructor
  · -- Whatever was decoded was one text, so the stream was cut between the objects.
    intro h
    refine eq_of_flatten (fun data hdata => ?_) hobjs hstream
    obtain ⟨-, hsome⟩ := hinv.running.mp h.running data hdata
    obtain ⟨d, hd⟩ := Option.isSome_iff_exists.mp hsome
    exact hjson.exact data d hd
  · -- Each result is an encoded message, which is decoded as it should be.
    intro heq
    have hrunning : s.running = true := by
      refine hinv.running.mpr fun data hdata => ⟨(hchunks data hdata).1, ?_⟩
      rw [heq] at hdata
      obtain ⟨msg, hmsg, rfl⟩ := List.mem_map.mp hdata
      rw [hjson.loaded msg hmsg]
      rfl
    refine ⟨hrunning, ?_, hinv.accepted, hinv.dropped⟩
    calc s.offers.map Offer.data
        = msgs.filterMap (jsonLoads ∘ jsonPrintf) := by
          rw [hinv.handed hrunning, heq, List.filterMap_map]
      _ = msgs.filterMap (some ∘ dict) := List.filterMap_congr hjson.loaded
      _ = msgs.map dict := by rw [List.filterMap_eq_map]

/-! ### The text of a relay message -/

/-- A member with a plain value. -/
def member (blank key value : String) : List Char :=
  blank.toList ++ quote :: (key.toList ++ [quote]) ++ colon :: (" ".toList ++ value.toList)

/-- The object of the format of `msg_cb` as a plain printer would write it, with its keys quoted.
    It serves the runs below only: the results above are about any text that is an object. -/
def relayText (simTime seqnum bump wheelSpeed : String) : List Char :=
  openBrace ::
    ((member "" "sim_time" simTime ++ comma ::
      (member " " "seqnum" seqnum ++ comma ::
        (member " " "bump" bump ++ comma :: member " " "wheel_speed" wheelSpeed))) ++
      [closeBrace])

/-- A number or a literal. -/
def IsAtom (value : String) : Prop := value.toList ≠ [] ∧ ∀ c ∈ value.toList, IsPlain c

instance (value : String) : Decidable (IsAtom value) :=
  @instDecidableAnd _ _ inferInstance (List.decidableBAll IsPlain value.toList)

/-- A string that needs no escapes. -/
def IsKey (key : String) : Prop := ∀ c ∈ key.toList, c ≠ quote ∧ c ≠ backslash

instance (key : String) : Decidable (IsKey key) := List.decidableBAll _ key.toList

/-- Characters that need no escape are the body of a string. -/
theorem stringBody_of_forall {cs : List Char} (h : ∀ c ∈ cs, c ≠ quote ∧ c ≠ backslash) :
    StringBody cs := by
  induction cs with
  | nil => exact .nil
  | cons c cs ih =>
    obtain ⟨hq, hb⟩ := h c (List.mem_cons_self ..)
    exact .char hq hb (ih fun c' hc' => h c' (List.mem_cons_of_mem _ hc'))

/-- A key, a colon and a number make a member. -/
theorem json_member {blank key value : String} (hblank : Blank blank.toList)
    (hkey : IsKey key) (hvalue : IsAtom value) :
    Json .member (member blank key value) := by
  have hnil : Blank [] := by simp [Blank]
  have hspace : Blank " ".toList := by
    intro c hc
    rw [List.mem_singleton.mp hc]
    decide
  have h := Json.member hblank (stringBody_of_forall hkey) hnil
    (.element hspace (.atom hvalue.1 hvalue.2) hnil)
  simpa only [member, List.append_nil] using h

/-- It is an object. -/
theorem object_relayText {simTime seqnum bump wheelSpeed : String} (h₁ : IsAtom simTime)
    (h₂ : IsAtom seqnum) (h₃ : IsAtom bump) (h₄ : IsAtom wheelSpeed) :
    Object (relayText simTime seqnum bump wheelSpeed) := by
  have hempty : Blank "".toList := by
    intro c hc
    cases hc
  have hspace : Blank " ".toList := by
    intro c hc
    rw [List.mem_singleton.mp hc]
    decide
  refine ⟨.object ?_, rfl⟩
  refine .moreMembers (json_member hempty (by decide) h₁) ?_
  refine .moreMembers (json_member hspace (by decide) h₂) ?_
  exact .moreMembers (json_member hspace (by decide) h₃)
    (.oneMember (json_member hspace (by decide) h₄))

/-! ### Two messages -/

/-- Two readings. -/
inductive Sample where
  | first
  | second
  deriving DecidableEq, Repr

/-- Their texts. -/
def Sample.text : Sample → List Char
  | .first => relayText "5000000" "1" "0" "2.000000"
  | .second => relayText "105000000" "2" "1" "-0.500000"

/-- What `json.loads` makes of the texts. -/
def Sample.dict : Sample → Message Unit
  | .first => ⟨some 5000000, some 1, some 0, some 2, ()⟩
  | .second => ⟨some 105000000, some 2, some 1, some (-1 / 2), ()⟩

/-- `json.loads`, as far as the two texts go. -/
def sampleLoads (text : List Char) : Option (Message Unit) :=
  if text = Sample.text .first then some (Sample.dict .first)
  else if text = Sample.text .second then some (Sample.dict .second)
  else none

/-- Both texts are objects. -/
theorem object_sample (m : Sample) : Object m.text := by
  cases m with
  | first => exact object_relayText (by decide) (by decide) (by decide) (by decide)
  | second => exact object_relayText (by decide) (by decide) (by decide) (by decide)

/-- The two readings meet the contract. -/
theorem jsonContract_sample :
    JsonContract Sample.text sampleLoads Sample.dict [.first, .second] where
  object := fun m _ => object_sample m
  short := by decide
  loaded := by
    have hne : Sample.text .second ≠ Sample.text .first := by decide
    rintro (_ | _) -
    · exact if_pos rfl
    · exact (if_neg hne).trans (if_pos rfl)
  exact := by
    have helement (m : Sample) : Json .element m.text := by
      have hnil : Blank [] := by simp [Blank]
      have h := Json.element hnil (object_sample m).1 hnil
      rwa [List.nil_append, List.append_nil] at h
    intro text data hload
    unfold sampleLoads at hload
    split_ifs at hload with h₁ h₂
    · rw [h₁]
      exact helement .first
    · rw [h₂]
      exact helement .second

/-- A `recv` for each message delivers both. -/
theorem delivered_one_per_recv :
    ∃ s, (server sampleLoads).run [.recv (Sample.text .first), .pop, .recv (Sample.text .second)]
        = some s ∧
      Delivered Sample.dict [.first, .second] s := by
  have hchunks : ∀ data ∈ received [.recv (Sample.text .first), .pop, .recv (Sample.text .second)],
      data ≠ [] ∧ data.length ≤ 1024 := by decide
  exact ⟨_, rfl, (delivered_iff jsonContract_sample hchunks rfl rfl).mpr rfl⟩

/-- Two messages in one `recv` deliver neither of them and end the thread. -/
theorem coalesced_not_delivered :
    JsonContract Sample.text sampleLoads Sample.dict [.first, .second] ∧
    ∃ s, (server sampleLoads).run [.recv (Sample.text .first ++ Sample.text .second)] = some s ∧
      s.running = false ∧ s.offers = [] ∧ ¬ Delivered Sample.dict [.first, .second] s := by
  have hloads : sampleLoads (Sample.text .first ++ Sample.text .second) = none := by decide
  have hstep : Server.start.recieve sampleLoads (Sample.text .first ++ Sample.text .second) =
      { Server.start with running := false } := by
    rw [Server.recieve, if_neg (by decide), Server.onmessage, hloads]
  have hrun : (server sampleLoads).run [.recv (Sample.text .first ++ Sample.text .second)] =
      some { Server.start with running := false } := congrArg some hstep
  exact ⟨jsonContract_sample, _, hrun, rfl, rfl, fun h => nomatch h.running⟩

end Wallbot.Wss
