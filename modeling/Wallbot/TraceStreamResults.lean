import Mathlib.Algebra.Order.Ring.Int
import Wallbot.TraceStreamPort

namespace Wallbot.Freertos

open Halting

/-!
# Results of the trace stream port

The recorder takes a return value of 0 for success and then trusts the count.  `Honoured` is
that contract for one call that returns; `ioPort` is the machine of all sequences of reads
and writes.

* `honoured_idle`, `honoured_transfer` — the two ways to keep it: to transfer nothing while
  nobody is connected, or to pass on what the stack answers.
* `resultContract_call_iff` — which calls keep it.  A read without a client leaves the caller's
  count as it was, and a write looks at the server socket where it should look at the client.
* `resultContract_iff` — the same for whole sequences of calls.
-/

/-- The calls of the stack between two states. -/
def newCalls (p p' : PortState) : List StackCall := p'.calls.drop p.calls.length

/-- The bytes that some calls transfer in all. -/
def transferred (calls : List StackCall) : ℤ :=
  ((calls.filterMap StackCall.transfer?).map fun ret => max ret.toInt 0).sum

/-- The contract of a call in state `p` that returned `r`. -/
structure Honoured (p : PortState) (r : Returned) : Prop where
  /-- A call that returns 0 has set the count to the bytes it transferred. -/
  counted : r.ret = 0 → r.count.toInt = transferred (newCalls p r.port)
  /-- Without a client it returns 0 and transfers nothing. -/
  noClient : r.port.gClientSocket = .invalid →
    r.ret = 0 ∧ ∀ c ∈ newCalls p r.port, c.transfer? = none
  /-- A negative answer of the stack is not taken for success. -/
  failed : ∀ c ∈ newCalls p r.port, ∀ ret, c.transfer? = some ret → ret < 0 → r.ret ≠ 0

/-- The call keeps the contract if it returns. -/
def ResultContract (p : PortState) (c : IoCall) : Prop :=
  ∀ r, c.run p = .ok r → Honoured p r

/-- What it takes to keep it: a client that is connected once the sockets are set up, a set-up
    that stops the firmware, a read that is not made or finds its count at 0, or a write
    before there is a server. -/
def Keeps (p : PortState) (c : IoCall) : Prop :=
  Connects c.stack p ∨ ServerFails c.stack p ∨
    match c with
    | .read _ size count => size = 0 ∨ count = 0
    | .write io _ _ => io.networkUp = false ∧ p.gServerSocket = .invalid

/-! ### What is transferred -/

variable {p p' : PortState} {ret v n : Int32}

/-- A set-up that returns has transferred nothing. -/
theorem onlySetup_of_ok {io : Stack} (h : initSockets io p = .ok p') : OnlySetup p p' := by
  have hends := initSockets_onlySetup io p
  rwa [h] at hends

/-- None of the calls of a set-up is a transfer. -/
theorem OnlySetup.newCalls_none (h : OnlySetup p p') : ∀ c ∈ newCalls p p', c.transfer? = none := by
  obtain ⟨setup, hcalls, hnone⟩ := h
  rw [newCalls, hcalls, List.drop_left]
  exact hnone

/-- A call after the set-up is the last of the new ones. -/
theorem OnlySetup.newCalls_call (h : OnlySetup p p') (c : StackCall) :
    newCalls p (p'.call c) = newCalls p p' ++ [c] := by
  obtain ⟨setup, hcalls, -⟩ := h
  rw [newCalls, newCalls, PortState.call, hcalls, List.append_assoc, List.drop_left, List.drop_left]

/-- Without a transfer nothing is transferred. -/
theorem transferred_of_none {calls : List StackCall} (h : ∀ c ∈ calls, c.transfer? = none) :
    transferred calls = 0 := by
  rw [transferred, List.filterMap_eq_nil_iff.mpr h]
  rfl

/-- A transfer counts what it returns, unless that is an error. -/
theorem transferred_concat {calls : List StackCall} {c : StackCall}
    (h : ∀ c ∈ calls, c.transfer? = none) (hc : c.transfer? = some ret) :
    transferred (calls ++ [c]) = max ret.toInt 0 := by
  rw [transferred, List.filterMap_append, List.filterMap_eq_nil_iff.mpr h, List.nil_append]
  simp [hc]

/-- Nothing was transferred: the contract asks for a count of 0. -/
theorem honoured_idle (h : OnlySetup p p') : Honoured p ⟨p', 0, n⟩ ↔ n = 0 := by
  have hnone := h.newCalls_none
  constructor
  · intro hr
    have hcount : n.toInt = 0 := (hr.counted rfl).trans (transferred_of_none hnone)
    exact Int32.toInt_inj.mp hcount
  · rintro rfl
    refine ⟨fun _ => (transferred_of_none hnone).symm, fun _ => ⟨rfl, hnone⟩, ?_⟩
    intro c hc ret hret
    rw [hnone c hc] at hret
    cases hret

/-- The stack was asked: its answer has to be passed on. -/
theorem honoured_transfer (h : OnlySetup p p') {c : StackCall} (hc : c.transfer? = some ret)
    (hclient : p'.gClientSocket ≠ .invalid) (hneg : ret < 0 → v ≠ 0)
    (hpos : 0 ≤ ret → n = ret) : Honoured p ⟨p'.call c, v, n⟩ := by
  have hnone := h.newCalls_none
  have hnew := h.newCalls_call c
  refine ⟨?_, fun hinv => absurd hinv hclient, ?_⟩
  · intro hv
    have hle : 0 ≤ ret := Int32.not_lt.mp fun hlt => hneg hlt hv
    have hint : (0 : ℤ) ≤ ret.toInt := Int32.le_iff_toInt_le.mp hle
    show n.toInt = transferred (newCalls p (p'.call c))
    rw [hnew, transferred_concat hnone hc, hpos hle, max_eq_left hint]
  · intro c' hc' ret' hret' hlt
    rw [show newCalls p (p'.call c) = _ from hnew] at hc'
    -- The set-up transferred nothing, so the negative answer is that of `c`.
    rcases List.mem_append.mp hc' with hold | hnew'
    · rw [hnone c' hold] at hret'
      cases hret'
    · rw [List.mem_singleton.mp hnew', hc] at hret'
      cases hret'
      exact hneg hlt

/-! ### Reads and writes -/

/-- A read keeps the contract if it has a client, or finds its count at 0. -/
theorem readReady_honoured {io : Stack} {size : UInt32} {count : Int32} (h : OnlySetup p p') :
    Honoured p (readReady io size count p') ↔ p'.gClientSocket ≠ .invalid ∨ count = 0 := by
  by_cases hclient : p'.gClientSocket = .invalid
  · rw [readReady, if_neg (not_not.mpr hclient), honoured_idle h]
    simp [hclient]
  · rw [readReady, if_pos hclient]
    refine iff_of_true ?_ (.inl hclient)
    dsimp only
    -- The three answers: the error of the stack, a byte count, any other negative value.
    split_ifs with herr hpos
    · refine honoured_transfer h rfl hclient (fun _ => by decide) fun hle => ?_
      rw [herr] at hle
      exact absurd hle (by decide)
    · refine honoured_transfer h rfl hclient (fun hlt => ?_) fun _ => rfl
      exact absurd hlt (Int32.not_lt.mpr hpos)
    · refine honoured_transfer h rfl hclient (fun hlt hzero => ?_) fun hle => absurd hle hpos
      rw [hzero] at hlt
      exact absurd hlt (by decide)

/-- A write keeps the contract if it has a client, or not even a server. -/
theorem writeReady_honoured {io : Stack} {size : UInt32} (h : OnlySetup p p') :
    Honoured p (writeReady io size p') ↔
      p'.gClientSocket ≠ .invalid ∨ p'.gServerSocket = .invalid := by
  by_cases hserver : p'.gServerSocket = .invalid
  · rw [writeReady, if_neg (not_not.mpr hserver), honoured_idle h]
    simp [hserver]
  · rw [writeReady, if_pos hserver]
    by_cases hclient : p'.gClientSocket = .invalid
    · -- The stack is asked to send to nobody.
      refine iff_of_false ?_ (by simp [hclient, hserver])
      dsimp only
      intro hr
      have hsend : StackCall.send p'.gClientSocket size io.transfer ∈
          newCalls p (p'.call (.send p'.gClientSocket size io.transfer)) := by
        rw [h.newCalls_call]
        simp
      split_ifs at hr with hneg
      · cases (hr.noClient hclient).2 _ hsend
      · cases (hr.noClient hclient).2 _ hsend
    · refine iff_of_true ?_ (.inl hclient)
      dsimp only
      split_ifs with hneg
      · refine honoured_transfer h rfl hclient (fun _ => by decide) fun hle => ?_
        exact absurd hneg (Int32.not_lt.mpr hle)
      · exact honoured_transfer h rfl hclient (fun hlt => absurd hlt hneg) fun _ => rfl

/-! ### All calls -/

/-- A call whose set-up is done returns `ready`: it keeps the contract if it would do so in
    whatever sockets the set-up leaves. -/
theorem honoured_iff_of_setup {io : Stack} {ready : PortState → Returned} {good : Prop}
    (hfails : ¬ ServerFails io p) (hconnects : Connects io p → good)
    (hready : ∀ p', initSockets io p = .ok p' → (Honoured p (ready p') ↔ good)) :
    (∀ r, (initSockets io p).map ready = .ok r → Honoured p r) ↔ good := by
  have hends := initSockets_ends hfails
  cases hinit : initSockets io p with
  | error p' =>
    -- Only the assertion on the client socket can have failed.
    rw [hinit] at hends
    exact iff_of_true (fun r hr => nomatch hr) (hconnects hends)
  | ok p' =>
    rw [← hready p' hinit]
    constructor
    · exact fun h => h _ rfl
    · rintro h r ⟨⟩
      exact h

/-- Which calls keep the contract. -/
theorem resultContract_call_iff (p : PortState) (c : IoCall) : ResultContract p c ↔ Keeps p c := by
  by_cases hfails : ServerFails c.stack p
  · -- The call does not return.
    refine iff_of_true ?_ (.inr (.inl hfails))
    obtain ⟨p', hinit⟩ := initSockets_of_serverFails hfails
    intro r hr
    cases c with
    | read io size count =>
      by_cases hsize : size = 0
      · rw [hsize] at hr
        cases hr
      · rw [IoCall.run, traceIoRead_eq hsize, show initSockets io p = _ from hinit] at hr
        cases hr
    | write io size count =>
      rw [IoCall.run, traceIoWrite_eq, show initSockets io p = _ from hinit] at hr
      cases hr
  · cases c with
    | read io size count =>
      by_cases hsize : size = 0
      · refine iff_of_true ?_ (.inr (.inr (.inl hsize)))
        intro r hr
        rw [hsize] at hr
        cases hr
      · have hkeeps : Keeps p (.read io size count) ↔ Connects io p ∨ count = 0 := by
          have hf : ¬ ServerFails io p := hfails
          simp [Keeps, IoCall.stack, hsize, hf]
        rw [hkeeps, ResultContract, IoCall.run, traceIoRead_eq hsize]
        refine honoured_iff_of_setup hfails .inl fun p' hinit => ?_
        have hends := initSockets_ends hfails
        rw [show initSockets (IoCall.stack (.read io size count)) p = _ from hinit] at hends
        rw [readReady_honoured (onlySetup_of_ok hinit), hends.1]
        rfl
    | write io size count =>
      have hkeeps : Keeps p (.write io size count) ↔
          Connects io p ∨ io.networkUp = false ∧ p.gServerSocket = .invalid := by
        have hf : ¬ ServerFails io p := hfails
        simp [Keeps, IoCall.stack, hf]
      rw [hkeeps, ResultContract, IoCall.run, traceIoWrite_eq]
      refine honoured_iff_of_setup hfails .inl fun p' hinit => ?_
      have hends := initSockets_ends hfails
      rw [show initSockets (IoCall.stack (.write io size count)) p = _ from hinit] at hends
      rw [writeReady_honoured (onlySetup_of_ok hinit), hends.1, hends.2]
      rfl

/-- The sequences of reads and writes; a failed assertion ends them. -/
def ioPort : Machine PortState IoCall where
  init := .start
  step p c :=
    match c.run p with
    | .ok r => some r.port
    | .error _ => none

/-- **The result contract.**  The calls of a sequence all keep it exactly when each finds what
    `Keeps` says. -/
theorem resultContract_iff (cs : List IoCall) :
    ioPort.Along ResultContract cs ↔ ioPort.Along Keeps cs := by
  have hcall : ResultContract = Keeps := by
    funext p c
    exact propext (resultContract_call_iff p c)
  rw [hcall]

/-- The network is up, and nobody has connected yet. -/
def nobodyYet : Stack where
  networkUp := true
  socket := .fresh
  bind := 0
  listen := 0
  accept := .null
  setsockopt := 0
  transfer := -128

/-- A first read then leaves the count at 7, and a first write sends to
    `FREERTOS_INVALID_SOCKET`. -/
theorem resultContract_nobodyYet :
    ¬ ioPort.Along ResultContract [.read nobodyYet 4 7] ∧
      ¬ ioPort.Along ResultContract [.write nobodyYet 4 0] := by
  constructor
  · intro h
    have hr := h [] (.read nobodyYet 4 7) (List.prefix_refl _) _ rfl _ rfl
    exact absurd (hr.counted rfl) (by decide)
  · intro h
    have hr := h [] (.write nobodyYet 4 0) (List.prefix_refl _) _ rfl _ rfl
    exact absurd (hr.noClient rfl).1 (by decide)

end Wallbot.Freertos
