import Wallbot.ControlLoop

namespace Wallbot.Linux

/-!
# The control loop under arbitrary UDP traffic

What the loop makes of datagrams of any length and content.  Runs are restricted to
*traffic*: idle passes, interrupted `select` calls and datagrams, so that nothing but a
datagram can hurt the loop.

* `run_of_full_datagrams` — datagrams that fill the receive buffer never end the loop.
* `ignoresMalformed_iff` — exactly which traffic the loop survives while leaving its
  command alone on everything that is not a wheel-speed message: a datagram shorter than
  `WIRE_MSG_SIZE` aborts it (the assert looks at an `errno` that no call has set), and a
  longer one is cut to size and then taken for a message if its header fits.
-/

/-- The passes a run of UDP traffic is made of. -/
def Wake.isTraffic : Wake → Prop
  | .idle => True
  | .selectFails e => e = .eintr
  | .datagram _ => True
  | .recvFails _ => False
  | .stop => False

/-- Traffic, and a `recv` that finds nothing to take. -/
def Wake.continues (w : Wake) : Prop :=
  w.isTraffic ∨ w = .recvFails .eagain

/-- The first three bytes are those of a wheel-speed message. -/
def HeaderFits (payload : List UInt8) : Prop :=
  payload.take 3 = [wireMagic0, wireMagic1, wireTypeWheelSpeed]

/-- A wheel-speed message, by its bytes. -/
def WellFormed (payload : List UInt8) : Prop :=
  payload.length = wireMsgSize ∧ HeaderFits payload

instance (payload : List UInt8) : Decidable (HeaderFits payload) :=
  inferInstanceAs (Decidable (_ = _))

instance (payload : List UInt8) : Decidable (WellFormed payload) :=
  inferInstanceAs (Decidable (_ ∧ _))

/-- `duty`, the actuator's sequence number and the last commanded velocity are the same. -/
def SameCommand (s s' : LoopState) : Prop :=
  s'.duty = s.duty ∧ s'.actuator.seqnum = s.actuator.seqnum ∧
    s'.actuator.msg.linearX = s.actuator.msg.linearX

/-- Along `ws` the loop never aborts, and a datagram that is no wheel-speed message leaves
    the command alone. -/
def IgnoresMalformed (ws : List Wake) : Prop :=
  ∀ pre w, pre ++ [w] <+: ws →
    ∃ s s', controlLoop.run pre = some s ∧ controlLoop.run (pre ++ [w]) = some s' ∧
      s'.phase = .running ∧
      ∀ payload, w = .datagram payload → ¬ WellFormed payload → SameCommand s s'

/-! ### Invariants of traffic -/

/-- Under UDP traffic `errno` is never `EAGAIN`. -/
theorem loopPass_errno {s : LoopState} {w : Wake} (hw : w.isTraffic)
    (hs : s.errno = .zero ∨ s.errno = .eintr) :
    (loopPass s w).errno = .zero ∨ (loopPass s w).errno = .eintr := by
  cases w with
  | idle => exact hs
  | selectFails e =>
    cases hw
    exact .inr rfl
  | datagram payload =>
    rcases lt_or_ge payload.length wireMsgSize with hlt | hge
    · rw [loopPass_short_datagram s hlt]
      split <;> exact hs
    · rw [loopPass_datagram s hge, handleMsg_errno]
      exact hs
  | recvFails e => exact hw.elim
  | stop => exact hw.elim

/-- Along a run of traffic `errno` is never `EAGAIN`. -/
theorem run_errno {ws : List Wake} {s : LoopState} (hws : ∀ w ∈ ws, w.isTraffic)
    (h : controlLoop.run ws = some s) : s.errno = .zero ∨ s.errno = .eintr := by
  refine Machine.run_invariant (I := fun s => s.errno = .zero ∨ s.errno = .eintr)
    (.inl rfl) ?_ hws h
  intro s w s' hw hs hstep
  obtain ⟨-, rfl⟩ := controlLoop_step_eq_some.mp hstep
  exact loopPass_errno hw hs

/-- A pass without a short datagram keeps the loop running. -/
theorem loopPass_running {s : LoopState} {w : Wake} (hw : w.continues)
    (hlen : ∀ payload, w = .datagram payload → wireMsgSize ≤ payload.length)
    (hs : s.phase = .running) : (loopPass s w).phase = .running := by
  rcases hw with hw | rfl
  · cases w with
    | idle => exact hs
    | selectFails e => cases hw; exact hs
    | datagram payload =>
      rw [loopPass_datagram s (hlen payload rfl), handleMsg_phase]
      exact hs
    | recvFails e => exact hw.elim
    | stop => exact hw.elim
  · exact hs

/-- Passes without a short datagram never end the loop. -/
theorem run_of_full_datagrams {ws : List Wake} (hws : ∀ w ∈ ws, w.continues)
    (hlen : ∀ payload, .datagram payload ∈ ws → wireMsgSize ≤ payload.length) :
    ∃ s, controlLoop.run ws = some s ∧ s.phase = .running := by
  induction ws using List.reverseRecOn with
  | nil => exact ⟨mainStart, rfl, rfl⟩
  | append_singleton ws w ih =>
    obtain ⟨s, hs, hrun⟩ := ih (fun v hv => hws v (by simp [hv]))
      (fun p hp => hlen p (by simp [hp]))
    refine ⟨loopPass s w, Machine.runFrom_concat_eq_some.mpr ⟨s, hs, ?_⟩, ?_⟩
    · exact controlLoop_step_eq_some.mpr ⟨hrun, rfl⟩
    · exact loopPass_running (hws w (by simp)) (fun p hp => hlen p (by simp [hp])) hrun

/-! ### Malformed datagrams -/

/-- A message with a bad header leaves the command alone. -/
theorem sameCommand_of_fault (s : LoopState) {msg : WireMsg} (h : headerFault msg ≠ none) :
    SameCommand s (handleMsg s msg) := by
  obtain ⟨reason, hreason⟩ := Option.ne_none_iff_exists'.mp h
  rw [handleMsg_of_fault s hreason]
  exact ⟨rfl, rfl, rfl⟩

/-- A message with a good header is a command of its own. -/
theorem not_sameCommand_of_valid (s : LoopState) {msg : WireMsg} (h : headerFault msg = none) :
    ¬ SameCommand s (handleMsg s msg) := by
  rintro ⟨-, hseq, -⟩
  -- The actuator's counter would be its own successor.
  rw [handleMsg_of_valid s h] at hseq
  have hnat : (s.actuator.seqnum + 1).toNat = (s.actuator.seqnum.toNat + 1) % 2 ^ 32 := by
    rw [UInt32.toNat_add]; rfl
  have hlt := s.actuator.seqnum.toNat_lt
  rw [show s.actuator.seqnum + 1 = s.actuator.seqnum from hseq] at hnat
  omega

/-- The header tests look at the first three bytes. -/
theorem headerFault_seenMsg_iff {payload : List UInt8} (h : wireMsgSize ≤ payload.length) :
    headerFault (seenMsg payload) = none ↔ HeaderFits payload := by
  rw [wireMsgSize] at h
  obtain ⟨b0, b1, b2, rest, rfl⟩ : ∃ b0 b1 b2 rest, payload = b0 :: b1 :: b2 :: rest := by
    match payload, h with
    | b0 :: b1 :: b2 :: rest, _ => exact ⟨b0, b1, b2, rest, rfl⟩
  have hbytes : (seenMsg (b0 :: b1 :: b2 :: rest)).magic0 = b0 ∧
      (seenMsg (b0 :: b1 :: b2 :: rest)).magic1 = b1 ∧
      (seenMsg (b0 :: b1 :: b2 :: rest)).type = b2 := ⟨rfl, rfl, rfl⟩
  simp only [headerFault, hbytes, HeaderFits, List.take_succ_cons, List.take_zero,
    List.cons.injEq, and_true]
  by_cases h0 : b0 = wireMagic0 <;> by_cases h1 : b1 = wireMagic1 <;>
    by_cases h2 : b2 = wireTypeWheelSpeed <;> simp [h0, h1, h2]

/-- **Which traffic is ignored as required.**  The loop survives `ws` and ignores what is
    no wheel-speed message exactly when every datagram has `WIRE_MSG_SIZE` bytes, or more
    and then a header that does not fit. -/
theorem ignoresMalformed_iff {ws : List Wake} (hws : ∀ w ∈ ws, w.isTraffic) :
    IgnoresMalformed ws ↔
      ∀ payload, .datagram payload ∈ ws → payload.length = wireMsgSize ∨
        (wireMsgSize < payload.length ∧ ¬ HeaderFits payload) := by
  constructor
  · intro h payload hmem
    -- Stop the run at the datagram, and compare the states around it.
    obtain ⟨pre, post, rfl⟩ := List.append_of_mem hmem
    obtain ⟨s, s', hs, hs', hrun, hsame⟩ := h pre (.datagram payload) ⟨post, by simp⟩
    obtain ⟨t, ht, hstep⟩ := Machine.runFrom_concat_eq_some.mp hs'
    obtain rfl : s = t := Option.some.inj (hs.symm.trans ht)
    obtain ⟨-, rfl⟩ := controlLoop_step_eq_some.mp hstep
    rcases lt_trichotomy payload.length wireMsgSize with hlt | heq | hgt
    · -- Too short: the assert fails, because `errno` is not `EAGAIN`.
      have herr := run_errno (fun w hw => hws w (by simp [hw])) hs
      have hne : s.errno ≠ .eagain := by rcases herr with he | he <;> rw [he] <;> decide
      rw [loopPass_short_datagram s hlt, if_neg hne] at hrun
      cases hrun
    · exact .inl heq
    · -- Too long: the header decides, and a good one would have been a command.
      refine .inr ⟨hgt, fun hfits => ?_⟩
      rw [loopPass_datagram s hgt.le] at hsame
      exact not_sameCommand_of_valid s ((headerFault_seenMsg_iff hgt.le).mpr hfits)
        (hsame payload rfl fun hv => hgt.ne' hv.1)
  · intro h pre w hpre
    have hsub : ∀ v ∈ pre ++ [w], v ∈ ws := fun v hv => hpre.subset hv
    -- No datagram is short, so the loop is still running here.
    have hfull : ∀ payload, .datagram payload ∈ ws → wireMsgSize ≤ payload.length :=
      fun payload hp => (h payload hp).elim (fun heq => heq.ge) (fun hgt => hgt.1.le)
    obtain ⟨s', hs', hrun⟩ := run_of_full_datagrams (fun v hv => .inl (hws v (hsub v hv)))
      (fun p hp => hfull p (hsub _ hp))
    obtain ⟨s, hs, hstep⟩ := Machine.runFrom_concat_eq_some.mp hs'
    refine ⟨s, s', hs, hs', hrun, ?_⟩
    rintro payload rfl hinvalid
    obtain ⟨-, rfl⟩ := controlLoop_step_eq_some.mp hstep
    have hmem : .datagram payload ∈ ws := hsub _ (by simp)
    rw [loopPass_datagram s (hfull payload hmem)]
    apply sameCommand_of_fault
    rw [ne_eq, headerFault_seenMsg_iff (hfull payload hmem)]
    rcases h payload hmem with heq | hgt
    · exact fun hfits => hinvalid ⟨heq, hfits⟩
    · exact hgt.2

/-- A corrupt message among idle passes is ignored. -/
theorem corrupt_message_ignored :
    IgnoresMalformed [.idle, .datagram (List.replicate 11 0), .idle] := by
  refine (ignoresMalformed_iff ?_).mpr ?_
  · simp [Wake.isTraffic]
  · intro payload hmem
    obtain rfl : payload = List.replicate 11 0 := by simpa using hmem
    exact .inl rfl

/-- An empty datagram ends the loop. -/
theorem empty_datagram_aborts : ¬ IgnoresMalformed [.datagram []] := by
  intro h
  obtain ⟨-, s', -, hs', hrun, -⟩ := h [] (.datagram []) (List.prefix_refl _)
  obtain rfl : loopPass mainStart (.datagram []) = s' := Option.some.inj hs'
  cases hrun

end Wallbot.Linux
