import Wallbot.ImuRelay
import Wallbot.Lib.JsonScalar
import Wallbot.RelayFraming

namespace Wallbot

open JsonText Wss

/-!
# The relay's messages as JSON — `ImuRelay.cc` to `wss.py`

`msg_cb` prints four numbers, `onmessage` decodes them with `json.loads`, and the request handler
looks them up by their keys.  `json_printf` is a parameter, of which no more is relied on than that
it prints an object of four words; `json.loads` is the parser `jsonLoads`.

* `Printed` — what `%lf` makes of a double, which is no JSON when the double is not finite.
* `Prints`, `jsonLoads` — what is relied on for the text, and how it is read.
* `jsonLoads_text`, `jsonLoads_eq_none` — finite readings are decoded to what the plugin meant,
  and no others are decoded at all.
* `recieve_turn` — what a turn of the server thread makes of the stream.
* `relay_round_trip` — with one message in each `recv`, what is handed on is exactly what came
  before the first reading that is not finite.
* `relay_framing` — finite readings reach the queue exactly when no `recv` cuts or joins them.
-/

/-! ### What the plugin prints -/

/-- The words of `%lf`: six decimals, `inf` or `nan`. -/
inductive Printed where
  | fixed (negative : Bool) (millionths : ℕ)
  | infinity (negative : Bool)
  | nan (negative : Bool)

namespace Printed

/-- How it is spelled. -/
def text : Printed → List Char
  | .fixed negative millionths =>
    spell negative (Nat.toDigits 10 (millionths / 10 ^ 6)) (fixedDigits 6 millionths)
  | .infinity negative => (if negative then ['-'] else []) ++ "inf".toList
  | .nan negative => (if negative then ['-'] else []) ++ "nan".toList

/-- The number, if it is one. -/
def value? : Printed → Option ℚ
  | .fixed negative millionths => some (signed negative (millionths / 10 ^ 6))
  | .infinity _ | .nan _ => none

end Printed

/-- What a call of `msg_cb` prints: the latch and the data of the message.  The sequence number is
    the text of an integer. -/
structure Reading where
  relay : Relay
  sec : ℤ
  nsec : ℤ
  nativeSeqnum : ℤ
  angularVelocityZ : Printed

/-- The code units of a key. -/
def units (key : String) : List ℕ := key.toList.map Char.toNat

namespace Reading

/-- `ts_ns`. -/
def tsNs (r : Reading) : UInt64 :=
  UInt64.ofInt r.sec * 1000000000 + UInt64.ofInt r.nsec

/-- `bump_detected ? 1 : 0`. -/
def bump (r : Reading) : ℤ := if r.relay.bumpDetected then 1 else 0

/-- The keys of the format, with what `%llu`, `%s`, `%d` and `%lf` make of the arguments. -/
def words (r : Reading) : List (String × List Char) :=
  [("sim_time", (toString (r.tsNs.toNat : ℤ)).toList),
    ("seqnum", (toString r.nativeSeqnum).toList),
    ("bump", (toString r.bump).toList),
    ("wheel_speed", r.angularVelocityZ.text)]

/-- The object of these words. -/
def printed (r : Reading) : Value (List Char) (List ℕ) :=
  .object (r.words.map fun p => (units p.1, .atom p.2))

/-- The message that is meant, if the velocity is a number. -/
def encode? (r : Reading) : Option (Message Unit) :=
  r.angularVelocityZ.value?.map fun v =>
    r.relay.encode ⟨r.sec, r.nsec, r.nativeSeqnum, v⟩ ()

/-- A finite reading. -/
def isFinite (r : Reading) : Bool := r.encode?.isSome

end Reading

/-- What is relied on for `json_printf`: for each of these readings it prints an object that has the
    keys of the format, quoted, and the words that `printf` makes of the arguments.  Where it puts
    white space is left open. -/
def Prints (jsonPrintf : Reading → List Char) (rs : List Reading) : Prop :=
  ∀ r ∈ rs, Denotes some readString .value (jsonPrintf r) r.printed

/-! ### What the server reads -/

/-- What `json.loads` returns, with its strings as code units and its floating point numbers as
    the decimal numbers they are read from. -/
abbrev Loaded := Value Scalar (List ℕ)

/-- `json.loads`. -/
def jsonLoads : List Char → Option Loaded := loads readScalar readString

/-- `data[key]`: the last member of that key. -/
def Loaded.get? (key : String) : Loaded → Option Loaded
  | .object ms => ((ms.filter (·.1 = units key)).getLast?).map (·.2)
  | _ => none

/-- A whole number. -/
def Loaded.int? : Loaded → Option ℤ
  | .atom (.int n) => some n
  | _ => none

/-- A number of either kind. -/
def Loaded.number? : Loaded → Option ℚ
  | .atom (.int n) => some n
  | .atom (.float q) => some q
  | _ => none

/-- The four numbers that the request handler looks up. -/
def Loaded.message (data : Loaded) : Message Unit where
  simTime := (data.get? "sim_time").bind int?
  seqnum := (data.get? "seqnum").bind int?
  bump := (data.get? "bump").bind int?
  wheelSpeed := (data.get? "wheel_speed").bind number?
  origin := ()

/-- The object of the four numbers. -/
def relayObject (simTime seqnum bump wheelSpeed : Scalar) : Loaded :=
  .object
    [(units "sim_time", .atom simTime), (units "seqnum", .atom seqnum),
      (units "bump", .atom bump), (units "wheel_speed", .atom wheelSpeed)]

/-- What the text of a finite reading is decoded to. -/
def Reading.object (r : Reading) (v : ℚ) : Loaded :=
  relayObject (.int r.tsNs.toNat) (.int r.nativeSeqnum) (.int r.bump) (.float v)

/-! ### The text and its value -/

/-- The four keys of the object give the message. -/
theorem message_relayObject (simTime seqnum bump : ℤ) (wheelSpeed : ℚ) :
    (relayObject (.int simTime) (.int seqnum) (.int bump) (.float wheelSpeed)).message =
      ⟨some simTime, some seqnum, some bump, some wheelSpeed, ()⟩ := by
  rfl

namespace Printed

/-- A number is read as it is meant. -/
theorem readScalar_text {z : Printed} {v : ℚ} (h : z.value? = some v) :
    readScalar z.text = some (.float v) := by
  cases z with
  | fixed negative millionths =>
    cases h
    exact readScalar_fixed negative 6 millionths (by decide)
  | infinity negative => cases h
  | nan negative => cases h

/-- `inf` and `nan` are no words of JSON. -/
theorem readScalar_text_eq_none {z : Printed} (h : z.value? = none) :
    readScalar z.text = none := by
  cases z with
  | fixed negative millionths => cases h
  | infinity negative => cases negative <;> decide
  | nan negative => cases negative <;> decide

end Printed

namespace Reading

variable {r : Reading} {text : List Char}

/-- What the text says, whatever the velocity is read as. -/
theorem denotes_text (htext : Denotes some readString .value text r.printed)
    {readAtom : List Char → Option Scalar}
    (hle : ∀ cs a, readScalar cs = some a → readAtom cs = some a) {d : Scalar}
    (hread : readAtom r.angularVelocityZ.text = some d) :
    Denotes readAtom readString .element text
      (relayObject (.int r.tsNs.toNat) (.int r.nativeSeqnum) (.int r.bump) d) := by
  let ps : List (List ℕ × List Char × Scalar) :=
    [(units "sim_time", (toString (r.tsNs.toNat : ℤ)).toList, .int r.tsNs.toNat),
      (units "seqnum", (toString r.nativeSeqnum).toList, .int r.nativeSeqnum),
      (units "bump", (toString r.bump).toList, .int r.bump),
      (units "wheel_speed", r.angularVelocityZ.text, d)]
  have hps : ∀ p ∈ ps, readAtom p.2.1 = some p.2.2 := by
    simp only [ps, List.forall_mem_cons, List.not_mem_nil, false_imp_iff, implies_true, and_true]
    exact ⟨hle _ _ (readScalar_toString _), hle _ _ (readScalar_toString _),
      hle _ _ (readScalar_toString _), hread⟩
  exact (Denotes.read_object hps htext).of_value

/-- **A finite reading is decoded.** -/
theorem jsonLoads_text (htext : Denotes some readString .value text r.printed) {v : ℚ}
    (h : r.angularVelocityZ.value? = some v) : jsonLoads text = some (r.object v) :=
  loads_eq_some.mpr (denotes_text htext (fun _ _ => id) (Printed.readScalar_text h))

/-- **No other reading is.** -/
theorem jsonLoads_eq_none (htext : Denotes some readString .value text r.printed)
    (h : r.angularVelocityZ.value? = none) : jsonLoads text = none := by
  by_contra hsome
  obtain ⟨data, hdata⟩ := Option.ne_none_iff_exists'.mp hsome
  have hden := loads_eq_some.mp hdata
  -- Were the velocity a word with a meaning, the text would say the same: any meaning will do.
  have hany (d : Scalar) : data = relayObject (.int r.tsNs.toNat) (.int r.nativeSeqnum)
      (.int r.bump) d := by
    let readAtom (cs : List Char) : Option Scalar :=
      (readScalar cs).or (if cs = r.angularVelocityZ.text then some d else none)
    have hle : ∀ cs a, readScalar cs = some a → readAtom cs = some a := by
      intro cs a hread
      simp [readAtom, hread]
    have hread : readAtom r.angularVelocityZ.text = some d := by
      simp [readAtom, Printed.readScalar_text_eq_none h]
    exact (hden.mono hle).unique (denotes_text htext hle hread)
  have heq := (hany .null).symm.trans (hany .nan)
  simp [relayObject] at heq

/-- **Decoding gives what the plugin meant**, if that is a number. -/
theorem message_jsonLoads (htext : Denotes some readString .value text r.printed) :
    (jsonLoads text).map Loaded.message = r.encode? := by
  cases h : r.angularVelocityZ.value? with
  | none =>
    rw [jsonLoads_eq_none htext h, encode?, h]
    rfl
  | some v =>
    rw [jsonLoads_text htext h, encode?, h, Option.map_some, object, message_relayObject]
    rfl

end Reading

/-! ### What the server hands on -/

section Server

variable {δ : Type} {jsonLoads : List Char → Option δ} {as : List ServerAction} {s : Server δ}

/-- A result of `recv` that does not end the thread. -/
def readable (jsonLoads : List Char → Option δ) (data : List Char) : Bool :=
  data ≠ [] ∧ (jsonLoads data).isSome

/-- The server thread runs on exactly while every text it received can be read. -/
theorem running_iff (h : (server jsonLoads).run as = some s) :
    s.running = true ↔ ∀ data ∈ received as, readable jsonLoads data = true := by
  rw [(Server.inv_run h).running]
  simp [readable]

/-- A turn of the thread hands on what it can read. -/
theorem recieve_offers (s : Server δ) (data : List Char) :
    (s.recieve jsonLoads data).offers.map Offer.data =
      s.offers.map Offer.data ++
        ([data].takeWhile (readable jsonLoads)).filterMap jsonLoads := by
  unfold Server.recieve Server.onmessage
  split_ifs with hempty
  · simp [readable, hempty]
  · cases hload : jsonLoads data with
    | none => simp [readable, hload]
    | some d =>
      obtain ⟨accepted, hoffers, -⟩ := s.putNowait_spec d
      simp [readable, hload, hempty, hoffers]

/-- **The thread hands on what it reads before the first result that ends it.** -/
theorem offers_run (h : (server jsonLoads).run as = some s) :
    s.offers.map Offer.data =
      ((received as).takeWhile (readable jsonLoads)).filterMap jsonLoads := by
  refine Machine.run_history_of_run
    (I := fun as s => s.offers.map Offer.data =
      ((received as).takeWhile (readable jsonLoads)).filterMap jsonLoads) rfl ?_ h
  intro as s a s' hrun ih hs
  cases a with
  | recv data =>
    cases hs
    rw [received_concat_recv]
    cases hrunning : s.running with
    | true =>
      have hall := (running_iff hrun).mp hrunning
      rw [if_pos rfl, recieve_offers, ih, List.takeWhile_append_of_pos hall, List.filterMap_append,
        List.takeWhile_eq_self_iff.mpr hall]
    | false =>
      -- Some earlier result has ended it.
      have hnot : ¬ ∀ data ∈ received as, readable jsonLoads data = true := by
        rw [← running_iff hrun, hrunning]
        decide
      have hstop : (received as ++ [data]).takeWhile (readable jsonLoads) =
          (received as).takeWhile (readable jsonLoads) := by
        rw [List.takeWhile_append, if_neg]
        exact fun hlength => hnot (List.takeWhile_eq_self_iff.mp
          ((List.takeWhile_prefix _).eq_of_length hlength))
      rw [if_neg (by decide), ih, hstop]
  | pop =>
    rw [received_concat_pop, ← ih]
    simp only [server, Option.some.injEq] at hs
    subst hs
    split <;> rfl

end Server

section Received

variable {jsonPrintf : Reading → List Char} {r : Reading} {rs : List Reading}
  {as : List ServerAction} {s : Server Loaded}

/-- The texts are objects, finite or not, as far as brackets and quotes go. -/
theorem Prints.object (h : Prints jsonPrintf rs) (hr : r ∈ rs) : Object (jsonPrintf r) :=
  Denotes.isObject (h r hr)

/-- A text can be read if and only if its reading is finite. -/
theorem Prints.readable (h : Prints jsonPrintf rs) (hr : r ∈ rs) :
    readable jsonLoads (jsonPrintf r) = r.isFinite := by
  rw [Reading.isFinite, ← Reading.message_jsonLoads (h r hr)]
  simp [Wallbot.readable, (h.object hr).ne_nil]

/-- The texts that can be read are those before the first that is not finite. -/
theorem Prints.takeWhile_readable (h : Prints jsonPrintf rs) :
    rs.takeWhile (Wallbot.readable jsonLoads ∘ jsonPrintf) = rs.takeWhile Reading.isFinite := by
  induction rs with
  | nil => rfl
  | cons r rs ih =>
    have hfirst := h.readable (List.mem_cons_self ..)
    have hrest := ih fun r' hr' => h r' (List.mem_cons_of_mem _ hr')
    rw [List.takeWhile_cons, List.takeWhile_cons, Function.comp_apply, hfirst, hrest]

/-- **A turn of the thread**, when the stream is at the head of a message.  It hands the message on
    if that is what `recv` returns and it is finite, and ends otherwise: these are the two turns of
    `World.step`. -/
theorem recieve_turn (hprints : Prints jsonPrintf (r :: rs)) {data rest : List Char}
    (hstream : data ++ rest = ((r :: rs).map jsonPrintf).flatten) (s : Server Loaded) :
    ((data = jsonPrintf r ∧ r.isFinite = true) ∧
      ∃ d, some d.message = r.encode? ∧ s.recieve jsonLoads data = s.putNowait d) ∨
    (¬ (data = jsonPrintf r ∧ r.isFinite = true) ∧
      s.recieve jsonLoads data = { s with running := false }) := by
  have hr : r ∈ r :: rs := List.mem_cons_self ..
  have hmessage := Reading.message_jsonLoads (hprints r hr)
  unfold Server.recieve Server.onmessage
  by_cases hempty : data = []
  · right
    rw [if_pos hempty]
    refine ⟨fun hone => (hprints.object hr).ne_nil ?_, rfl⟩
    rw [← hone.1, hempty]
  · rw [if_neg hempty]
    cases hload : jsonLoads data with
    | none =>
      right
      refine ⟨?_, rfl⟩
      rintro ⟨rfl, hfinite⟩
      rw [hload] at hmessage
      rw [Reading.isFinite, ← hmessage] at hfinite
      cases hfinite
    | some d =>
      left
      -- What can be read at the head of the stream is its first message.
      have hone : data = jsonPrintf r := by
        rw [List.map_cons, List.flatten_cons] at hstream
        refine eq_of_append (loads_eq_some.mp hload).json (hprints.object hr) hstream ?_
        cases rs with
        | nil => exact .inl rfl
        | cons r' rs =>
          right
          have hnext := hprints.object (r := r') (by simp)
          rw [List.map_cons, List.flatten_cons, List.head?_append, hnext.2]
          rfl
      rw [← hone, hload, Option.map_some] at hmessage
      exact ⟨⟨hone, by rw [Reading.isFinite, ← hmessage]; rfl⟩, d, hmessage, rfl⟩

/-- With one message in each `recv`, the thread runs until one is not finite. -/
theorem running_texts (hprints : Prints jsonPrintf rs) (hrecv : received as = rs.map jsonPrintf)
    (hrun : (server jsonLoads).run as = some s) :
    s.running = true ↔ ∀ r ∈ rs, r.isFinite = true := by
  rw [running_iff hrun, hrecv, List.forall_mem_map]
  exact forall₂_congr fun r hr => by rw [hprints.readable hr]

/-- What it hands on are the messages before that one. -/
theorem offers_texts (hprints : Prints jsonPrintf rs) (hrecv : received as = rs.map jsonPrintf)
    (hrun : (server jsonLoads).run as = some s) :
    s.offers.map (fun o => o.data.message) =
      (rs.takeWhile Reading.isFinite).filterMap Reading.encode? := by
  calc s.offers.map (fun o => o.data.message)
      = (s.offers.map Offer.data).map Loaded.message := by rw [List.map_map]; rfl
    _ = (((rs.takeWhile Reading.isFinite).map jsonPrintf).filterMap jsonLoads).map
          Loaded.message := by
        rw [offers_run hrun, hrecv, List.takeWhile_map, hprints.takeWhile_readable]
    _ = (rs.takeWhile Reading.isFinite).filterMap Reading.encode? := by
        rw [List.filterMap_map, List.map_filterMap]
        refine List.filterMap_congr fun r hr => ?_
        exact Reading.message_jsonLoads (hprints r ((List.takeWhile_prefix _).subset hr))

/-- **Round trip.**  When each `recv` returns one message, whatever the interleaving, the thread
    ends at the first reading that is not finite, and what it has handed on are the messages
    before, as the plugin meant them. -/
theorem relay_round_trip (hprints : Prints jsonPrintf rs) (hrecv : received as = rs.map jsonPrintf)
    (hrun : (server jsonLoads).run as = some s) :
    (s.running = true ↔ ∀ r ∈ rs, r.isFinite = true) ∧
      s.offers.map (fun o => o.data.message) =
        (rs.takeWhile Reading.isFinite).filterMap Reading.encode? :=
  ⟨running_texts hprints hrecv hrun, offers_texts hprints hrecv hrun⟩

/-- **Framing.**  However the stream of the messages is cut into results of `recv`, the thread
    survives it exactly when each result is one message and all readings are finite, and then it
    has handed on all of them. -/
theorem relay_framing (hprints : Prints jsonPrintf rs)
    (hstream : (received as).flatten = (rs.map jsonPrintf).flatten)
    (hrun : (server jsonLoads).run as = some s) :
    (s.running = true ↔ received as = rs.map jsonPrintf ∧ ∀ r ∈ rs, r.isFinite = true) ∧
      (s.running = true →
        s.offers.map (fun o => o.data.message) = rs.filterMap Reading.encode?) := by
  have hframed (hrunning : s.running = true) : received as = rs.map jsonPrintf := by
    refine eq_of_flatten (fun data hdata => ?_) (fun text htext => ?_) hstream
    · -- Whatever was read is one JSON text.
      obtain ⟨-, hsome⟩ := of_decide_eq_true ((running_iff hrun).mp hrunning data hdata)
      obtain ⟨v, hv⟩ := Option.isSome_iff_exists.mp hsome
      exact (loads_eq_some.mp hv).json
    · obtain ⟨r, hr, rfl⟩ := List.mem_map.mp htext
      exact hprints.object hr
  refine ⟨⟨fun hrunning => ?_, fun ⟨hrecv, hfinite⟩ => ?_⟩, fun hrunning => ?_⟩
  · exact ⟨hframed hrunning, (running_texts hprints (hframed hrunning) hrun).mp hrunning⟩
  · exact (running_texts hprints hrecv hrun).mpr hfinite
  · have hrecv := hframed hrunning
    have hfinite := (running_texts hprints hrecv hrun).mp hrunning
    rw [offers_texts hprints hrecv hrun, List.takeWhile_eq_self_iff.mpr hfinite]

end Received

/-! ### A plain `json_printf` -/

/-- The text with single blanks, as in the format. -/
def Reading.text (r : Reading) : List Char :=
  relayText (toString (r.tsNs.toNat : ℤ)) (toString r.nativeSeqnum) (toString r.bump)
    (.ofList r.angularVelocityZ.text)

/-- A space is white space. -/
theorem blank_space : Blank " ".toList := by
  intro c hc
  rw [List.mem_singleton.mp hc]
  decide

/-- A member with a plain key says its key and its word. -/
theorem denotes_member {blank value : String} (hblank : Blank blank.toList) (key : String)
    (hkey : IsKey key) (hcontrol : key.toList.all (32 ≤ ·.toNat) = true)
    (hvalue : Wss.IsAtom value) :
    Denotes some readString .member (member blank key value) (units key, .atom value.toList) := by
  have hunits := readString_plain fun c hc =>
    ⟨(hkey c hc).2, of_decide_eq_true (List.all_eq_true.mp hcontrol c hc)⟩
  have hnil : Blank [] := by simp [Blank]
  have h := Denotes.member hblank (stringBody_of_forall hkey) hunits hnil
    (.element blank_space (.atom hvalue.1 hvalue.2 rfl) hnil)
  simpa only [member, units, List.append_nil] using h

/-- The decimals of an integer are a word. -/
theorem isAtom_int (n : ℤ) : Wss.IsAtom (toString n) := by
  unfold Wss.IsAtom
  rw [toList_toString_int]
  exact ⟨spell_ne_nil (isWhole_toDigits _).1, fun c hc =>
    isPlain_of_mem_spell (isWhole_toDigits _).2.1 (by simp) hc⟩

/-- So is what `%lf` prints. -/
theorem Printed.isAtom_text (z : Printed) : Wss.IsAtom (.ofList z.text) := by
  have hword {cs : List Char} (hcs : cs.all (decide <| IsPlain ·) = true) :
      ∀ c ∈ cs, IsPlain c := fun c hc => of_decide_eq_true (List.all_eq_true.mp hcs c hc)
  unfold Wss.IsAtom
  rw [String.toList_ofList]
  cases z with
  | fixed negative millionths =>
    exact ⟨spell_ne_nil (isWhole_toDigits _).1, fun c hc =>
      isPlain_of_mem_spell (isWhole_toDigits _).2.1 (fun c => isDigit_of_mem_fixedDigits) hc⟩
  | infinity negative => cases negative <;> exact ⟨by decide, hword (by decide)⟩
  | nan negative => cases negative <;> exact ⟨by decide, hword (by decide)⟩

/-- It prints what is relied on. -/
theorem prints_text (rs : List Reading) : Prints Reading.text rs := by
  intro r _
  have hempty : Blank "".toList := by
    intro c hc
    cases hc
  have hspeed := denotes_member blank_space "wheel_speed" (by decide) (by decide)
    r.angularVelocityZ.isAtom_text
  rw [String.toList_ofList] at hspeed
  refine .object ?_
  refine .moreMembers (denotes_member hempty "sim_time" (by decide) (by decide) (isAtom_int _)) ?_
  refine .moreMembers (denotes_member blank_space "seqnum" (by decide) (by decide) (isAtom_int _)) ?_
  exact .moreMembers (denotes_member blank_space "bump" (by decide) (by decide) (isAtom_int _))
    (.oneMember hspeed)

/-- A reading of half a radian per second. -/
def Reading.half : Reading where
  relay := .start
  sec := 0
  nsec := 5000000
  nativeSeqnum := 1
  angularVelocityZ := .fixed false 500000

/-- A reading of a simulation that has diverged. -/
def Reading.diverged : Reading := { Reading.half with angularVelocityZ := .nan true }

/-- The reading after one that is not finite is lost, as the thread has ended. -/
theorem relay_round_trip_diverged :
    ∃ s, (server jsonLoads).run [.recv Reading.half.text, .recv Reading.diverged.text, .pop,
        .recv Reading.half.text] = some s ∧
      s.running = false ∧
      s.offers.map (fun o => o.data.message) =
        [⟨some 5000000, some 1, some 0, some (1 / 2), ()⟩] := by
  have hrecv : received [.recv Reading.half.text, .recv Reading.diverged.text, .pop,
      .recv Reading.half.text] =
        [Reading.half, Reading.diverged, Reading.half].map Reading.text := rfl
  refine ⟨_, rfl, ?_⟩
  obtain ⟨hrunning, hoffers⟩ := relay_round_trip (prints_text _) hrecv rfl
  constructor
  · rw [← Bool.not_eq_true, hrunning]
    decide
  · rw [hoffers]
    decide +kernel

/-- Two readings in one `recv` end the thread. -/
theorem relay_framing_joined :
    ∃ s, (server jsonLoads).run [.recv (Reading.half.text ++ Reading.half.text)] = some s ∧
      s.running = false := by
  have hstream : (received [.recv (Reading.half.text ++ Reading.half.text)]).flatten =
      ([Reading.half, Reading.half].map Reading.text).flatten := by
    simp [received]
  refine ⟨_, rfl, ?_⟩
  rw [← Bool.not_eq_true, (relay_framing (prints_text _) hstream rfl).1]
  rintro ⟨hrecv, -⟩
  exact absurd (congrArg List.length hrecv) (by decide)

end Wallbot
