import Mathlib.Data.List.Basic

/-!
# Library — JSON texts delimit themselves

The grammar of JSON as a predicate on lists of characters, and what its brackets are worth on a
stream: an object ends where the brackets opened so far are closed again, so no object is a
proper beginning of another.

* `Json` — the grammar, one category of text at a time.  Numbers and the literals are taken as
  *any* run of plain characters and strings may contain any character, which only makes for
  more texts.
* `Scan`, `Stays` — a scanner that counts open brackets outside strings; the texts of every
  category leave its count as it was and never fall below it.
* `Object.eq_of_prefix` — objects are prefix free.
* `eq_of_flatten` — a stream of objects that is cut into JSON texts was cut between the objects.
-/

namespace JsonText

/-! ### The grammar -/

/-- The characters that the grammar speaks of. -/
def quote : Char := '\x22'
def backslash : Char := '\x5c'
def openBrace : Char := '\x7b'
def closeBrace : Char := '\x7d'
def openBracket : Char := '\x5b'
def closeBracket : Char := '\x5d'
def comma : Char := ','
def colon : Char := ':'

/-- White space. -/
def IsBlank (c : Char) : Prop := c ∈ [' ', '\t', '\n', '\r']

/-- A character of a number or a literal. -/
def IsPlain (c : Char) : Prop :=
  c ∉ [quote, backslash, openBrace, closeBrace, openBracket, closeBracket, comma, colon] ∧
    ¬ IsBlank c

instance (c : Char) : Decidable (IsBlank c) := inferInstanceAs (Decidable (c ∈ _))

instance (c : Char) : Decidable (IsPlain c) := inferInstanceAs (Decidable (_ ∧ _))

/-- Only blanks. -/
def Blank (cs : List Char) : Prop := ∀ c ∈ cs, IsBlank c

/-- What stands between the quotes of a string. -/
inductive StringBody : List Char → Prop where
  | nil : StringBody []
  | char {c : Char} {cs : List Char} (hq : c ≠ quote) (hb : c ≠ backslash) (h : StringBody cs) :
    StringBody (c :: cs)
  | escape {c : Char} {cs : List Char} (h : StringBody cs) : StringBody (backslash :: c :: cs)

/-- The categories of the grammar. -/
inductive Category where
  | value
  /-- A value with white space around it, which is also what a whole JSON text is. -/
  | element
  | elements
  | member
  | members

/-- The grammar, one constructor for each rule. -/
inductive Json : Category → List Char → Prop where
  | atom {cs : List Char} (hne : cs ≠ []) (h : ∀ c ∈ cs, IsPlain c) : Json .value cs
  | string {cs : List Char} (h : StringBody cs) : Json .value (quote :: (cs ++ [quote]))
  | emptyArray {w : List Char} (h : Blank w) :
    Json .value (openBracket :: (w ++ [closeBracket]))
  | array {cs : List Char} (h : Json .elements cs) :
    Json .value (openBracket :: (cs ++ [closeBracket]))
  | emptyObject {w : List Char} (h : Blank w) : Json .value (openBrace :: (w ++ [closeBrace]))
  | object {cs : List Char} (h : Json .members cs) :
    Json .value (openBrace :: (cs ++ [closeBrace]))
  | element {w v w' : List Char} (hw : Blank w) (hv : Json .value v) (hw' : Blank w') :
    Json .element (w ++ v ++ w')
  | oneElement {e : List Char} (h : Json .element e) : Json .elements e
  | moreElements {e es : List Char} (h : Json .element e) (hs : Json .elements es) :
    Json .elements (e ++ comma :: es)
  | member {w k w' e : List Char} (hw : Blank w) (hk : StringBody k) (hw' : Blank w')
    (he : Json .element e) : Json .member (w ++ quote :: (k ++ [quote]) ++ w' ++ colon :: e)
  | oneMember {m : List Char} (h : Json .member m) : Json .members m
  | moreMembers {m ms : List Char} (h : Json .member m) (hs : Json .members ms) :
    Json .members (m ++ comma :: ms)

/-- A text that is one JSON object. -/
def Object (cs : List Char) : Prop := Json .value cs ∧ cs.head? = some openBrace

/-! ### The scanner -/

/-- Whether the scan is in a string, and behind a backslash there. -/
inductive Mode where
  | plain
  | quoted
  | escaped
  deriving DecidableEq, Repr

/-- The brackets that are open, and whether a string is. -/
structure Scan where
  depth : ℕ
  mode : Mode
  deriving DecidableEq, Repr

/-- One character. -/
def Scan.step (s : Scan) (c : Char) : Scan :=
  match s.mode with
  | .plain =>
    if c = quote then { s with mode := .quoted }
    else if c = openBrace ∨ c = openBracket then { s with depth := s.depth + 1 }
    else if c = closeBrace ∨ c = closeBracket then { s with depth := s.depth - 1 }
    else s
  | .quoted =>
    if c = quote then { s with mode := .plain }
    else if c = backslash then { s with mode := .escaped }
    else s
  | .escaped => { s with mode := .quoted }

/-- Many characters. -/
def scan (s : Scan) (cs : List Char) : Scan := cs.foldl Scan.step s

/-- The scan of `cs` from `s` stays at `d` open brackets or more. -/
def Above (d : ℕ) : Scan → List Char → Prop
  | s, [] => d ≤ s.depth
  | s, c :: cs => d ≤ s.depth ∧ Above d (s.step c) cs

/-- Texts are scanned one after the other. -/
theorem scan_append (s : Scan) (cs ds : List Char) : scan s (cs ++ ds) = scan (scan s cs) ds :=
  List.foldl_append

/-- The depth stays above `d` along both parts. -/
theorem above_append {d : ℕ} {s : Scan} {cs ds : List Char} :
    Above d s (cs ++ ds) ↔ Above d s cs ∧ Above d (scan s cs) ds := by
  induction cs generalizing s with
  | nil =>
    show Above d s ds ↔ d ≤ s.depth ∧ Above d s ds
    constructor
    · intro h
      cases ds with
      | nil => exact ⟨h, h⟩
      | cons c ds => exact ⟨h.1, h⟩
    · exact fun h => h.2
  | cons c cs ih =>
    show d ≤ s.depth ∧ Above d (s.step c) (cs ++ ds) ↔ _
    rw [ih, ← and_assoc]
    exact Iff.rfl

/-- It does so at every cut. -/
theorem Above.depth_scan {d : ℕ} {s : Scan} {cs pre : List Char} (h : Above d s cs)
    (hpre : pre <+: cs) : d ≤ (scan s pre).depth := by
  obtain ⟨post, rfl⟩ := hpre
  have hpost := (above_append.mp h).2
  cases post with
  | nil => exact hpost
  | cons c post => exact hpost.1

/-- A text that closes what it opens, and nothing else. -/
def Stays (cs : List Char) : Prop :=
  ∀ d, scan ⟨d, .plain⟩ cs = ⟨d, .plain⟩ ∧ Above d ⟨d, .plain⟩ cs

/-- Two texts that stay at their depth. -/
theorem Stays.append {cs ds : List Char} (hcs : Stays cs) (hds : Stays ds) : Stays (cs ++ ds) := by
  intro d
  obtain ⟨hscan, habove⟩ := hcs d
  obtain ⟨hscan', habove'⟩ := hds d
  constructor
  · rw [scan_append, hscan, hscan']
  · rw [above_append, hscan]
    exact ⟨habove, habove'⟩

/-- Characters that the scanner skips. -/
theorem stays_of_skipped {cs : List Char}
    (h : ∀ c ∈ cs, c ∉ [quote, openBrace, closeBrace, openBracket, closeBracket]) : Stays cs := by
  induction cs with
  | nil => exact fun d => ⟨rfl, Nat.le_refl d⟩
  | cons c cs ih =>
    -- Outside strings only quotes and brackets change the scan.
    have hskip (d : ℕ) : Scan.step ⟨d, .plain⟩ c = ⟨d, .plain⟩ := by
      have hc := h c (List.mem_cons_self ..)
      simp only [List.mem_cons, List.not_mem_nil, or_false, not_or] at hc
      simp [Scan.step, hc]
    intro d
    obtain ⟨hscan, habove⟩ := ih (fun c' hc' => h c' (List.mem_cons_of_mem _ hc')) d
    refine ⟨?_, Nat.le_refl d, ?_⟩
    · show scan (Scan.step _ c) cs = _
      rw [hskip, hscan]
    · rwa [hskip]

/-- Blanks change no depth. -/
theorem Blank.stays {w : List Char} (h : Blank w) : Stays w := by
  apply stays_of_skipped
  intro c hc
  have hblank : c ∈ [' ', '\t', '\n', '\r'] := h c hc
  revert hblank
  simp only [List.mem_cons, List.not_mem_nil, or_false]
  rintro (rfl | rfl | rfl | rfl) <;> decide

/-- Between its quotes a string may hold anything. -/
theorem StringBody.scan {body : List Char} (h : StringBody body) (d : ℕ) :
    JsonText.scan ⟨d, .quoted⟩ body = ⟨d, .quoted⟩ ∧ Above d ⟨d, .quoted⟩ body := by
  induction h with
  | nil => exact ⟨rfl, Nat.le_refl d⟩
  | @char c cs hq hb h ih =>
    have hstep : Scan.step ⟨d, .quoted⟩ c = ⟨d, .quoted⟩ := by simp [Scan.step, hq, hb]
    refine ⟨?_, Nat.le_refl d, ?_⟩
    · show JsonText.scan (Scan.step _ c) cs = _
      rw [hstep, ih.1]
    · rw [hstep]
      exact ih.2
  | @escape c cs h ih =>
    -- The backslash makes the scan skip whatever stands after it.
    exact ⟨ih.1, Nat.le_refl d, Nat.le_refl d, ih.2⟩

/-- What a string holds changes no depth. -/
theorem StringBody.stays {body : List Char} (h : StringBody body) :
    Stays (quote :: (body ++ [quote])) := by
  intro d
  obtain ⟨hscan, habove⟩ := h.scan d
  constructor
  · show JsonText.scan ⟨d, .quoted⟩ (body ++ [quote]) = _
    rw [scan_append, hscan]
    rfl
  · refine ⟨Nat.le_refl d, ?_⟩
    show Above d ⟨d, .quoted⟩ (body ++ [quote])
    rw [above_append, hscan]
    exact ⟨habove, Nat.le_refl d, Nat.le_refl d⟩

/-- Within a pair of brackets the scan is one deeper. -/
theorem scan_enclosed {opening closing : Char} {body : List Char} (h : Stays body)
    (ho : ∀ d, Scan.step ⟨d, .plain⟩ opening = ⟨d + 1, .plain⟩)
    (hc : ∀ d, Scan.step ⟨d + 1, .plain⟩ closing = ⟨d, .plain⟩) (d : ℕ) :
    scan ⟨d, .plain⟩ (opening :: (body ++ [closing])) = ⟨d, .plain⟩ ∧
      Above (d + 1) ⟨d + 1, .plain⟩ body := by
  obtain ⟨hscan, habove⟩ := h (d + 1)
  refine ⟨?_, habove⟩
  show scan (Scan.step _ opening) _ = _
  rw [ho, scan_append, hscan]
  exact hc d

/-- A lower bound can be lowered. -/
theorem Above.mono {d d' : ℕ} {s : Scan} {cs : List Char} (h : Above d s cs) (hd : d' ≤ d) :
    Above d' s cs := by
  induction cs generalizing s with
  | nil => exact Nat.le_trans hd h
  | cons c cs ih => exact ⟨Nat.le_trans hd h.1, ih h.2⟩

/-- A bracket and its closing one change no depth together. -/
theorem Stays.enclosed {opening closing : Char} {body : List Char} (h : Stays body)
    (ho : ∀ d, Scan.step ⟨d, .plain⟩ opening = ⟨d + 1, .plain⟩)
    (hc : ∀ d, Scan.step ⟨d + 1, .plain⟩ closing = ⟨d, .plain⟩) :
    Stays (opening :: (body ++ [closing])) := by
  intro d
  obtain ⟨hscan, habove⟩ := scan_enclosed h ho hc d
  refine ⟨hscan, Nat.le_refl d, ?_⟩
  rw [ho, above_append, (h (d + 1)).1]
  refine ⟨habove.mono (Nat.le_succ d), Nat.le_succ d, ?_⟩
  show d ≤ (Scan.step ⟨d + 1, .plain⟩ closing).depth
  exact Nat.le_of_eq (congrArg Scan.depth (hc d)).symm

/-- Opening is one deeper, closing one less deep; the same for both kinds. -/
theorem step_openBrace (d : ℕ) : Scan.step ⟨d, .plain⟩ openBrace = ⟨d + 1, .plain⟩ := rfl
theorem step_closeBrace (d : ℕ) : Scan.step ⟨d + 1, .plain⟩ closeBrace = ⟨d, .plain⟩ := rfl
theorem step_openBracket (d : ℕ) : Scan.step ⟨d, .plain⟩ openBracket = ⟨d + 1, .plain⟩ := rfl
theorem step_closeBracket (d : ℕ) : Scan.step ⟨d + 1, .plain⟩ closeBracket = ⟨d, .plain⟩ := rfl

/-- A separator between two texts. -/
theorem Stays.separated {cs ds : List Char} {c : Char} (hcs : Stays cs) (hds : Stays ds)
    (hc : c = comma ∨ c = colon) : Stays (cs ++ c :: ds) := by
  have hsep : Stays [c] := by
    apply stays_of_skipped
    rw [List.forall_mem_singleton]
    rcases hc with rfl | rfl <;> decide
  rw [show c :: ds = [c] ++ ds from rfl]
  exact hcs.append (hsep.append hds)

/-- **Every text closes what it opens.** -/
theorem Json.stays {cat : Category} {cs : List Char} (h : Json cat cs) : Stays cs := by
  induction h with
  | atom _ h =>
    apply stays_of_skipped
    intro c hc
    have hplain := (h c hc).1
    simp only [List.mem_cons, List.not_mem_nil, or_false, not_or] at hplain ⊢
    exact ⟨hplain.1, hplain.2.2.1, hplain.2.2.2.1, hplain.2.2.2.2.1, hplain.2.2.2.2.2.1⟩
  | string h => exact h.stays
  | emptyArray h => exact h.stays.enclosed step_openBracket step_closeBracket
  | array _ ih => exact ih.enclosed step_openBracket step_closeBracket
  | emptyObject h => exact h.stays.enclosed step_openBrace step_closeBrace
  | object _ ih => exact ih.enclosed step_openBrace step_closeBrace
  | element hw _ hw' ih => exact (hw.stays.append ih).append hw'.stays
  | oneElement _ ih => exact ih
  | moreElements _ _ ih ihs => exact ih.separated ihs (.inl rfl)
  | member hw hk hw' _ ih =>
    exact ((hw.stays.append hk.stays).append hw'.stays).separated ih (.inr rfl)
  | oneMember _ ih => exact ih
  | moreMembers _ _ ih ihs => exact ih.separated ihs (.inl rfl)

/-! ### Objects -/

/-- An object is a text in braces. -/
theorem Object.braces {cs : List Char} (h : Object cs) :
    ∃ body, cs = openBrace :: (body ++ [closeBrace]) ∧ Stays body := by
  obtain ⟨hjson, hhead⟩ := h
  cases hjson with
  | atom hne hplain =>
    have hmem : openBrace ∈ cs := List.mem_of_mem_head? hhead
    exact absurd (hplain openBrace hmem) (by decide)
  | string h => exact absurd (Option.some.inj hhead) (by decide)
  | emptyArray h => exact absurd (Option.some.inj hhead) (by decide)
  | array h => exact absurd (Option.some.inj hhead) (by decide)
  | emptyObject h => exact ⟨_, rfl, h.stays⟩
  | object h => exact ⟨_, rfl, h.stays⟩

/-- An object has characters. -/
theorem Object.ne_nil {cs : List Char} (h : Object cs) : cs ≠ [] := by
  rintro rfl
  exact nomatch h.2

/-- Inside an object a bracket is open, up to its very end. -/
theorem Object.depth_pos {cs pre : List Char} (h : Object cs) (hpre : pre <+: cs)
    (hne : pre ≠ []) (hproper : pre ≠ cs) : 1 ≤ (scan ⟨0, .plain⟩ pre).depth := by
  obtain ⟨body, rfl, hbody⟩ := h.braces
  obtain ⟨-, habove⟩ := scan_enclosed hbody step_openBrace step_closeBrace 0
  cases pre with
  | nil => exact absurd rfl hne
  | cons c pre =>
    obtain ⟨rfl, htail⟩ := List.cons_prefix_cons.mp hpre
    -- The prefix ends with the closing brace or within the body.
    rcases List.prefix_concat_iff.mp htail with heq | hbody
    · exact absurd (congrArg _ heq) hproper
    · exact habove.depth_scan hbody

/-- **Objects are prefix free.** -/
theorem Object.eq_of_prefix {cs ds : List Char} (hcs : Object cs) (hds : Object ds)
    (hpre : cs <+: ds) : cs = ds := by
  by_contra hproper
  -- The brace of `ds` would still be open where `cs` has closed all of its own.
  have hopen := hds.depth_pos hpre hcs.ne_nil hproper
  rw [(hcs.1.stays 0).1] at hopen
  exact absurd hopen (by decide)

/-! ### Streams of objects -/

/-- White space before an object is none. -/
theorem Blank.eq_nil_of_head {w rest : List Char} (h : Blank w)
    (hhead : (w ++ rest).head? = some openBrace) : w = [] := by
  cases w with
  | nil => rfl
  | cons c w =>
    obtain rfl : c = openBrace := Option.some.inj hhead
    exact absurd (h openBrace (List.mem_cons_self ..)) (by decide)

/-- A value has characters. -/
theorem Json.value_ne_nil {v : List Char} (h : Json .value v) : v ≠ [] := by
  cases h with
  | atom hne _ => exact hne
  | string h => simp
  | emptyArray h => simp
  | array h => simp
  | emptyObject h => simp
  | object h => simp

/-- A text at the head of a stream of objects is the first of them. -/
theorem eq_of_append {c o rest rest' : List Char} (hc : Json .element c) (ho : Object o)
    (h : c ++ rest = o ++ rest') (hrest : rest' = [] ∨ rest'.head? = some openBrace) : c = o := by
  cases hc with
  | @element w v w' hw hv hw' =>
    have hohead : (o ++ rest').head? = some openBrace := by
      rw [List.head?_append, ho.2]
      rfl
    -- There is no white space before the value.
    have hwnil : w = [] := by
      rw [← h, List.append_assoc, List.append_assoc] at hohead
      exact hw.eq_nil_of_head hohead
    subst hwnil
    rw [List.nil_append, List.append_assoc] at h
    -- So it is an object, and the first one, as neither can be a beginning of the other.
    have hvhead : v.head? = some openBrace := by
      rw [← h, List.head?_append_of_ne_nil _ hv.value_ne_nil] at hohead
      exact hohead
    have hvobj : Object v := ⟨hv, hvhead⟩
    have hvo : v = o := by
      have hpre : v <+: o ++ rest' := ⟨_, h⟩
      rcases List.prefix_or_prefix_of_prefix hpre (List.prefix_append o rest') with hle | hle
      · exact hvobj.eq_of_prefix ho hle
      · exact (ho.eq_of_prefix hvobj hle).symm
    -- There is no white space after it, because the next object starts at once.
    subst hvo
    have htail : w' ++ rest = rest' := List.append_cancel_left h
    have hw'nil : w' = [] := by
      rcases hrest with hnil | hhead
      · rw [hnil] at htail
        exact (List.append_eq_nil_iff.mp htail).1
      · rw [← htail] at hhead
        exact hw'.eq_nil_of_head hhead
    rw [hw'nil, List.append_nil, List.nil_append]

/-- **Framing.**  If a stream of objects falls into JSON texts, these are the objects. -/
theorem eq_of_flatten {chunks objs : List (List Char)} (hchunks : ∀ c ∈ chunks, Json .element c)
    (hobjs : ∀ o ∈ objs, Object o) (h : chunks.flatten = objs.flatten) : chunks = objs := by
  induction chunks generalizing objs with
  | nil =>
    cases objs with
    | nil => rfl
    | cons o objs =>
      have hnil : o = [] := (List.append_eq_nil_iff.mp h.symm).1
      exact absurd hnil (hobjs o (List.mem_cons_self ..)).ne_nil
  | cons c chunks ih =>
    have hc := hchunks c (List.mem_cons_self ..)
    cases objs with
    | nil =>
      have hnil : c = [] := (List.append_eq_nil_iff.mp h).1
      cases hc with
      | element hw hv hw' => simp [hv.value_ne_nil] at hnil
    | cons o objs =>
      have hrest : objs.flatten = [] ∨ objs.flatten.head? = some openBrace := by
        cases objs with
        | nil => exact .inl rfl
        | cons o' objs =>
          right
          rw [List.flatten_cons, List.head?_append, (hobjs o' (by simp)).2]
          rfl
      have hco : c = o := eq_of_append hc (hobjs o (List.mem_cons_self ..)) h hrest
      subst hco
      rw [ih (fun c' hc' => hchunks c' (List.mem_cons_of_mem _ hc'))
        (fun o' ho' => hobjs o' (List.mem_cons_of_mem _ ho')) (List.append_cancel_left h)]

end JsonText
