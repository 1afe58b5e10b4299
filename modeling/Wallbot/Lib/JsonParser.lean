import Mathlib.Data.List.TakeWhile
import Wallbot.Lib.JsonText

/-!
# Library — a JSON parser and its grammar

Recursive descent over a list of characters, for any readings of the plain words (numbers and
literals) and of what stands between the quotes of a string.

* `Value`, `Result` — what the texts of each category are read as.
* `Denotes` — the grammar `Json` with the values that its texts stand for.
* `Denotes.read_object` — an object of words, read with some meaning of the words.
* `parse`, `loads` — the parser, with fuel for the depth of its recursion.
* `parse_sound`, `parse_complete` — what it reads is what the grammar says, and it reads all of
  it.
* `loads_eq_some` — a text is accepted with a value exactly when the grammar derives the value,
  so that no text has two.
-/

namespace JsonText

variable {α σ : Type}

/-! ### Values -/

/-- A JSON value, with its words read as `α` and its strings as `σ`.  An object keeps its members
    in order, also those of one key. -/
inductive Value (α σ : Type) where
  | atom (a : α)
  | string (s : σ)
  | array (vs : List (Value α σ))
  | object (ms : List (σ × Value α σ))

/-- What a text of a category is read as. -/
abbrev Result (α σ : Type) : Category → Type
  | .value | .element => Value α σ
  | .elements => List (Value α σ)
  | .member => σ × Value α σ
  | .members => List (σ × Value α σ)

variable (readAtom : List Char → Option α) (readString : List Char → Option σ)

/-- The text is one of the category, and this is what it says. -/
inductive Denotes : (cat : Category) → List Char → Result α σ cat → Prop where
  | atom {cs : List Char} {a : α} (hne : cs ≠ []) (h : ∀ c ∈ cs, IsPlain c)
    (hread : readAtom cs = some a) : Denotes .value cs (Value.atom a)
  | string {cs : List Char} {s : σ} (h : StringBody cs) (hread : readString cs = some s) :
    Denotes .value (quote :: (cs ++ [quote])) (Value.string s)
  | emptyArray {w : List Char} (h : Blank w) :
    Denotes .value (openBracket :: (w ++ [closeBracket])) (Value.array [])
  | array {cs : List Char} {vs : List (Value α σ)} (h : Denotes .elements cs vs) :
    Denotes .value (openBracket :: (cs ++ [closeBracket])) (Value.array vs)
  | emptyObject {w : List Char} (h : Blank w) :
    Denotes .value (openBrace :: (w ++ [closeBrace])) (Value.object [])
  | object {cs : List Char} {ms : List (σ × Value α σ)} (h : Denotes .members cs ms) :
    Denotes .value (openBrace :: (cs ++ [closeBrace])) (Value.object ms)
  | element {w cs w' : List Char} {v : Value α σ} (hw : Blank w) (hv : Denotes .value cs v)
    (hw' : Blank w') : Denotes .element (w ++ cs ++ w') v
  | oneElement {cs : List Char} {v : Value α σ} (h : Denotes .element cs v) :
    Denotes .elements cs [v]
  | moreElements {cs cs' : List Char} {v : Value α σ} {vs : List (Value α σ)}
    (h : Denotes .element cs v) (hs : Denotes .elements cs' vs) :
    Denotes .elements (cs ++ comma :: cs') (v :: vs)
  | member {w k w' cs : List Char} {s : σ} {v : Value α σ} (hw : Blank w) (hk : StringBody k)
    (hread : readString k = some s) (hw' : Blank w') (he : Denotes .element cs v) :
    Denotes .member (w ++ quote :: (k ++ [quote]) ++ w' ++ colon :: cs) (s, v)
  | oneMember {cs : List Char} {m : σ × Value α σ} (h : Denotes .member cs m) :
    Denotes .members cs [m]
  | moreMembers {cs cs' : List Char} {m : σ × Value α σ} {ms : List (σ × Value α σ)}
    (h : Denotes .member cs m) (hs : Denotes .members cs' ms) :
    Denotes .members (cs ++ comma :: cs') (m :: ms)

variable {readAtom readString}

/-- Without its value it is a text of the grammar. -/
theorem Denotes.json {cat : Category} {cs : List Char} {r : Result α σ cat}
    (h : Denotes readAtom readString cat cs r) : Json cat cs := by
  induction h with
  | atom hne h _ => exact .atom hne h
  | string h _ => exact .string h
  | emptyArray h => exact .emptyArray h
  | array _ ih => exact .array ih
  | emptyObject h => exact .emptyObject h
  | object _ ih => exact .object ih
  | element hw _ hw' ih => exact .element hw ih hw'
  | oneElement _ ih => exact .oneElement ih
  | moreElements _ _ ih ihs => exact .moreElements ih ihs
  | member hw hk _ hw' _ ih => exact .member hw hk hw' ih
  | oneMember _ ih => exact .oneMember ih
  | moreMembers _ _ ih ihs => exact .moreMembers ih ihs

/-- With more words readable a text says the same. -/
theorem Denotes.mono {readAtom' : List Char → Option α}
    (hle : ∀ cs a, readAtom cs = some a → readAtom' cs = some a) {cat : Category}
    {cs : List Char} {r : Result α σ cat} (h : Denotes readAtom readString cat cs r) :
    Denotes readAtom' readString cat cs r := by
  induction h with
  | atom hne h hread => exact .atom hne h (hle _ _ hread)
  | string h hread => exact .string h hread
  | emptyArray h => exact .emptyArray h
  | array _ ih => exact .array ih
  | emptyObject h => exact .emptyObject h
  | object _ ih => exact .object ih
  | element hw _ hw' ih => exact .element hw ih hw'
  | oneElement _ ih => exact .oneElement ih
  | moreElements _ _ ih ihs => exact .moreElements ih ihs
  | member hw hk hread hw' _ ih => exact .member hw hk hread hw' ih
  | oneMember _ ih => exact .oneMember ih
  | moreMembers _ _ ih ihs => exact .moreMembers ih ihs

/-! ### Texts of plain words

With `some` for the reading of words, a text says how its words are spelled. -/

/-- A value that is a word is spelled as the word. -/
theorem Denotes.word {cs w : List Char} (h : Denotes some readString .value cs (Value.atom w)) :
    cs = w ∧ cs ≠ [] ∧ ∀ c ∈ cs, IsPlain c := by
  cases h with
  | atom hne hplain hread => exact ⟨Option.some.inj hread, hne, hplain⟩

/-- A member whose value is a word says what the word says. -/
theorem Denotes.read_member {cs w : List Char} {s : σ} {a : α}
    (h : Denotes some readString .member cs (s, Value.atom w)) (hread : readAtom w = some a) :
    Denotes readAtom readString .member cs (s, Value.atom a) := by
  cases h with
  | member hw hk hs hw' he =>
    cases he with
    | element hv hvalue hv' =>
      obtain ⟨rfl, hne, hplain⟩ := hvalue.word
      exact .member hw hk hs hw' (.element hv (.atom hne hplain hread) hv')

/-- So do all members of an object of words. -/
theorem Denotes.read_members {ps : List (σ × List Char × α)}
    (hread : ∀ p ∈ ps, readAtom p.2.1 = some p.2.2) {cs : List Char}
    (h : Denotes some readString .members cs (ps.map fun p => (p.1, Value.atom p.2.1))) :
    Denotes readAtom readString .members cs (ps.map fun p => (p.1, Value.atom p.2.2)) := by
  induction ps generalizing cs with
  | nil => cases h
  | cons p ps ih =>
    rw [List.forall_mem_cons] at hread
    rw [List.map_cons] at h ⊢
    generalize hms : ps.map (fun p => (p.1, Value.atom p.2.1)) = ms at h
    cases h with
    | oneMember hm =>
      obtain rfl := List.map_eq_nil_iff.mp hms
      exact .oneMember (hm.read_member hread.1)
    | moreMembers hm hrest =>
      exact .moreMembers (hm.read_member hread.1) (ih hread.2 (hms ▸ hrest))

/-- **An object of words says what its words say.** -/
theorem Denotes.read_object {ps : List (σ × List Char × α)}
    (hread : ∀ p ∈ ps, readAtom p.2.1 = some p.2.2) {cs : List Char}
    (h : Denotes some readString .value cs
      (Value.object (ps.map fun p => (p.1, Value.atom p.2.1)))) :
    Denotes readAtom readString .value cs
      (Value.object (ps.map fun p => (p.1, Value.atom p.2.2))) := by
  generalize hms : ps.map (fun p => (p.1, Value.atom p.2.1)) = ms at h
  cases h with
  | emptyObject hblank =>
    obtain rfl := List.map_eq_nil_iff.mp hms
    exact .emptyObject hblank
  | object hmembers => exact .object (read_members hread (hms ▸ hmembers))

/-- The text of an object is one. -/
theorem Denotes.isObject {cs : List Char} {ms : List (σ × Value α σ)}
    (h : Denotes readAtom readString .value cs (Value.object ms)) : Object cs := by
  refine ⟨h.json, ?_⟩
  cases h with
  | emptyObject _ => rfl
  | object _ => rfl

/-- White space around a value is optional. -/
theorem Denotes.of_value {cs : List Char} {v : Value α σ}
    (h : Denotes readAtom readString .value cs v) : Denotes readAtom readString .element cs v := by
  have hnil : Blank [] := by simp [Blank]
  have helement := Denotes.element hnil h hnil
  rwa [List.nil_append, List.append_nil] at helement

/-! ### Tokens -/

/-- A text without the white space at its head. -/
def skipBlanks (cs : List Char) : List Char := cs.dropWhile (decide <| IsBlank ·)

/-- The plain word at the head of a text, and the rest. -/
def takeWord (cs : List Char) : List Char × List Char :=
  (cs.takeWhile (decide <| IsPlain ·), cs.dropWhile (decide <| IsPlain ·))

/-- What stands before the quote that closes a string, and what after it. -/
def takeString : List Char → Option (List Char × List Char)
  | [] => none
  | c :: cs =>
    if c = quote then some ([], cs)
    else if c = backslash then
      match cs with
      | [] => none
      | d :: cs => (takeString cs).map fun r => (c :: d :: r.1, r.2)
    else (takeString cs).map fun r => (c :: r.1, r.2)

/-- The rest of a text that starts with `c`. -/
def expect (c : Char) : List Char → Option (List Char)
  | [] => none
  | d :: cs => if d = c then some cs else none

/-- The character expected is taken off. -/
theorem expect_eq_some {c : Char} {cs rest : List Char} :
    expect c cs = some rest ↔ cs = c :: rest := by
  cases cs with
  | nil => simp [expect]
  | cons d cs => simp [expect]

/-- It is taken off when it is there. -/
@[simp] theorem expect_self (c : Char) (cs : List Char) : expect c (c :: cs) = some cs :=
  if_pos rfl

/-- What is skipped is blank. -/
theorem skipBlanks_split (cs : List Char) : ∃ w, Blank w ∧ cs = w ++ skipBlanks cs := by
  refine ⟨cs.takeWhile (decide <| IsBlank ·), fun c hc => ?_, List.takeWhile_append_dropWhile.symm⟩
  simpa using List.mem_takeWhile_imp hc

/-- Where a run of characters ends. -/
theorem takeWhile_dropWhile_append {p : Char → Bool} {cs rest : List Char}
    (h : ∀ c ∈ cs, p c = true) (hrest : ∀ c ∈ rest.head?, ¬ p c = true) :
    ((cs ++ rest).takeWhile p, (cs ++ rest).dropWhile p) = (cs, rest) := by
  have hnil : rest.takeWhile p = [] ∧ rest.dropWhile p = rest := by
    cases rest with
    | nil => exact ⟨rfl, rfl⟩
    | cons c rest =>
      exact ⟨List.takeWhile_cons_of_neg (hrest c rfl), List.dropWhile_cons_of_neg (hrest c rfl)⟩
  rw [List.takeWhile_append_of_pos h, List.dropWhile_append_of_pos h, hnil.1, hnil.2,
    List.append_nil]

/-- All of the blank is skipped. -/
theorem skipBlanks_append {w rest : List Char} (hw : Blank w)
    (hrest : ∀ c ∈ rest.head?, ¬ IsBlank c) : skipBlanks (w ++ rest) = rest := by
  have hsplit := takeWhile_dropWhile_append (fun c hc => decide_eq_true (hw c hc))
    fun c hc => by simpa using hrest c hc
  exact (Prod.mk.inj hsplit).2

/-- What is taken is plain. -/
theorem takeWord_split (cs : List Char) :
    (∀ c ∈ (takeWord cs).1, IsPlain c) ∧ cs = (takeWord cs).1 ++ (takeWord cs).2 :=
  ⟨fun c hc => by simpa using List.mem_takeWhile_imp hc, List.takeWhile_append_dropWhile.symm⟩

/-- All of a word is taken. -/
theorem takeWord_append {cs rest : List Char} (h : ∀ c ∈ cs, IsPlain c)
    (hrest : ∀ c ∈ rest.head?, ¬ IsPlain c) : takeWord (cs ++ rest) = (cs, rest) :=
  takeWhile_dropWhile_append (fun c hc => decide_eq_true (h c hc))
    fun c hc => by simpa using hrest c hc

/-- The closing quote ends the string. -/
theorem takeString_quote (cs : List Char) : takeString (quote :: cs) = some ([], cs) := by
  cases cs <;> rfl

/-- A backslash takes the next character with it. -/
theorem takeString_escape (c : Char) (cs : List Char) :
    takeString (backslash :: c :: cs) =
      (takeString cs).map fun r => (backslash :: c :: r.1, r.2) := rfl

/-- Any other character stands for itself. -/
theorem takeString_char {c : Char} (hq : c ≠ quote) (hb : c ≠ backslash) (cs : List Char) :
    takeString (c :: cs) = (takeString cs).map fun r => (c :: r.1, r.2) := by
  cases cs <;> simp [takeString, hq, hb]

/-- The body of a string is taken whole. -/
theorem takeString_append {body : List Char} (h : StringBody body) (rest : List Char) :
    takeString (body ++ quote :: rest) = some (body, rest) := by
  induction h with
  | nil => exact takeString_quote rest
  | @char c cs hq hb h ih =>
    rw [List.cons_append, takeString_char hq hb, ih]
    rfl
  | @escape c cs h ih =>
    rw [List.cons_append, List.cons_append, takeString_escape, ih]
    rfl

/-- What is taken is the body of a string. -/
theorem takeString_split {cs body rest : List Char} (h : takeString cs = some (body, rest)) :
    StringBody body ∧ cs = body ++ quote :: rest := by
  fun_induction takeString cs generalizing body rest with
  | case1 => cases h
  | case2 cs =>
    cases h
    exact ⟨.nil, rfl⟩
  | case3 => cases h
  | case4 d cs _ ih =>
    obtain ⟨⟨body', rest'⟩, htake, hr⟩ := Option.map_eq_some_iff.mp h
    cases hr
    obtain ⟨hbody, rfl⟩ := ih htake
    exact ⟨.escape hbody, rfl⟩
  | case5 c cs hq hb ih =>
    obtain ⟨⟨body', rest'⟩, htake, hr⟩ := Option.map_eq_some_iff.mp h
    cases hr
    obtain ⟨hbody, rfl⟩ := ih htake
    exact ⟨.char hq hb hbody, rfl⟩

/-! ### The parser -/

variable (readAtom readString)

/-- The text of a category at the head of `cs`, and the rest. -/
def parse : ℕ → (cat : Category) → List Char → Option (Result α σ cat × List Char)
  | 0, _, _ => none
  | n + 1, .value, cs =>
    match cs with
    | [] => none
    | c :: cs =>
      if c = quote then do
        let (body, rest) ← takeString cs
        let s ← readString body
        return (Value.string s, rest)
      else if c = openBracket then
        match expect closeBracket (skipBlanks cs) with
        | some rest => some (Value.array [], rest)
        | none => do
          let (vs, rest) ← parse n .elements cs
          let rest ← expect closeBracket rest
          return (Value.array vs, rest)
      else if c = openBrace then
        match expect closeBrace (skipBlanks cs) with
        | some rest => some (Value.object [], rest)
        | none => do
          let (ms, rest) ← parse n .members cs
          let rest ← expect closeBrace rest
          return (Value.object ms, rest)
      else if (takeWord (c :: cs)).1 = [] then none
      else do
        let a ← readAtom (takeWord (c :: cs)).1
        return (Value.atom a, (takeWord (c :: cs)).2)
  | n + 1, .element, cs => do
    let (v, rest) ← parse n .value (skipBlanks cs)
    return (v, skipBlanks rest)
  | n + 1, .elements, cs => do
    let (v, rest) ← parse n .element cs
    match expect comma rest with
    | some rest => do
      let (vs, rest) ← parse n .elements rest
      return (v :: vs, rest)
    | none => return ([v], rest)
  | n + 1, .member, cs => do
    let cs ← expect quote (skipBlanks cs)
    let (body, rest) ← takeString cs
    let s ← readString body
    let rest ← expect colon (skipBlanks rest)
    let (v, rest) ← parse n .element rest
    return ((s, v), rest)
  | n + 1, .members, cs => do
    let (m, rest) ← parse n .member cs
    match expect comma rest with
    | some rest => do
      let (ms, rest) ← parse n .members rest
      return (m :: ms, rest)
    | none => return ([m], rest)

/-- The value of a whole text. -/
def loads (text : List Char) : Option (Value α σ) :=
  match parse readAtom readString (3 * text.length + 3) .element text with
  | some (v, []) => some v
  | _ => none

variable {readAtom readString}

/-! ### Productions, one call each -/

section Productions

attribute [local simp] parse

variable {n : ℕ} {cs rest rest' : List Char}

/-- A word that can be read is a value. -/
theorem parse_atom {a : α} (hne : cs ≠ []) (h : ∀ c ∈ cs, IsPlain c) (hread : readAtom cs = some a)
    (hrest : ∀ c ∈ rest.head?, ¬ IsPlain c) :
    parse readAtom readString (n + 1) .value (cs ++ rest) = some (Value.atom a, rest) := by
  obtain ⟨c, cs, rfl⟩ := List.exists_cons_of_ne_nil hne
  have hword := takeWord_append h hrest
  have hplain := (h c (List.mem_cons_self ..)).1
  simp only [List.mem_cons, List.not_mem_nil, or_false, not_or] at hplain
  rw [List.cons_append] at hword ⊢
  simp [hplain, hword, hread]

/-- A quoted body that can be read is a value. -/
theorem parse_string {body : List Char} {s : σ} (h : StringBody body)
    (hread : readString body = some s) :
    parse readAtom readString (n + 1) .value (quote :: (body ++ quote :: rest)) =
      some (Value.string s, rest) := by
  simp [takeString_append h, hread]

/-- Brackets around blanks. -/
theorem parse_emptyArray (h : skipBlanks cs = closeBracket :: rest) :
    parse readAtom readString (n + 1) .value (openBracket :: cs) =
      some (Value.array [], rest) := by
  have hne : openBracket ≠ quote := by decide
  simp [hne, h]

/-- Brackets around elements. -/
theorem parse_array {vs : List (Value α σ)}
    (h : parse readAtom readString n .elements cs = some (vs, closeBracket :: rest))
    (hsome : expect closeBracket (skipBlanks cs) = none) :
    parse readAtom readString (n + 1) .value (openBracket :: cs) =
      some (Value.array vs, rest) := by
  have hne : openBracket ≠ quote := by decide
  simp [hne, h, hsome]

/-- Braces around blanks. -/
theorem parse_emptyObject (h : skipBlanks cs = closeBrace :: rest) :
    parse readAtom readString (n + 1) .value (openBrace :: cs) =
      some (Value.object [], rest) := by
  have hne : openBrace ≠ quote ∧ openBrace ≠ openBracket := by decide
  simp [hne, h]

/-- Braces around members. -/
theorem parse_object {ms : List (σ × Value α σ)}
    (h : parse readAtom readString n .members cs = some (ms, closeBrace :: rest))
    (hsome : expect closeBrace (skipBlanks cs) = none) :
    parse readAtom readString (n + 1) .value (openBrace :: cs) =
      some (Value.object ms, rest) := by
  have hne : openBrace ≠ quote ∧ openBrace ≠ openBracket := by decide
  simp [hne, h, hsome]

/-- A value between blanks. -/
theorem parse_element {v : Value α σ}
    (h : parse readAtom readString n .value (skipBlanks cs) = some (v, rest)) :
    parse readAtom readString (n + 1) .element cs = some (v, skipBlanks rest) := by
  simp [h]

/-- The last element. -/
theorem parse_oneElement {v : Value α σ}
    (h : parse readAtom readString n .element cs = some (v, rest))
    (hend : expect comma rest = none) :
    parse readAtom readString (n + 1) .elements cs = some ([v], rest) := by
  simp [h, hend]

/-- An element before a comma. -/
theorem parse_moreElements {v : Value α σ} {vs : List (Value α σ)}
    (h : parse readAtom readString n .element cs = some (v, comma :: rest))
    (hs : parse readAtom readString n .elements rest = some (vs, rest')) :
    parse readAtom readString (n + 1) .elements cs = some (v :: vs, rest') := by
  simp [h, hs]

/-- A key, a colon and an element. -/
theorem parse_member {body after : List Char} {s : σ} {v : Value α σ}
    (hquote : skipBlanks cs = quote :: (body ++ quote :: rest)) (hbody : StringBody body)
    (hread : readString body = some s) (hcolon : skipBlanks rest = colon :: rest')
    (h : parse readAtom readString n .element rest' = some (v, after)) :
    parse readAtom readString (n + 1) .member cs = some ((s, v), after) := by
  simp [hquote, takeString_append hbody, hread, hcolon, h]

/-- The last member. -/
theorem parse_oneMember {m : σ × Value α σ}
    (h : parse readAtom readString n .member cs = some (m, rest))
    (hend : expect comma rest = none) :
    parse readAtom readString (n + 1) .members cs = some ([m], rest) := by
  simp [h, hend]

/-- A member before a comma. -/
theorem parse_moreMembers {m : σ × Value α σ} {ms : List (σ × Value α σ)}
    (h : parse readAtom readString n .member cs = some (m, comma :: rest))
    (hs : parse readAtom readString n .members rest = some (ms, rest')) :
    parse readAtom readString (n + 1) .members cs = some (m :: ms, rest') := by
  simp [h, hs]

end Productions

/-! ### Soundness -/

/-- With fuel `n`, what is read is what the grammar says. -/
def Sound (readAtom : List Char → Option α) (readString : List Char → Option σ) (n : ℕ) : Prop :=
  ∀ {cat : Category} {cs rest : List Char} {r : Result α σ cat},
    parse readAtom readString n cat cs = some (r, rest) →
      ∃ used, cs = used ++ rest ∧ Denotes readAtom readString cat used r

section Soundness

variable {n : ℕ} {cs rest : List Char}

/-- Soundness of a value, by its first character. -/
theorem Sound.value (ih : Sound readAtom readString n) {v : Value α σ}
    (h : parse readAtom readString (n + 1) .value cs = some (v, rest)) :
    ∃ used, cs = used ++ rest ∧ Denotes readAtom readString .value used v := by
  cases cs with
  | nil => cases h
  | cons c cs =>
    simp only [parse] at h
    split_ifs at h with hquote hbracket hbrace hword
    · -- A string.
      simp only [Option.bind_eq_bind, Option.bind_eq_some_iff, Option.pure_def,
        Option.some.injEq, Prod.mk.injEq] at h
      obtain ⟨⟨body, rest'⟩, htake, s, hread, rfl, rfl⟩ := h
      obtain ⟨hbody, rfl⟩ := takeString_split htake
      exact ⟨_, by simp [hquote], .string hbody hread⟩
    · -- An array, which may be empty.
      subst hbracket
      obtain ⟨w, hw, hcs⟩ := skipBlanks_split cs
      split at h
      next rest' hexpect =>
        rw [expect_eq_some] at hexpect
        obtain ⟨rfl, rfl⟩ := Prod.mk.inj (Option.some.inj h)
        refine ⟨_, ?_, .emptyArray hw⟩
        rw [hcs, hexpect]
        simp
      next =>
        simp only [Option.bind_eq_bind, Option.bind_eq_some_iff, Option.pure_def,
          Option.some.injEq, Prod.mk.injEq] at h
        obtain ⟨⟨vs, rest'⟩, hvs, rest'', hexpect, rfl, rfl⟩ := h
        obtain ⟨used, rfl, hden⟩ := ih hvs
        obtain rfl := expect_eq_some.mp hexpect
        exact ⟨_, by simp, .array hden⟩
    · -- An object, likewise.
      subst hbrace
      obtain ⟨w, hw, hcs⟩ := skipBlanks_split cs
      split at h
      next rest' hexpect =>
        rw [expect_eq_some] at hexpect
        obtain ⟨rfl, rfl⟩ := Prod.mk.inj (Option.some.inj h)
        refine ⟨_, ?_, .emptyObject hw⟩
        rw [hcs, hexpect]
        simp
      next =>
        simp only [Option.bind_eq_bind, Option.bind_eq_some_iff, Option.pure_def,
          Option.some.injEq, Prod.mk.injEq] at h
        obtain ⟨⟨ms, rest'⟩, hms, rest'', hexpect, rfl, rfl⟩ := h
        obtain ⟨used, rfl, hden⟩ := ih hms
        obtain rfl := expect_eq_some.mp hexpect
        exact ⟨_, by simp, .object hden⟩
    · -- A word.
      simp only [Option.bind_eq_bind, Option.bind_eq_some_iff, Option.pure_def,
        Option.some.injEq, Prod.mk.injEq] at h
      obtain ⟨a, hread, rfl, rfl⟩ := h
      obtain ⟨hplain, hsplit⟩ := takeWord_split (c :: cs)
      exact ⟨_, hsplit, .atom hword hplain hread⟩

/-- Soundness of an element, from its value. -/
theorem Sound.element (ih : Sound readAtom readString n) {v : Value α σ}
    (h : parse readAtom readString (n + 1) .element cs = some (v, rest)) :
    ∃ used, cs = used ++ rest ∧ Denotes readAtom readString .element used v := by
  simp only [parse, Option.bind_eq_bind, Option.bind_eq_some_iff, Option.pure_def,
    Option.some.injEq, Prod.mk.injEq] at h
  obtain ⟨⟨v, rest'⟩, hv, rfl, rfl⟩ := h
  obtain ⟨w, hw, hcs⟩ := skipBlanks_split cs
  obtain ⟨w', hw', hrest⟩ := skipBlanks_split rest'
  obtain ⟨used, hused, hden⟩ := ih hv
  refine ⟨w ++ used ++ w', ?_, .element hw hden hw'⟩
  rw [hused, hrest] at hcs
  rw [hcs]
  simp

/-- Soundness of elements, from the first and the rest. -/
theorem Sound.elements (ih : Sound readAtom readString n) {vs : List (Value α σ)}
    (h : parse readAtom readString (n + 1) .elements cs = some (vs, rest)) :
    ∃ used, cs = used ++ rest ∧ Denotes readAtom readString .elements used vs := by
  simp only [parse, Option.bind_eq_bind, Option.bind_eq_some_iff] at h
  obtain ⟨⟨v, rest'⟩, hv, h⟩ := h
  obtain ⟨used, rfl, hden⟩ := ih hv
  split at h
  next rest'' hexpect =>
    obtain rfl := expect_eq_some.mp hexpect
    simp only [Option.bind_eq_some_iff, Option.pure_def, Option.some.injEq, Prod.mk.injEq] at h
    obtain ⟨⟨vs', rest'⟩, hvs, rfl, rfl⟩ := h
    obtain ⟨used', rfl, hdens⟩ := ih hvs
    exact ⟨_, by simp, .moreElements hden hdens⟩
  next =>
    obtain ⟨rfl, rfl⟩ := Prod.mk.inj (Option.some.inj h)
    exact ⟨_, rfl, .oneElement hden⟩

/-- Soundness of a member, from its key and its element. -/
theorem Sound.member (ih : Sound readAtom readString n) {m : σ × Value α σ}
    (h : parse readAtom readString (n + 1) .member cs = some (m, rest)) :
    ∃ used, cs = used ++ rest ∧ Denotes readAtom readString .member used m := by
  simp only [parse, Option.bind_eq_bind, Option.bind_eq_some_iff, Option.pure_def,
    Option.some.injEq, Prod.mk.injEq, expect_eq_some] at h
  obtain ⟨cs', hquote, ⟨key, rest'⟩, htake, s, hread, rest'', hcolon, ⟨v, rest⟩, hv, rfl, rfl⟩ := h
  obtain ⟨w, hw, hcs⟩ := skipBlanks_split cs
  obtain ⟨w', hw', hrest⟩ := skipBlanks_split rest'
  obtain ⟨hkey, rfl⟩ := takeString_split htake
  obtain ⟨used, rfl, hden⟩ := ih hv
  refine ⟨_, ?_, .member hw hkey hread hw' hden⟩
  rw [hcs, hquote, hrest, hcolon]
  simp

/-- Soundness of members, from the first and the rest. -/
theorem Sound.members (ih : Sound readAtom readString n) {ms : List (σ × Value α σ)}
    (h : parse readAtom readString (n + 1) .members cs = some (ms, rest)) :
    ∃ used, cs = used ++ rest ∧ Denotes readAtom readString .members used ms := by
  simp only [parse, Option.bind_eq_bind, Option.bind_eq_some_iff] at h
  obtain ⟨⟨m, rest'⟩, hm, h⟩ := h
  obtain ⟨used, rfl, hden⟩ := ih hm
  split at h
  next rest'' hexpect =>
    obtain rfl := expect_eq_some.mp hexpect
    simp only [Option.bind_eq_some_iff, Option.pure_def, Option.some.injEq, Prod.mk.injEq] at h
    obtain ⟨⟨ms', rest'⟩, hms, rfl, rfl⟩ := h
    obtain ⟨used', rfl, hdens⟩ := ih hms
    exact ⟨_, by simp, .moreMembers hden hdens⟩
  next =>
    obtain ⟨rfl, rfl⟩ := Prod.mk.inj (Option.some.inj h)
    exact ⟨_, rfl, .oneMember hden⟩

end Soundness

/-- **What the parser reads is what the grammar says.** -/
theorem parse_sound (n : ℕ) : Sound readAtom readString n := by
  induction n with
  | zero => exact fun h => nomatch h
  | succ n ih =>
    intro cat cs rest r h
    cases cat with
    | value => exact ih.value h
    | element => exact ih.element h
    | elements => exact ih.elements h
    | member => exact ih.member h
    | members => exact ih.members h

/-! ### Completeness -/

/-- A character that ends a text of the category. -/
def Stops : Category → Char → Prop
  | .value, c => ¬ IsPlain c
  | .element, c | .member, c => ¬ IsPlain c ∧ ¬ IsBlank c
  | .elements, c | .members, c => ¬ IsPlain c ∧ ¬ IsBlank c ∧ c ≠ comma

/-- How many calls deep a category is above the values within it. -/
def Category.rank : Category → ℕ
  | .value | .member => 0
  | .element | .members => 1
  | .elements => 2

/-- Any other character is refused. -/
theorem expect_eq_none {c : Char} {cs : List Char} (h : ∀ d ∈ cs.head?, d ≠ c) :
    expect c cs = none := by
  cases cs with
  | nil => rfl
  | cons d cs => exact if_neg (h d rfl)

/-- A value begins with neither a blank nor a closing bracket. -/
theorem Json.head_value {cs : List Char} (h : Json .value cs) :
    ∃ c cs', cs = c :: cs' ∧ ¬ IsBlank c ∧ c ≠ closeBracket := by
  cases h with
  | atom hne h =>
    obtain ⟨c, cs', rfl⟩ := List.exists_cons_of_ne_nil hne
    have hplain := h c (List.mem_cons_self ..)
    refine ⟨c, cs', rfl, hplain.2, ?_⟩
    rintro rfl
    exact absurd hplain (by decide)
  | string h => exact ⟨_, _, rfl, by decide, by decide⟩
  | emptyArray h => exact ⟨_, _, rfl, by decide, by decide⟩
  | array h => exact ⟨_, _, rfl, by decide, by decide⟩
  | emptyObject h => exact ⟨_, _, rfl, by decide, by decide⟩
  | object h => exact ⟨_, _, rfl, by decide, by decide⟩

/-- A value at the head of a text, after blanks. -/
theorem Json.skipBlanks_value {w cs : List Char} (hw : Blank w) (h : Json .value cs)
    (rest : List Char) : skipBlanks (w ++ (cs ++ rest)) = cs ++ rest := by
  obtain ⟨c, cs', rfl, hblank, -⟩ := h.head_value
  refine skipBlanks_append hw fun d hd => ?_
  cases hd
  exact hblank

/-- The elements of an array are not its end. -/
theorem Json.expect_elements {cs : List Char} (h : Json .elements cs) (rest : List Char) :
    expect closeBracket (skipBlanks (cs ++ rest)) = none := by
  have helement {e : List Char} (he : Json .element e) (rest : List Char) :
      expect closeBracket (skipBlanks (e ++ rest)) = none := by
    cases he with
    | @element w v w' hw hv hw' =>
      rw [List.append_assoc, List.append_assoc, hv.skipBlanks_value hw]
      obtain ⟨c, cs', rfl, -, hne⟩ := hv.head_value
      exact if_neg hne
  cases h with
  | oneElement h => exact helement h rest
  | moreElements h hs =>
    rw [List.append_assoc]
    exact helement h _

/-- The members of an object are not its end. -/
theorem Json.expect_members {cs : List Char} (h : Json .members cs) (rest : List Char) :
    expect closeBrace (skipBlanks (cs ++ rest)) = none := by
  have hmember {m : List Char} (hm : Json .member m) (rest : List Char) :
      expect closeBrace (skipBlanks (m ++ rest)) = none := by
    cases hm with
    | @member w k w' e hw hk hw' he =>
      have hquote : ∀ c ∈ (quote :: (k ++ [quote] ++ (w' ++ colon :: e) ++ rest)).head?,
          ¬ IsBlank c := by
        intro c hc
        obtain rfl : quote = c := Option.some.inj hc
        decide
      have hskip := skipBlanks_append hw hquote
      simp only [List.append_assoc, List.cons_append, List.nil_append] at hskip ⊢
      rw [hskip]
      rfl
  cases h with
  | oneMember h => exact hmember h rest
  | moreMembers h hs =>
    rw [List.append_assoc]
    exact hmember h _

/-- A blank is no part of a word. -/
theorem not_isPlain_of_isBlank {c : Char} (h : IsBlank c) : ¬ IsPlain c := fun hplain => hplain.2 h

/-- What follows a value within an element. -/
theorem head_blanks_append {w rest : List Char} (hw : Blank w)
    (hrest : ∀ c ∈ rest.head?, ¬ IsPlain c) : ∀ c ∈ (w ++ rest).head?, ¬ IsPlain c := by
  cases w with
  | nil => exact hrest
  | cons d w =>
    intro c hc
    obtain rfl : d = c := Option.some.inj hc
    exact not_isPlain_of_isBlank (hw d (List.mem_cons_self ..))

/-- What may follow elements, members, an element and a member. -/
theorem stops_closeBracket : Stops .elements closeBracket := ⟨by decide, by decide, by decide⟩
theorem stops_closeBrace : Stops .members closeBrace := ⟨by decide, by decide, by decide⟩
theorem stops_comma_element : Stops .element comma := ⟨by decide, by decide⟩
theorem stops_comma_member : Stops .member comma := ⟨by decide, by decide⟩

/-- A fact about the first character. -/
theorem head_cons {P : Char → Prop} {c : Char} (hc : P c) (cs : List Char) :
    ∀ d ∈ (c :: cs).head?, P d := by
  intro d hd
  obtain rfl : c = d := Option.some.inj hd
  exact hc

/-- **The parser reads all that the grammar says.** -/
theorem parse_complete {cat : Category} {used : List Char} {r : Result α σ cat}
    (h : Denotes readAtom readString cat used r) {rest : List Char}
    (hrest : ∀ c ∈ rest.head?, Stops cat c) {n : ℕ} (hn : 3 * used.length + cat.rank < n) :
    parse readAtom readString n cat (used ++ rest) = some (r, rest) := by
  -- Each production takes one call.
  obtain ⟨n, rfl⟩ : ∃ m, n = m + 1 := ⟨n - 1, by omega⟩
  induction h generalizing rest n with
  | atom hne h hread => exact parse_atom hne h hread hrest
  | string h hread => simpa using parse_string h hread
  | emptyArray h => simpa using parse_emptyArray (skipBlanks_append h (head_cons (by decide) rest))
  | @array cs vs h ih =>
    simp only [List.length_cons, List.length_append, Category.rank] at hn ih
    obtain ⟨n, rfl⟩ : ∃ m, n = m + 1 := ⟨n - 1, by omega⟩
    have hvs := ih (head_cons stops_closeBracket rest) n (by omega)
    simpa using parse_array hvs (h.json.expect_elements _)
  | emptyObject h =>
    simpa using parse_emptyObject (skipBlanks_append h (head_cons (by decide) rest))
  | @object cs ms h ih =>
    simp only [List.length_cons, List.length_append, Category.rank] at hn ih
    obtain ⟨n, rfl⟩ : ∃ m, n = m + 1 := ⟨n - 1, by omega⟩
    have hms := ih (head_cons stops_closeBrace rest) n (by omega)
    simpa using parse_object hms (h.json.expect_members _)
  | @element w cs w' v hw hv hw' ih =>
    simp only [List.length_append, Category.rank] at hn ih
    obtain ⟨n, rfl⟩ : ∃ m, n = m + 1 := ⟨n - 1, by omega⟩
    have hstop := head_blanks_append hw' fun c hc => (hrest c hc).1
    have hvalue := ih hstop n (by omega)
    rw [← hv.json.skipBlanks_value hw] at hvalue
    have helement := parse_element hvalue
    rw [skipBlanks_append hw' fun c hc => (hrest c hc).2] at helement
    simpa using helement
  | oneElement h ih =>
    simp only [Category.rank] at hn ih
    obtain ⟨n, rfl⟩ : ∃ m, n = m + 1 := ⟨n - 1, by omega⟩
    have hv := ih (fun c hc => ⟨(hrest c hc).1, (hrest c hc).2.1⟩) n (by omega)
    exact parse_oneElement hv (expect_eq_none fun c hc => (hrest c hc).2.2)
  | @moreElements cs cs' v vs h hs ih ihs =>
    simp only [List.length_cons, List.length_append, Category.rank] at hn ih ihs
    obtain ⟨n, rfl⟩ : ∃ m, n = m + 1 := ⟨n - 1, by omega⟩
    have hv := ih (head_cons stops_comma_element (cs' ++ rest)) n (by omega)
    have hvs := ihs hrest n (by omega)
    simpa using parse_moreElements hv hvs
  | @member w k w' cs s v hw hk hread hw' he ih =>
    simp only [List.length_cons, List.length_append, Category.rank] at hn ih
    obtain ⟨n, rfl⟩ : ∃ m, n = m + 1 := ⟨n - 1, by omega⟩
    have hv := ih hrest n (by omega)
    have hquote := skipBlanks_append hw
      (head_cons (c := quote) (by decide) (k ++ quote :: (w' ++ colon :: (cs ++ rest))))
    have hcolon := skipBlanks_append hw' (head_cons (c := colon) (by decide) (cs ++ rest))
    simpa using parse_member hquote hk hread hcolon hv
  | oneMember h ih =>
    simp only [Category.rank] at hn ih
    obtain ⟨n, rfl⟩ : ∃ m, n = m + 1 := ⟨n - 1, by omega⟩
    have hm := ih (fun c hc => ⟨(hrest c hc).1, (hrest c hc).2.1⟩) n (by omega)
    exact parse_oneMember hm (expect_eq_none fun c hc => (hrest c hc).2.2)
  | @moreMembers cs cs' m ms h hs ih ihs =>
    simp only [List.length_cons, List.length_append, Category.rank] at hn ih ihs
    obtain ⟨n, rfl⟩ : ∃ m, n = m + 1 := ⟨n - 1, by omega⟩
    have hm := ih (head_cons stops_comma_member (cs' ++ rest)) n (by omega)
    have hms := ihs hrest n (by omega)
    simpa using parse_moreMembers hm hms

/-! ### Whole texts -/

/-- **A text is accepted exactly with the value that the grammar gives it.** -/
theorem loads_eq_some {text : List Char} {v : Value α σ} :
    loads readAtom readString text = some v ↔ Denotes readAtom readString .element text v := by
  unfold loads
  constructor
  · intro h
    split at h
    next v' hparse =>
      obtain ⟨used, hused, hden⟩ := parse_sound _ hparse
      rw [List.append_nil] at hused
      subst hused
      exact Option.some.inj h ▸ hden
    next => cases h
  · intro h
    have hend : ∀ c ∈ ([] : List Char).head?, Stops .element c := fun c hc => nomatch hc
    have hfuel : 3 * text.length + Category.element.rank < 3 * text.length + 3 := by
      simp only [Category.rank]
      omega
    have hparse := parse_complete h hend hfuel
    rw [List.append_nil] at hparse
    rw [hparse]

/-- No text has two values. -/
theorem Denotes.unique {text : List Char} {v v' : Value α σ}
    (h : Denotes readAtom readString .element text v)
    (h' : Denotes readAtom readString .element text v') : v = v' :=
  Option.some.inj ((loads_eq_some.mpr h).symm.trans (loads_eq_some.mpr h'))

end JsonText
