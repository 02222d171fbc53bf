import Ikofi.Keys.Listed

/-!
# Files of plain keys

A file of key lines without options, as `ssh-keygen` writes them, lets in exactly its keys.
A line of blanks among them ends the process of whoever asks for a key behind it.
-/

namespace Ikofi.Keys

open Wire

/-- `signkey_names` -/
def signkeyNames : List Bytes :=
  ["ssh-rsa", "ecdsa-sha2-nistp256", "ecdsa-sha2-nistp384", "ecdsa-sha2-nistp521",
    "sk-ecdsa-sha2-nistp256@openssh.com", "ssh-ed25519", "sk-ssh-ed25519@openssh.com"].map lit

/-- A byte that no name has. -/
def special (c : UInt8) : Bool :=
  isBlank c || c == 0 || c == 10 || c == 13 || c == 34 || c == 92

structure NameFacts (name : Bytes) : Prop where
  plain : ∀ c ∈ name, special c = false
  starts : ∃ c rest, name = c :: rest ∧ c ≠ 35 ∧ c ≠ 65
  long : 7 ≤ name.length
  short : name.length ≤ 34

theorem nameFacts {name : Bytes} (known : name ∈ signkeyNames) : NameFacts name := by
  have table : (signkeyNames.all fun n => n.all (fun c => !special c) && n.headD 35 != 35 &&
      n.headD 65 != 65 && decide (7 ≤ n.length) && decide (n.length ≤ 34)) = true := by
    decide +kernel
  have facts := List.all_eq_true.mp table name known
  simp only [Bool.and_eq_true, List.all_eq_true, Bool.not_eq_true', bne_iff_ne, ne_eq,
    decide_eq_true_eq] at facts
  obtain ⟨⟨⟨⟨plain, sharp⟩, letter⟩, long⟩, short⟩ := facts
  refine ⟨plain, ?_, long, short⟩
  cases name with
  | nil => exact absurd long (by decide)
  | cons c rest => exact ⟨c, rest, rfl, sharp, letter⟩

/-- A public key as it is sent: its type, and the numbers behind it. -/
def keyBlob (name key : Bytes) : Bytes := putString name ++ key

def keyLine (name key comment : Bytes) : Bytes :=
  name ++ 32 :: (Base64.encode (keyBlob name key) ++ if comment = [] then [] else 32 :: comment)

/-- A line of a key without options. -/
structure PlainKey where
  name : Bytes
  key : Bytes
  comment : Bytes
  known : name ∈ signkeyNames
  plain : ∀ c ∈ comment, c ≠ 0 ∧ c ≠ 10 ∧ c ≠ 13
  short : (keyLine name key comment).length < maxAuthkeysLine

def PlainKey.line (e : PlainKey) : Bytes := keyLine e.name e.key e.comment

/-! ## Reading the lines -/

theorem getlines_line {sofar line : Bytes} (plain : ∀ c ∈ line, c ≠ 10 ∧ c ≠ 13)
    (short : sofar.length + line.length < maxAuthkeysLine) (rest : Bytes) :
    getlines sofar (line ++ 10 :: rest) = (sofar ++ line) :: getlines [] rest := by
  induction line generalizing sofar with
  | nil => rw [List.nil_append, getlines, if_pos (Or.inl rfl), List.append_nil]
  | cons c line ih =>
    rw [List.forall_mem_cons] at plain
    rw [List.length_cons] at short
    rw [List.cons_append, getlines, if_neg (not_or.mpr plain.1), if_neg (by omega), ih plain.2]
    · rw [List.append_assoc, List.singleton_append]
    · rw [List.length_append, List.length_singleton]
      omega

section
variable {e : PlainKey}

theorem PlainKey.line_plain (e : PlainKey) : ∀ c ∈ e.line, c ≠ 0 ∧ c ≠ 10 ∧ c ≠ 13 := by
  intro c hc
  have notSpecial {d : UInt8} (h : special d = false) : d ≠ 0 ∧ d ≠ 10 ∧ d ≠ 13 := by
    simp only [special, Bool.or_eq_false_iff, beq_eq_false_iff_ne] at h
    exact ⟨h.1.1.1.1.2, h.1.1.1.2, h.1.1.2⟩
  rw [line, keyLine, List.mem_append, List.mem_cons, List.mem_append] at hc
  obtain hc | rfl | hc | hc := hc
  · exact notSpecial ((nameFacts e.known).plain c hc)
  · decide
  · obtain ⟨zero, feed, -⟩ := Base64.encode_plain hc
    exact ⟨zero, feed, Base64.encode_ne_return hc⟩
  · split at hc
    · cases hc
    · obtain rfl | hc := List.mem_cons.mp hc
      · decide
      · exact e.plain c hc

def fileOf (entries : List PlainKey) : Bytes := entries.flatMap fun e => e.line ++ [10]

theorem getlines_fileOf (entries : List PlainKey) :
    getlines [] (fileOf entries) = entries.map PlainKey.line := by
  induction entries with
  | nil => rfl
  | cons e es ih =>
    rw [fileOf, List.flatMap_cons, List.append_assoc, List.singleton_append,
      getlines_line (fun c hc => (e.line_plain c hc).2), List.nil_append, List.map_cons]
    · exact congrArg _ ih
    · rw [List.length_nil, Nat.zero_add]
      exact e.short

/-! ## One line -/

/-- The base64 text of a key starts with the length of its type's name. -/
theorem encode_keyBlob {name : Bytes} (key : Bytes) (short : name.length ≤ 34) :
    ∃ rest, Base64.encode (keyBlob name key) = 65 :: rest ∧ 3 ≤ rest.length := by
  have first : UInt8.ofNat (name.length / 0x1000000) = 0 := by
    rw [Nat.div_eq_of_lt (by omega)]
    rfl
  unfold keyBlob putString store32
  rw [first]
  refine ⟨_, rfl, ?_⟩
  simp only [List.length_cons]
  omega

theorem takeWhile_data {text : Bytes} (comment : Bytes) (plain : (32 : UInt8) ∉ text) :
    (text ++ if comment = [] then [] else 32 :: comment).takeWhile (· != 32) = text ∧
      (text ++ if comment = [] then [] else 32 :: comment).drop (text.length + 1) = comment := by
  have all : ∀ c ∈ text, (c != 32) = true := by
    intro c hc
    apply bne_iff_ne.mpr
    rintro rfl
    exact plain hc
  rw [List.takeWhile_append_of_pos all]
  by_cases empty : comment = []
  · rw [if_pos empty, empty]
    exact ⟨List.append_nil _, by simp⟩
  · rw [if_neg empty, ← List.drop_drop, List.drop_left]
    exact ⟨List.append_nil _, rfl⟩

theorem encode_no_blank (bs : Bytes) : (32 : UInt8) ∉ Base64.encode bs := by
  intro blank
  obtain table | padding := Base64.mem_encode blank
  · exact absurd table (by decide +kernel)
  · cases padding

/-- The name of another type is taken for options. -/
theorem optionsLen_name {name rest : Bytes} (plain : ∀ c ∈ name, special c = false) :
    optionsLen false false (name ++ 32 :: rest) = name.length := by
  induction name with
  | nil => rfl
  | cons c name ih =>
    rw [List.forall_mem_cons] at plain
    have facts := plain.1
    simp only [special, Bool.or_eq_false_iff] at facts
    obtain ⟨⟨⟨⟨⟨blank, -⟩, -⟩, -⟩, quote⟩, escape⟩ := facts
    rw [List.cons_append, optionsLen, blank, quote, escape, List.length_cons, ← ih plain.2]
    simp [Nat.add_comm]

variable {ω : Type} {parse : Option Bytes → Option ω} {algo key : Bytes}

/-- A key starts with the name of its type. -/
theorem keyBlob_name (known : algo ∈ signkeyNames) (key : Bytes) :
    bufGetInt (keyBlob algo key) = .ok (algo.length, algo ++ key) ∧
      bufGetPtr (algo ++ key) algo.length = .ok algo := by
  have short := (nameFacts known).short
  refine ⟨?_, bufGetPtr_append (by unfold bufMaxIncr; omega)⟩
  rw [keyBlob, bufGetInt_putString, Nat.mod_eq_of_lt (by omega)]

theorem cmpBase64Key_encode (known : algo ∈ signkeyNames) (blob : Bytes) (some : blob ≠ []) :
    cmpBase64Key (keyBlob algo key) algo (Base64.encode blob) =
      .ok (decide (blob = keyBlob algo key)) := by
  have empty : (Base64.encode blob).isEmpty = false := by
    rw [List.isEmpty_eq_false_iff]
    exact Base64.encode_ne_nil some
  rw [cmpBase64Key, empty, if_neg Bool.false_ne_true, Base64.decode_encode]
  by_cases same : blob = keyBlob algo key
  · subst same
    obtain ⟨int, ptr⟩ := keyBlob_name known key
    simp [int, ptr, bind, Except.bind, pure, Except.pure]
  · simp [same]

/-- A line that starts neither with the algorithm nor with a blank or a comment. -/
theorem findEntry_options {line rest : Bytes} {c : UInt8}
    (room : ¬ line.length < algo.length + 3) (other : line.take algo.length ≠ algo)
    (first : line = c :: rest) (blank : isBlank c = false) (comment : c ≠ 35) :
    findEntry algo line =
      .ok ((afterAlgo algo (line.drop (optionsLen false false line + 1))).map fun rest =>
        ⟨some (line.take (optionsLen false false line)), rest⟩) := by
  have start : line.dropWhile isBlank = line := by
    rw [first, List.dropWhile_cons_of_neg (by simp [blank])]
  have ptr : bufGetPtr line 1 = .ok (line.take 1) := by
    rw [bufGetPtr, if_neg]
    rw [first, List.length_cons, not_or]
    exact ⟨by decide, by omega⟩
  unfold findEntry
  rw [if_neg room, if_neg other, start]
  subst first
  dsimp only
  split
  · rename_i sharp
    exact absurd (List.cons.inj sharp).1 comment
  · rw [ptr]
    rfl

/-- What `findEntry` makes of the line of a key. -/
theorem findEntry_line (known : algo ∈ signkeyNames) (e : PlainKey) :
    findEntry algo e.line = .ok (if e.name = algo then
      some ⟨none, 32 :: (Base64.encode (keyBlob e.name e.key) ++
        if e.comment = [] then [] else 32 :: e.comment)⟩ else none) ∨
    e.name ≠ algo ∧ ∃ c rest, c ≠ 32 ∧ findEntry algo e.line = .ok (some ⟨none, c :: rest⟩) := by
  have named := nameFacts e.known
  have asked := nameFacts known
  obtain ⟨data, encoded, enough⟩ := encode_keyBlob e.key named.short
  have whole : e.line = e.name ++ 32 :: (Base64.encode (keyBlob e.name e.key) ++
      if e.comment = [] then [] else 32 :: e.comment) := rfl
  rw [whole, encoded]
  generalize (if e.comment = [] then [] else 32 :: e.comment : Bytes) = behind
  generalize he : e.name = name at named
  by_cases same : name = algo
  · apply Or.inl
    subst same
    have room : ¬ (name ++ 32 :: (65 :: data ++ behind)).length < name.length + 3 := by
      simp only [List.length_append, List.length_cons]
      omega
    rw [findEntry, if_neg room, if_pos List.take_left, if_pos rfl, List.drop_left]
  · rw [if_neg same]
    by_cases room : (name ++ 32 :: (65 :: data ++ behind)).length < algo.length + 3
    · exact Or.inl (by rw [findEntry, if_pos room])
    by_cases front : (name ++ 32 :: (65 :: data ++ behind)).take algo.length = algo
    · -- the algorithm is a part of the name
      obtain ⟨rest, parts⟩ := take_eq_iff.mp front
      obtain ⟨more, longer, blank⟩ | ⟨more, shorter, rest'⟩ := List.append_eq_append_iff.mp parts
      · cases more with
        | nil => exact absurd (by simpa using longer.symm) same
        | cons c more =>
          have plain := asked.plain 32
          obtain ⟨rfl, -⟩ := List.cons.inj blank
          rw [longer] at plain
          exact absurd (plain (by simp)) (by decide)
      · cases more with
        | nil => exact absurd (by simpa using shorter) same
        | cons c more =>
          refine Or.inr ⟨same, c, more ++ 32 :: (65 :: data ++ behind), ?_, ?_⟩
          · rintro rfl
            have plain := named.plain 32
            rw [shorter] at plain
            exact absurd (plain (by simp)) (by decide)
          · rw [findEntry, if_neg room, if_pos front, parts, List.drop_left, rest']
            rfl
    · -- the name is taken for options, and the base64 text for the algorithm
      apply Or.inl
      obtain ⟨c, rest, first, comment, -⟩ := named.starts
      have blank : isBlank c = false := by
        have plain := named.plain c (by rw [first]; exact List.mem_cons_self)
        simp only [special, Bool.or_eq_false_iff] at plain
        exact plain.1.1.1.1.1
      rw [findEntry_options room front (by rw [first]; rfl) blank comment,
        optionsLen_name named.plain, ← List.drop_drop, List.drop_left]
      cases found : afterAlgo algo (List.drop 1 (32 :: (65 :: data ++ behind))) with
      | none => rfl
      | some rest =>
        obtain ⟨c', rest', first', -, letter⟩ := asked.starts
        have parts := (afterAlgo_some found).1
        rw [first'] at parts
        exact absurd (List.cons.inj parts).1.symm letter

theorem checkpubkeyLine_line {p : ω} (parsed : parse none = some p) (known : algo ∈ signkeyNames)
    (e : PlainKey) :
    checkpubkeyLine parse algo (keyBlob algo key) e.line =
      .ok (if e.name = algo ∧ e.key = key then some ⟨p, pubkeyInfo e.comment⟩ else none) := by
  have named := nameFacts e.known
  have bounds : (decide (e.line.length < minAuthkeysLine) ||
      decide (maxAuthkeysLine < e.line.length) || e.line.contains 0) = false := by
    have short : e.line.length < maxAuthkeysLine := e.short
    have long : minAuthkeysLine ≤ e.line.length := by
      obtain ⟨data, encoded, enough⟩ := encode_keyBlob e.key named.short
      have atLeast := named.long
      rw [PlainKey.line, keyLine, encoded]
      simp only [List.length_append, List.length_cons]
      unfold minAuthkeysLine
      omega
    have noNull : e.line.contains 0 = false := by
      apply Bool.eq_false_iff.mpr
      intro null
      exact (e.line_plain 0 (List.contains_iff_mem.mp null)).1 rfl
    simp only [noNull, Bool.or_false, Bool.or_eq_false_iff, decide_eq_false_iff_not]
    exact ⟨Nat.not_lt.mpr long, Nat.not_lt.mpr (Nat.le_of_lt short)⟩
  unfold checkpubkeyLine
  rw [bounds, if_neg Bool.false_ne_true]
  obtain found | ⟨other, c, rest, noBlank, found⟩ := findEntry_line known e
  · by_cases same : e.name = algo
    · rw [found, if_pos same]
      obtain ⟨data, comment⟩ := takeWhile_data e.comment
        (encode_no_blank (keyBlob e.name e.key))
      have some : keyBlob e.name e.key ≠ [] := by simp [keyBlob, putString, store32]
      have equal : (keyBlob e.name e.key = keyBlob algo key) ↔ e.key = key := by
        rw [same]
        exact List.append_right_inj _
      simp only [bind, Except.bind, data, comment, cmpBase64Key_encode known _ some, pure,
        Except.pure, parsed, Option.map_some, decide_eq_true_eq, equal]
      simp only [same, true_and]
    · rw [found, if_neg same, if_neg (fun both => same both.1)]
      rfl
  · rw [found, if_neg (fun both => other both.1)]
    simp only [bind, Except.bind]
    split
    · rename_i blank
      exact absurd (List.cons.inj blank).1 noBlank
    · rfl

/-- The keys of a file of plain lines are exactly those that are accepted, each with the
comment of its first line, and no such file ends the process. -/
theorem plain_keys_accepted {p : ω} (parsed : parse none = some p) (known : algo ∈ signkeyNames)
    (key : Bytes) (entries : List PlainKey) :
    checkpubkey parse algo (keyBlob algo key) (some (fileOf entries)) =
      .ok ((entries.find? fun e => e.name == algo && e.key == key).map fun e =>
        ⟨p, pubkeyInfo e.comment⟩) := by
  rw [checkpubkey, getlines_fileOf]
  induction entries with
  | nil => rfl
  | cons e es ih =>
    rw [List.map_cons, checkLines, checkpubkeyLine_line parsed known]
    by_cases same : e.name = algo ∧ e.key = key
    · rw [if_pos same, List.find?_cons_of_pos (by simp [same])]
      rfl
    · rw [if_neg same, List.find?_cons_of_neg (by simpa using same)]
      exact ih

/-- A key, for the examples. -/
def sampleKey : PlainKey where
  name := lit "ssh-rsa"
  key := [1]
  comment := lit "me"
  known := by decide +kernel
  plain := by
    have table : (lit "me").all (fun c => c != 0 && c != 10 && c != 13) = true := by decide +kernel
    intro c hc
    simpa [and_assoc] using List.all_eq_true.mp table c hc
  short := by decide +kernel

/-- The same bytes as a key of another type, another key, and the key on two lines. -/
def severalKeys : List PlainKey :=
  [{ sampleKey with
      name := lit "ssh-ed25519"
      known := by decide +kernel
      short := by decide +kernel },
    { sampleKey with
      key := [2, 0, 255]
      short := by decide +kernel },
    sampleKey,
    { sampleKey with
      comment := []
      plain := List.forall_mem_nil _
      short := by decide +kernel }]

theorem plain_keys_accepted_several :
    checkpubkey (fun _ => some ()) (lit "ssh-rsa") (keyBlob (lit "ssh-rsa") [1])
        (some (fileOf severalKeys)) = .ok (some ⟨(), some (lit "me")⟩) ∧
      checkpubkey (fun _ => some ()) (lit "ssh-rsa") (keyBlob (lit "ssh-rsa") [3])
        (some (fileOf severalKeys)) = .ok none := by
  have parsed : (fun _ : Option Bytes => some ()) none = some () := rfl
  constructor
  · exact (plain_keys_accepted parsed sampleKey.known [1] severalKeys).trans (by rfl)
  · exact (plain_keys_accepted parsed sampleKey.known [3] severalKeys).trans (by rfl)

/-! ## Lines of blanks -/

/-- A line that `checkpubkey_line` reads beyond its end. -/
def Blank (algo line : Bytes) : Prop :=
  algo.length + 3 ≤ line.length ∧ ∀ c ∈ line, isBlank c = true

theorem findEntry_error (known : algo ∈ signkeyNames) {line : Bytes} :
    (∃ halt, findEntry algo line = .error halt) ↔ Blank algo line := by
  constructor
  · rintro ⟨halt, h⟩
    unfold findEntry at h
    split at h
    · cases h
    rename_i room
    split at h
    · cases h
    · dsimp only at h
      split at h
      · cases h
      · cases start : line.dropWhile isBlank with
        | nil => exact ⟨Nat.not_lt.mp room, List.dropWhile_eq_nil_iff.mp start⟩
        | cons c rest =>
          have ptr : bufGetPtr (c :: rest) 1 = .ok [c] := by
            rw [bufGetPtr, if_neg]
            · rfl
            · rw [List.length_cons, not_or]
              exact ⟨by decide, by omega⟩
          rw [start, ptr] at h
          cases h
  · rintro ⟨room, blanks⟩
    have other : line.take algo.length ≠ algo := by
      intro front
      obtain ⟨c, rest, first, -⟩ := (nameFacts known).starts
      have member : c ∈ algo := by
        rw [first]
        exact List.mem_cons_self
      have blank : isBlank c = true := by
        apply blanks
        rw [← front] at member
        exact List.mem_of_mem_take member
      have plain := (nameFacts known).plain c member
      rw [special, blank] at plain
      cases plain
    unfold findEntry
    rw [if_neg (Nat.not_lt.mpr room), if_neg other, List.dropWhile_eq_nil_iff.mpr blanks]
    exact ⟨_, rfl⟩

/-- A key that is itself of the algorithm compares without an end. -/
theorem cmpBase64Key_ok (known : algo ∈ signkeyNames) (key text : Bytes) :
    ∃ same, cmpBase64Key (keyBlob algo key) algo text = .ok same := by
  unfold cmpBase64Key
  split
  · exact ⟨_, rfl⟩
  cases Base64.decode text with
  | none => exact ⟨_, rfl⟩
  | some decoded =>
    by_cases same : decoded = keyBlob algo key
    · obtain ⟨int, ptr⟩ := keyBlob_name known key
      subst same
      dsimp only
      rw [if_pos rfl, int]
      simp only [bind, Except.bind, ptr]
      exact ⟨_, rfl⟩
    · dsimp only
      rw [if_neg same]
      exact ⟨_, rfl⟩

theorem checkpubkeyLine_error (known : algo ∈ signkeyNames) {line : Bytes}
    (short : line.length ≤ maxAuthkeysLine) :
    (∃ halt, checkpubkeyLine parse algo (keyBlob algo key) line = .error halt) ↔
      Blank algo line := by
  rw [← findEntry_error known]
  unfold checkpubkeyLine
  split
  · rename_i refused
    constructor
    · rintro ⟨halt, h⟩
      cases h
    · intro ends
      -- a line of blanks is neither short nor long, and has no null byte
      obtain ⟨room, blanks⟩ := (findEntry_error known).mp ends
      have long := (nameFacts known).long
      have enough : ¬ line.length < minAuthkeysLine := by
        unfold minAuthkeysLine
        omega
      simp only [Bool.or_eq_true, decide_eq_true_eq, List.contains_iff_mem, enough, false_or,
        Nat.not_lt.mpr short] at refused
      exact absurd (blanks 0 refused) (by decide)
  · cases found : findEntry algo line with
    | error halt => exact ⟨fun _ => ⟨halt, rfl⟩, fun _ => ⟨halt, rfl⟩⟩
    | ok entry =>
      refine ⟨?_, fun ⟨halt, h⟩ => by cases h⟩
      rintro ⟨halt, h⟩
      exfalso
      simp only [bind, Except.bind] at h
      split at h
      · cases h
      · split at h
        · rename_i text
          obtain ⟨same, compared⟩ := cmpBase64Key_ok known key (text.takeWhile (· != 32))
          rw [compared] at h
          cases h
        · cases h

theorem getlines_short {sofar file line : Bytes} (short : sofar.length < maxAuthkeysLine)
    (h : line ∈ getlines sofar file) : line.length < maxAuthkeysLine := by
  induction file generalizing sofar with
  | nil =>
    rw [getlines] at h
    split at h
    · cases h
    · rw [List.mem_singleton.mp h]
      exact short
  | cons c rest ih =>
    rw [getlines] at h
    split at h
    · obtain rfl | h := List.mem_cons.mp h
      · exact short
      · exact ih (by decide) h
    · split at h
      · obtain rfl | h := List.mem_cons.mp h
        · decide
        · exact ih (by decide) h
      · rename_i room
        refine ih ?_ h
        rw [List.length_append, List.length_singleton]
        omega

/-- Looking up a key ends the process exactly where a line of blanks, as long as the
algorithm's name and three bytes more, comes before any line that has the key. -/
theorem lookup_ends_iff (known : algo ∈ signkeyNames) (key content : Bytes) :
    (∃ halt, checkpubkey parse algo (keyBlob algo key) (some content) = .error halt) ↔
      ∃ before line after, getlines [] content = before ++ line :: after ∧
        (∀ x ∈ before, checkpubkeyLine parse algo (keyBlob algo key) x = .ok none) ∧
        Blank algo line := by
  have bounded : ∀ line ∈ getlines [] content, line.length ≤ maxAuthkeysLine :=
    fun line h => Nat.le_of_lt (getlines_short (by decide) h)
  rw [checkpubkey]
  generalize getlines [] content = lines at bounded
  induction lines with
  | nil =>
    constructor
    · rintro ⟨halt, h⟩
      cases h
    · rintro ⟨before, line, after, parts, -⟩
      cases before <;> cases parts
  | cons x xs ih =>
    rw [List.forall_mem_cons] at bounded
    rw [checkLines]
    cases checked : checkpubkeyLine parse algo (keyBlob algo key) x with
    | error halt =>
      have blank := (checkpubkeyLine_error known bounded.1).mp ⟨halt, checked⟩
      exact ⟨fun _ => ⟨[], x, xs, rfl, List.forall_mem_nil _, blank⟩, fun _ => ⟨halt, rfl⟩⟩
    | ok answer =>
      have notBlank : ¬ Blank algo x := by
        intro blank
        obtain ⟨halt, ends⟩ := (checkpubkeyLine_error known bounded.1).mpr blank
        rw [checked] at ends
        cases ends
      cases answer with
      | some found =>
        constructor
        · rintro ⟨halt, h⟩
          cases h
        · rintro ⟨before, line, after, parts, nothing, blank⟩
          cases before with
          | nil =>
            cases parts
            exact absurd blank notBlank
          | cons y before =>
            cases parts
            have none := nothing x List.mem_cons_self
            rw [checked] at none
            cases none
      | none =>
        refine (ih bounded.2).trans ?_
        constructor
        · rintro ⟨before, line, after, rfl, nothing, blank⟩
          exact ⟨x :: before, line, after, rfl, List.forall_mem_cons.mpr ⟨checked, nothing⟩, blank⟩
        · rintro ⟨before, line, after, parts, nothing, blank⟩
          cases before with
          | nil =>
            cases parts
            exact absurd blank notBlank
          | cons y before =>
            cases parts
            exact ⟨before, line, after, rfl, (List.forall_mem_cons.mp nothing).2, blank⟩

theorem lookup_ends_blanks : ∃ halt,
    checkpubkey (fun _ => some ()) (lit "ssh-rsa") (keyBlob (lit "ssh-rsa") [1])
      (some (List.replicate 12 32 ++ 10 :: fileOf [sampleKey])) = .error halt :=
  (lookup_ends_iff sampleKey.known _ _).mpr
    ⟨[], List.replicate 12 32, [sampleKey.line], by rfl, List.forall_mem_nil _, by decide +kernel,
      fun _ hc => List.eq_of_mem_replicate hc ▸ rfl⟩

end

end Ikofi.Keys
