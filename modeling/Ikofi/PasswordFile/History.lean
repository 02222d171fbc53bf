import Ikofi.PasswordFile.Written

/-!
# Many calls of `writePasswordFile`

A call that changes only the user name reads the file of an earlier call and
writes its hash back. What carries the hash through any number of such calls is
that the Java reader returns what `writeFile` wrote. The table in the comment of
`SshdSettings` is a machine of its own, which holds a user name and a password;
the file follows it call by call.
-/

namespace Ikofi.PasswordFile

open Cut

/-- The arguments of one call. -/
structure Call where
  username : Option JString
  passwordUpdated : Bool
  password : Option JString

/-- A user name that the one-line format can hold: well formed, and free of its
separators. -/
def Storable (u : JString) : Prop :=
  (∃ cs, u = utf16Encode cs) ∧ 58 ∉ u ∧ 10 ∉ u ∧ 13 ∉ u

structure Credentials where
  username : JString
  password : JString

/-- The decision table. -/
def decisionTable (held : Option Credentials) (call : Call) : Option Credentials :=
  match call.username.filter (! isBlank ·) with
  | none => none
  | some u =>
    if call.passwordUpdated then
      (call.password.filter (! isBlank ·)).map fun p => ⟨u, p⟩
    else held.map fun k => { k with username := u }

section
variable (sha512 : Bytes → Bytes) (debug : Bool)

def writeCall (file : Option Bytes) (call : Call) : Except Thrown (Option Bytes) :=
  writePasswordFile sha512 debug file call.username call.passwordUpdated call.password

/-- The file after calls that start with no file. -/
def writeCalls (calls : List Call) : Except Thrown (Option Bytes) :=
  calls.foldlM (writeCall sha512 debug) none

/-- What a reader should find. -/
def Credentials.fields (k : Credentials) : List JString := [k.username, hash sha512 k.password]

end

/-- The characters of an ASCII text. -/
theorem utf16Encode_ascii {bs : Bytes} (ascii : ∀ b ∈ bs, b < 128) :
    utf16Encode (bs.map fun b => Char.ofNat b.toNat) = bs.map UInt8.toUInt16 := by
  refine flatMap_ascii (fun b hb => ?_) ascii
  have same := toNat_ofNat_ascii hb
  have small : b.toNat < 128 := UInt8.lt_iff_toNat_lt.mp hb
  have unit : UInt16.ofNat b.toNat = b.toUInt16 := by
    rw [← UInt16.toNat_inj, UInt16.toNat_ofNat', UInt8.toNat_toUInt16]
    omega
  rw [utf16EncodeChar, same, if_pos (by omega), unit]

theorem return_mem {u : JString} : '\r' ∈ codePoints u ↔ 13 ∈ u :=
  mem_codePoints (by decide) (by decide)

/-- The Java reader finds the two fields that `writeFile` wrote, up to the lone surrogates
of the user name. -/
theorem returns_written {debug : Bool} {u : JString} {hs : List Char} (filled : u ≠ [])
    (colon : 58 ∉ u) (newline : 10 ∉ u) (ret : 13 ∉ u) (some : hs ≠ [])
    (plain : ∀ c ∈ hs, c ≠ ':' ∧ c ≠ '\n' ∧ c ≠ '\r') :
    Returns debug (Option.some (writeFile u (utf16Encode hs))) (utf16Encode (codePoints u))
      (utf16Encode hs) := by
  rw [← colon_mem] at colon
  rw [← newline_mem] at newline
  rw [← return_mem] at ret
  rw [writeFile_eq, codePoints_utf16Encode, returns_iff]
  have name : codePoints u ≠ [] := codePoints_ne_nil filled
  refine ⟨codePoints u, hs, ?_, name, some, rfl, rfl⟩
  have whole : javaLine (codePoints u ++ ':' :: hs) = codePoints u ++ ':' :: hs := by
    refine List.takeWhile_eq_self_iff.mpr fun c hc => ?_
    simp only [List.mem_append, List.mem_cons] at hc
    rcases hc with hc | rfl | hc
    · simp [ne_of_mem_of_not_mem hc newline, ne_of_mem_of_not_mem hc ret]
    · decide
    · simp [(plain c hc).2]
  refine (javaPair_iff.mpr ⟨name, some, colon, fun hc => (plain _ hc).1 rfl, 0, ?_⟩).1
  rw [whole, List.replicate_zero, List.append_nil]

/-- The Java reader returns what `writeFile` wrote. -/
theorem returns_writeFile {debug : Bool} {u : JString} {bs : Bytes} (storable : Storable u)
    (filled : u ≠ []) (some : bs ≠ [])
    (plain : ∀ b ∈ bs, b ≠ 10 ∧ b ≠ 13 ∧ b ≠ 58 ∧ b < 128) :
    Returns debug (Option.some (writeFile u (bs.map UInt8.toUInt16))) u
      (bs.map UInt8.toUInt16) := by
  have ascii : ∀ b ∈ bs, b < 128 := fun b hb => (plain b hb).2.2.2
  obtain ⟨⟨cs, rfl⟩, colon, newline, ret⟩ := storable
  have inHash : ∀ c ∈ bs.map (fun b => Char.ofNat b.toNat), c ≠ ':' ∧ c ≠ '\n' ∧ c ≠ '\r' := by
    intro c hc
    obtain ⟨b, hb, rfl⟩ := List.mem_map.mp hc
    obtain ⟨newline, ret, colon, small⟩ := plain b hb
    exact ⟨ofNat_ne_ascii small (by decide) colon, ofNat_ne_ascii small (by decide) newline,
      ofNat_ne_ascii small (by decide) ret⟩
  rw [← utf16Encode_ascii ascii]
  have name : utf16Encode cs = utf16Encode (codePoints (utf16Encode cs)) := by
    rw [codePoints_utf16Encode]
  have found : Returns debug _ (utf16Encode (codePoints (utf16Encode cs))) _ :=
    returns_written filled colon newline ret (by simpa using some) inHash
  rwa [← name] at found

/-- The file holds what the machine holds. -/
structure Follows (sha512 : Bytes → Bytes) (held : Option Credentials) (file : Option Bytes) :
    Prop where
  content : file = held.map fun k => writeFile k.username (hash sha512 k.password)
  storable : ∀ k ∈ held, Storable k.username
  filled : ∀ k ∈ held, k.username ≠ []

section
variable {sha512 : Bytes → Bytes} {held : Option Credentials} {file : Option Bytes}

theorem Follows.none : Follows sha512 none none := ⟨rfl, by simp, by simp⟩

theorem Follows.some {k : Credentials} (storable : Storable k.username) (filled : k.username ≠ []) :
    Follows sha512 (some k) (some (writeFile k.username (hash sha512 k.password))) :=
  ⟨rfl, by simpa using storable, by simpa using filled⟩

/-- A reader finds the fields of the machine's credentials, or no file. -/
theorem Follows.read (debug : Bool) (digest : ∀ b, (sha512 b).length = 64)
    (h : Follows sha512 held file) :
    readPasswordFile debug file = .ok (held.map (·.fields sha512)) := by
  rw [h.content]
  cases held with
  | none => rfl
  | some k =>
    have filled : sha512 (utf8 k.password) ≠ [] :=
      List.ne_nil_of_length_pos (by rw [digest]; decide)
    have plain : ∀ b ∈ Base64.encode (sha512 (utf8 k.password)),
        b ≠ 10 ∧ b ≠ 13 ∧ b ≠ 58 ∧ b < 128 := by
      intro b hb
      obtain ⟨-, newline, colon, ascii⟩ := Base64.encode_plain hb
      exact ⟨newline, Base64.encode_ne_return hb, colon, ascii⟩
    exact (returns_writeFile (h.storable k rfl) (h.filled k rfl) (Base64.encode_ne_nil filled)
      plain).1

/-! The rows of the table. -/

theorem decisionTable_blank {u : JString} {updated : Bool} {p : Option JString}
    (blank : isBlank u = true) : decisionTable held ⟨some u, updated, p⟩ = none := by
  simp [decisionTable, Option.filter, blank]

theorem decisionTable_keep {u : JString} {p : Option JString} (filled : isBlank u = false) :
    decisionTable held ⟨some u, false, p⟩ = held.map fun k => { k with username := u } := by
  simp [decisionTable, Option.filter, filled]

theorem decisionTable_set {u : JString} {p : Option JString} (filled : isBlank u = false) :
    decisionTable held ⟨some u, true, p⟩ = (p.filter (! isBlank ·)).map fun p => ⟨u, p⟩ := by
  simp [decisionTable, Option.filter, filled]

/-- From nothing, credentials come only with a new password. -/
theorem decisionTable_back {call : Call} {k : Credentials}
    (h : decisionTable none call = some k) :
    call.passwordUpdated = true ∧ ∃ p, call.password = some p ∧ isBlank p = false := by
  unfold decisionTable at h
  split at h
  · cases h
  · split at h
    · rename_i updated
      obtain ⟨p, set, -⟩ := Option.map_eq_some_iff.mp h
      obtain ⟨given, filled⟩ := Option.filter_eq_some_iff.mp set
      exact ⟨updated, p, given, by simpa using filled⟩
    · cases h

/-- One call takes the file to where the machine goes, and does not fail. -/
theorem writeCall_follows (debug : Bool) (digest : ∀ b, (sha512 b).length = 64) {call : Call}
    (storable : ∀ u ∈ call.username, Storable u) (h : Follows sha512 held file) :
    ∃ after, writeCall sha512 debug file call = .ok after ∧
      Follows sha512 (decisionTable held call) after := by
  obtain ⟨username, updated, password⟩ := call
  unfold writeCall writePasswordFile
  cases username with
  | none => exact ⟨none, rfl, .none⟩
  | some u =>
    cases blank : isBlank u with
    | true =>
      rw [decisionTable_blank blank]
      exact ⟨none, by simp [blank], .none⟩
    | false =>
      have filled := ne_nil_of_not_blank blank
      have name : Storable u := storable u rfl
      cases updated with
      | true =>
        -- the password is set, or cleared with everything else
        rw [decisionTable_set blank]
        cases password with
        | none => exact ⟨none, by simp [blank], .none⟩
        | some p =>
          cases empty : isBlank p with
          | true =>
            rw [Option.filter_some_neg (by simp [empty])]
            exact ⟨none, by simp [blank, empty], .none⟩
          | false =>
            rw [Option.filter_some_pos (by simp [empty])]
            exact ⟨some (writeFile u (hash sha512 p)), by simp [blank, empty],
              .some (k := ⟨u, p⟩) name filled⟩
      | false =>
        -- only the name changes: the hash is read back and written again
        rw [decisionTable_keep blank]
        cases held with
        | none =>
          have absent : file = none := h.content
          exact ⟨none, by simp [blank, absent], .none⟩
        | some k =>
          have present : file.isNone = false := by rw [h.content]; rfl
          have found := h.read debug digest
          refine ⟨some (writeFile u (hash sha512 k.password)), ?_,
            .some (k := { k with username := u }) name filled⟩
          simp only [blank, present, found, Bool.false_eq_true, if_false, Option.map_some,
            Credentials.fields]
          rfl

theorem writeCalls_follows (debug : Bool) (digest : ∀ b, (sha512 b).length = 64)
    {calls : List Call}
    (storable : ∀ call ∈ calls, ∀ u ∈ call.username, Storable u)
    (h : Follows sha512 held file) :
    ∃ after, calls.foldlM (writeCall sha512 debug) file = .ok after ∧
      Follows sha512 (calls.foldl decisionTable held) after := by
  induction calls generalizing held file with
  | nil => exact ⟨file, rfl, h⟩
  | cons call calls ih =>
    obtain ⟨between, first, follows⟩ :=
      writeCall_follows debug digest (storable call (by simp)) h
    obtain ⟨after, rest, follows⟩ := ih (fun c hc => storable c (by simp [hc])) follows
    refine ⟨after, ?_, follows⟩
    rw [List.foldlM_cons, first]
    exact rest

/-- After every prefix of the calls the file reads as the decision table has it. A
change of the user name keeps the hash, and after a deletion only a new password
brings credentials back. -/
theorem password_file_history (debug : Bool) (digest : ∀ b, (sha512 b).length = 64)
    {calls : List Call}
    (storable : ∀ call ∈ calls, ∀ u ∈ call.username, Storable u) {before : List Call}
    (earlier : before <+: calls) :
    (∃ file, writeCalls sha512 debug before = .ok file ∧
      readPasswordFile debug file =
        .ok ((before.foldl decisionTable none).map (·.fields sha512))) ∧
    ∀ call, before ++ [call] <+: calls →
      ∃ file after found foundAfter,
        writeCalls sha512 debug before = .ok file ∧
        writeCalls sha512 debug (before ++ [call]) = .ok after ∧
        readPasswordFile debug file = .ok found ∧
        readPasswordFile debug after = .ok foundAfter ∧
        (∀ u v h, call.username = some u → isBlank u = false → call.passwordUpdated = false →
          found = some [v, h] → foundAfter = some [u, h]) ∧
        (found = none → foundAfter ≠ none → call.passwordUpdated = true ∧
          ∃ p, call.password = some p ∧ isBlank p = false) := by
  have name : ∀ call ∈ before, ∀ u ∈ call.username, Storable u :=
    fun c hc => storable c (earlier.subset hc)
  obtain ⟨file, wrote, follows⟩ := writeCalls_follows debug digest name .none
  refine ⟨⟨file, wrote, follows.read debug digest⟩, fun call next => ?_⟩
  obtain ⟨after, wrote', follows'⟩ :=
    writeCall_follows debug digest (storable call (next.subset (by simp))) follows
  refine ⟨file, after, _, _, wrote, ?_, follows.read debug digest, follows'.read debug digest, ?_, ?_⟩
  · rw [writeCalls, List.foldlM_append, wrote]
    simp [bind, Except.bind, pure, Except.pure, wrote']
  · intro u v hash hu filled kept found
    obtain ⟨k, held, same⟩ := Option.map_eq_some_iff.mp found
    simp only [Credentials.fields, List.cons.injEq, and_true] at same
    obtain ⟨_, _, _⟩ := call
    obtain rfl : _ = some u := hu
    obtain rfl : _ = false := kept
    rw [decisionTable_keep filled, held]
    simp [Credentials.fields, same.2]
  · intro gone back
    have held : before.foldl decisionTable none = none := by simpa using gone
    rw [held] at back
    obtain ⟨found, some⟩ := Option.ne_none_iff_exists'.mp back
    obtain ⟨k, set, -⟩ := Option.map_eq_some_iff.mp some
    exact decisionTable_back set

end

/-- The SHA-512 digest of the password `p`. -/
def digestOfP : Bytes :=
  [0x92, 0x98, 0x72, 0x83, 0x8C, 0xB9, 0xCF, 0xE6, 0x57, 0x8E, 0x11, 0xF0, 0xA3, 0x23, 0x43, 0x8A,
   0xEE, 0x5A, 0xE7, 0xF6, 0x1D, 0x41, 0x41, 0x2D, 0x62, 0xDB, 0x72, 0xB2, 0x5D, 0xAC, 0x52, 0x01,
   0x9D, 0xE2, 0xD6, 0xA3, 0x55, 0xEB, 0x2D, 0x03, 0x33, 0x36, 0xFB, 0x70, 0xE7, 0x3F, 0x0E, 0xC0,
   0xAF, 0xEC, 0xA3, 0xEF, 0x36, 0xDD, 0x8A, 0x90, 0xD8, 0x3F, 0x99, 0x8F, 0xEE, 0x23, 0xB7, 0x8D]

/-- Credentials are set for `u`, and the user is renamed to `v`. -/
def setAndRename : List Call :=
  [⟨some (jlit "u"), true, some (jlit "p")⟩, ⟨some (jlit "v"), false, none⟩]

theorem password_file_history_rename :
    ∃ file, writeCalls (fun _ => digestOfP) true setAndRename = .ok file ∧
      readPasswordFile true file = .ok (some [jlit "v", hash (fun _ => digestOfP) (jlit "p")]) := by
  have storable : ∀ call ∈ setAndRename, ∀ u ∈ call.username, Storable u := by
    simp only [setAndRename, List.mem_cons, List.not_mem_nil, or_false, forall_eq_or_imp,
      forall_eq, Option.mem_def, Option.some.injEq, forall_eq']
    exact ⟨⟨⟨_, rfl⟩, by decide, by decide, by decide⟩, ⟨_, rfl⟩, by decide, by decide, by decide⟩
  have digest : ∀ b, ((fun _ => digestOfP : Bytes → Bytes) b).length = 64 := fun _ => rfl
  exact (password_file_history true digest storable (List.prefix_refl _)).1

end Ikofi.PasswordFile
