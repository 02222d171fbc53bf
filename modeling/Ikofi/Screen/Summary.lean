import Ikofi.PasswordFile.History
import Ikofi.Screen.Storage
import Ikofi.Lib.Runs

/-!
# The password summary

The summary under the password field is computed from what the screen remembers,
what is stored from the file as it is. The two stay together as long as a password
is not made of white space alone, and a stored password is not given up with its
user name.
-/

namespace Ikofi.Screen

open PasswordFile Runs

inductive Summary
  | asterix
  | notSet
  deriving DecidableEq, Repr

def getPasswordSummaryText (s : UserPassStorage) : Summary :=
  if s.passwordUpdated && s.currentPassword.any (! ·.isEmpty) then .asterix
  else if !s.passwordUpdated && s.hasStoredPassword then .asterix
  else .notSet

/-- What the screen remembers, and the file. -/
structure Settings where
  storage : UserPassStorage
  file : Option Bytes
  deriving DecidableEq, Repr

inductive Action
  | putUsername (value : Option JString)
  | putPassword (value : Option JString)
  | storeCredentials
  deriving DecidableEq, Repr

section
variable (sha512 : Bytes → Bytes) (debug : Bool)

def storeCredentials (s : Settings) : Except Thrown (Option Bytes) :=
  writePasswordFile sha512 debug s.file s.storage.currentUsername s.storage.passwordUpdated
    s.storage.currentPassword

/-- The caller catches an `IOException`, and nothing else. -/
def step (s : Settings) : Action → Option Settings
  | .putUsername value => some { s with storage := { s.storage with currentUsername := value } }
  | .putPassword value =>
    some { s with
      storage := { s.storage with currentPassword := value, passwordUpdated := true } }
  | .storeCredentials =>
    match storeCredentials sha512 debug s with
    | .ok file => some { s with file := file }
    | .error (.ioException _) => some s
    | .error .arrayIndexOutOfBounds => none

/-- The file after storing under another user name. -/
def storedAs (s : Settings) (username : JString) : Option Bytes :=
  match storeCredentials sha512 debug
    { s with storage := { s.storage with currentUsername := some username } } with
  | .ok file => file
  | .error _ => s.file

/-- A file of two fields, the second not blank. -/
def HoldsPassword (file : Option Bytes) : Prop :=
  ∃ u p, readPasswordFile false file = .ok (some [u, p]) ∧ isBlank p = false

/-- A user name that does not clear the file, and that the format can hold. -/
def Usable (u : JString) : Prop := isBlank u = false ∧ 58 ∉ u ∧ 10 ∉ u ∧ 13 ∉ u

/-- The asterisks stand for a password that storing would leave in the file. -/
def Truthful (s : Settings) : Prop :=
  ∀ u, Usable u →
    (getPasswordSummaryText s.storage = .asterix ↔ HoldsPassword (storedAs sha512 debug s u))

/-- A password is not made of white space alone. While the stored password is kept, the
screen is left with a usable name only. -/
def Careful (s : Settings) : Action → Prop
  | .putUsername _ => True
  | .putPassword value => ∀ p ∈ value, p ≠ [] → isBlank p = false
  | .storeCredentials =>
    s.storage.passwordUpdated = false → s.storage.hasStoredPassword = true →
      ∃ u ∈ s.storage.currentUsername, Usable u

instance (u : JString) : Decidable (Usable u) := inferInstanceAs (Decidable (_ ∧ _))

instance (s : Settings) : (a : Action) → Decidable (Careful s a)
  | .putUsername _ => isTrue trivial
  | .putPassword value => inferInstanceAs (Decidable (∀ p ∈ value, _))
  | .storeCredentials => inferInstanceAs (Decidable (_ → _ → ∃ u ∈ _, Usable u))

end

/-- A password is the text of characters that end no field and no line. -/
def Kept (p : JString) : Prop :=
  isBlank p = false ∧ ∃ hs, p = utf16Encode hs ∧ ∀ c ∈ hs, c ≠ ':' ∧ c ≠ '\n' ∧ c ≠ '\r'

section
variable {debug : Bool} {file : Option Bytes} {u p : JString}

/-- What a reader finds behind the colon can be written again. -/
theorem kept_of_read (read : readPasswordFile debug file = .ok (some [u, p]))
    (filled : isBlank p = false) : Kept p := by
  obtain ⟨content, -, fields⟩ := fields_of_read read
  obtain ⟨a, b, cut, rfl, rfl⟩ : ∃ a b, Cut.fields (· == ':') (javaLine content) = [a, b] ∧
      u = utf16Encode a ∧ p = utf16Encode b := by
    match Cut.fields (· == ':') (javaLine content), fields with
    | [a, b], fields =>
      obtain ⟨rfl, rfl⟩ : u = utf16Encode a ∧ p = utf16Encode b := by simpa using fields
      exact ⟨a, b, rfl, rfl, rfl⟩
  refine ⟨filled, b, rfl, fun c hc => ?_⟩
  have some : b ≠ [] := by
    rintro rfl
    cases filled
  obtain ⟨-, plain, s, seps, -, -, line⟩ := (Cut.fields_eq_pair some).mp cut
  have inLine : c ∈ javaLine content := by
    rw [line]
    simp [hc]
  have lineEnd := List.mem_takeWhile_imp inLine
  exact ⟨by simpa using plain c hc, by simpa using lineEnd⟩

theorem kept_hash {sha512 : Bytes → Bytes} (digest : ∀ b, (sha512 b).length = 64)
    (password : JString) : Kept (hash sha512 password) := by
  have filled : Base64.encode (sha512 (utf8 password)) ≠ [] :=
    Base64.encode_ne_nil (List.ne_nil_of_length_pos (by rw [digest]; decide))
  have plain : ∀ b ∈ Base64.encode (sha512 (utf8 password)), b < 128 ∧ b ≠ 58 ∧ b ≠ 10 ∧ b ≠ 13 := by
    intro b hb
    obtain ⟨-, newline, colon, ascii⟩ := Base64.encode_plain hb
    exact ⟨ascii, colon, newline, Base64.encode_ne_return hb⟩
  refine ⟨?_, _, (utf16Encode_ascii fun b hb => (plain b hb).1).symm, ?_⟩
  · have table : Base64.codes.all (fun b => !isWhitespace b.toUInt16) = true := by decide +kernel
    obtain ⟨b, hb⟩ := List.exists_mem_of_ne_nil _ filled
    have visible : isWhitespace b.toUInt16 = false := by
      rcases Base64.mem_encode hb with code | rfl
      · simpa using List.all_eq_true.mp table b code
      · decide
    exact List.all_eq_false.mpr ⟨_, List.mem_map_of_mem hb, by simp [visible]⟩
  · intro c hc
    obtain ⟨b, hb, rfl⟩ := List.mem_map.mp hc
    obtain ⟨ascii, colon, newline, ret⟩ := plain b hb
    exact ⟨ofNat_ne_ascii ascii (by decide) colon, ofNat_ne_ascii ascii (by decide) newline,
      ofNat_ne_ascii ascii (by decide) ret⟩

/-- The file that is written for a usable name holds its password. -/
theorem holds_written (usable : Usable u) (kept : Kept p) :
    HoldsPassword (some (writeFile u p)) := by
  obtain ⟨notBlank, colon, newline, ret⟩ := usable
  obtain ⟨filled, hs, rfl, plain⟩ := kept
  have some : hs ≠ [] := by
    rintro rfl
    cases filled
  exact ⟨_, _, (returns_written (ne_nil_of_not_blank notBlank) colon newline ret some plain).1, filled⟩

end

/-- What the screen remembers fits the file, as long as the password is not touched; a
password that was entered is not made of white space. -/
structure InStep (s : Settings) : Prop where
  entered : s.storage.passwordUpdated = true →
    ∀ p ∈ s.storage.currentPassword, p ≠ [] → isBlank p = false
  stored : s.storage.passwordUpdated = false → s.storage.hasStoredPassword = true →
    HoldsPassword s.file
  absent : s.storage.passwordUpdated = false → s.storage.hasStoredPassword = false → s.file = none

section
variable {sha512 : Bytes → Bytes} {debug : Bool} {s t : Settings} {u : JString}

/-- Storing under a usable name keeps the password of the file. -/
theorem write_kept (sha512 : Bytes → Bytes) (debug : Bool) (password : Option JString)
    {file : Option Bytes} (usable : Usable u) (holds : HoldsPassword file) :
    ∃ p, Kept p ∧
      writePasswordFile sha512 debug file (some u) false password = .ok (some (writeFile u p)) := by
  obtain ⟨v, p, read, filled⟩ := holds
  have read : readPasswordFile debug file = .ok (some [v, p]) :=
    readPasswordFile_debug (Nat.le_refl 2) read
  refine ⟨p, kept_of_read read filled, ?_⟩
  have present : file.isNone = false := by
    cases file with
    | none => cases read
    | some content => rfl
  simp [writePasswordFile, usable.1, present, read, bind, Except.bind]

theorem InStep.truthful (digest : ∀ b, (sha512 b).length = 64) (h : InStep s) :
    Truthful sha512 debug s := by
  intro u usable
  have nothing : ¬ HoldsPassword none := by
    rintro ⟨_, _, read, -⟩
    cases read
  cases updated : s.storage.passwordUpdated with
  | true =>
    unfold storedAs storeCredentials
    simp only [getPasswordSummaryText, updated, writePasswordFile, usable.1, Bool.true_and]
    cases entered : s.storage.currentPassword with
    | none => simp [nothing]
    | some p =>
      by_cases empty : p = []
      · subst empty
        simp [isBlank, nothing]
      · have filled : isBlank p = false := h.entered updated p entered empty
        simp [empty, filled, holds_written usable (kept_hash digest p)]
  | false =>
    cases has : s.storage.hasStoredPassword with
    | true =>
      obtain ⟨p, kept, wrote⟩ :=
        write_kept sha512 debug s.storage.currentPassword usable (h.stored updated has)
      unfold storedAs storeCredentials
      simp [getPasswordSummaryText, updated, has, wrote, holds_written usable kept]
    | false =>
      unfold storedAs storeCredentials
      simp [getPasswordSummaryText, updated, has, h.absent updated has, writePasswordFile, nothing]

theorem step_inStep {a : Action} (h : InStep s) (ok : Careful s a)
    (hs : step sha512 debug s a = some t) : InStep t := by
  cases a with
  | putUsername value =>
    cases hs
    exact ⟨h.entered, h.stored, h.absent⟩
  | putPassword value =>
    cases hs
    exact ⟨fun _ => ok, by simp, by simp⟩
  | storeCredentials =>
    have untouched : s.storage.passwordUpdated = true → InStep { s with file := t.file } := by
      intro updated
      exact ⟨h.entered, by simp [updated], by simp [updated]⟩
    simp only [step] at hs
    cases updated : s.storage.passwordUpdated with
    | true =>
      split at hs
      · cases hs
        exact untouched updated
      · cases hs
        exact h
      · cases hs
    | false =>
      cases has : s.storage.hasStoredPassword with
      | true =>
        obtain ⟨u, named, usable⟩ := ok updated has
        obtain ⟨p, kept, wrote⟩ :=
          write_kept sha512 debug s.storage.currentPassword usable (h.stored updated has)
        have named : s.storage.currentUsername = some u := named
        rw [storeCredentials, named, updated, wrote] at hs
        cases hs
        exact ⟨h.entered, fun _ _ => holds_written usable kept, by simp [has]⟩
      | false =>
        have absent := h.absent updated has
        have nothing : storeCredentials sha512 debug s = .ok none := by
          unfold storeCredentials writePasswordFile
          rw [absent, updated]
          cases s.storage.currentUsername with
          | none => rfl
          | some u => simp
        rw [nothing] at hs
        cases hs
        exact ⟨h.entered, by simp [has], fun _ _ => rfl⟩

theorem open_inStep {storage : UserPassStorage} {file : Option Bytes}
    (start : file = none ∨ HoldsPassword file) (opened : userPassStorage debug file = .ok storage) :
    InStep ⟨storage, file⟩ := by
  rcases start with rfl | holds
  · cases opened
    exact ⟨by simp, by simp, fun _ _ => rfl⟩
  · obtain ⟨u, p, read, filled⟩ := id holds
    have read : readPasswordFile debug file = .ok (some [u, p]) :=
      readPasswordFile_debug (Nat.le_refl 2) read
    unfold userPassStorage at opened
    rw [read] at opened
    cases opened
    exact ⟨by simp, fun _ _ => holds, by simp⟩

/-- While no password of white space is entered, and a stored password is kept under a
usable name, the summary tells in every state what storing would leave. -/
theorem summary_truthful (digest : ∀ b, (sha512 b).length = 64) {storage : UserPassStorage}
    {file : Option Bytes} (start : file = none ∨ HoldsPassword file)
    (opened : userPassStorage debug file = .ok storage) {as : List Action}
    (h : Run (step sha512 debug) Careful ⟨storage, file⟩ as s) : Truthful sha512 debug s :=
  (h.invariant (open_inStep start opened) fun _ _ _ hi ok hs => step_inStep hi ok hs).truthful digest

end

/-- The user is renamed, and then the password is cleared. -/
def renamedAndCleared : List Action :=
  [.putUsername (some (jlit "v")), .storeCredentials, .putPassword (some [])]

def afterClearing : Settings where
  storage :=
    { hasStoredPassword := true
      currentUsername := some (jlit "v")
      currentPassword := some []
      passwordUpdated := true }
  file := some (lit "v:h")

theorem summary_truthful_cleared : Truthful (fun _ => digestOfP) true afterClearing := by
  have holds : HoldsPassword (some (lit "u:h")) := ⟨jlit "u", jlit "h", by decide +kernel, by decide⟩
  have run : Run (step (fun _ => digestOfP) true) Careful
      ⟨{ hasStoredPassword := true, currentUsername := some (jlit "u") }, some (lit "u:h")⟩
      renamedAndCleared afterClearing := run_of_foldlM (by decide +kernel)
  exact summary_truthful (fun _ => rfl) (Or.inr holds) (by decide +kernel) run

/-- A password of one blank shows asterisks, and storing it leaves no file. -/
theorem blank_password_shown :
    ¬ ∀ (sha512 : Bytes → Bytes) (debug : Bool) (storage : UserPassStorage) (file : Option Bytes)
        (as : List Action) (s : Settings), (∀ b, (sha512 b).length = 64) →
      (file = none ∨ HoldsPassword file) → userPassStorage debug file = .ok storage →
      Reached (step sha512 debug) ⟨storage, file⟩ as s → Truthful sha512 debug s := by
  intro claim
  have run : Reached (step (fun _ => digestOfP) false) ⟨{}, none⟩ [.putPassword (some (jlit " "))]
      ⟨{ currentPassword := some (jlit " "), passwordUpdated := true }, none⟩ :=
    run_of_foldlM (by decide +kernel)
  have shown := claim _ _ _ _ _ _ (fun _ => rfl) (Or.inl rfl) rfl run (jlit "u") (by decide)
  obtain ⟨u, p, read, -⟩ := shown.mp (by decide)
  -- storing deletes the file
  cases read

end Ikofi.Screen
