import Ikofi.Auth.Session
import Ikofi.PasswordFile.Agreement

/-!
# The settings check and the methods the server offers

Before the settings screen closes, `hasAtLeastOneAuthMethod` looks at the
switches and at the fields of `master_password`. A session looks at the switches
and at the sizes of both files. Here the two answers are compared.
-/

namespace Ikofi.Auth

open PasswordFile Cut

/-- The last test of the settings screen. A debug build may fail in the reader. -/
def hasAtLeastOneAuthMethod (debug : Bool) (c : Config) (file : Option Bytes) :
    Except Thrown Bool :=
  if c.enableSingleUsePasswords || c.enablePublicKeyAuth then .ok true
  else do
    match ← readPasswordFile debug file with
    | some [username, password] => .ok (!isBlank username && !isBlank password)
    | _ => .ok false

/-- A session started now has a method to offer. -/
def Offers (c : Config) (authorizedKeys file : Option Bytes) (random : Vector UInt8 8) : Prop :=
  (svrAuthinitialise c authorizedKeys file random).auth.pubkey = true ∨
  (svrAuthinitialise c authorizedKeys file random).auth.password = true

def NotBlank (a : List Char) : Prop := isBlank (utf16Encode a) = false

/-- A UTF-8 file whose first line is two fields around a colon, neither of them
blank, with perhaps more colons behind. -/
def TwoNotBlank (file : Option Bytes) : Prop :=
  ∃ content a b k, file = some (utf8Encode content) ∧ NotBlank a ∧ NotBlank b ∧ ':' ∉ a ∧ ':' ∉ b ∧
    javaLine content = a ++ ':' :: (b ++ List.replicate k ':')

section
variable {debug : Bool} {c : Config} {authorizedKeys file : Option Bytes}

theorem NotBlank.filled {a : List Char} (h : NotBlank a) : a ≠ [] := by
  rintro rfl
  cases h

/-- What the Java reader must return for the check to count the file. -/
theorem twoNotBlank_iff (debug : Bool) : TwoNotBlank file ↔
    ∃ u p, readPasswordFile debug file = .ok (some [u, p]) ∧ isBlank u = false ∧
      isBlank p = false := by
  constructor
  · rintro ⟨content, a, b, k, rfl, notA, notB, colonA, colonB, line⟩
    have pair : JavaPair content a b :=
      javaPair_iff.mpr ⟨notA.filled, notB.filled, colonA, colonB, k, line⟩
    obtain ⟨read, -⟩ := returns_iff.mpr ⟨a, b, pair.1, pair.2.1, pair.2.2, rfl, rfl⟩
    exact ⟨_, _, read, notA, notB⟩
  · rintro ⟨u, p, read, notU, notP⟩
    obtain ⟨content, rfl, -⟩ := fields_of_read read
    obtain ⟨a, b, cut, someA, someB, rfl, rfl⟩ :=
      returns_iff.mp ⟨read, ne_nil_of_not_blank notU, ne_nil_of_not_blank notP⟩
    obtain ⟨-, -, colonA, colonB, k, line⟩ := javaPair_iff.mp ⟨cut, someA, someB⟩
    exact ⟨content, a, b, k, rfl, notU, notP, colonA, colonB, line⟩

theorem hasAtLeastOneAuthMethod_iff :
    hasAtLeastOneAuthMethod debug c file = .ok true ↔
      c.enableSingleUsePasswords = true ∨ c.enablePublicKeyAuth = true ∨ TwoNotBlank file := by
  unfold hasAtLeastOneAuthMethod
  rw [twoNotBlank_iff debug]
  cases c.enableSingleUsePasswords <;> cases c.enablePublicKeyAuth <;> simp
  cases readPasswordFile debug file with
  | error e => simp [bind, Except.bind]
  | ok found =>
    simp only [bind, Except.bind, Except.ok.injEq]
    split
    · simp
    · rename_i other
      simp only [Except.ok.injEq, Bool.false_eq_true, false_iff, not_exists, not_and]
      rintro u p rfl
      exact absurd rfl (other u p)

theorem offers_iff {random : Vector UInt8 8} :
    Offers c authorizedKeys file random ↔
      c.enableSingleUsePasswords = true ∨
      (c.enablePublicKeyAuth = true ∧ configFileExists authorizedKeys 10 = true) ∨
      configFileExists file 3 = true := by
  unfold Offers
  rw [svrAuthinitialise_auth]
  simp only [ikofiEnablePublicKeyAuth, ikofiEnablePasswordFile, Bool.and_eq_true, Bool.or_eq_true]
  rw [or_comm (a := c.enableSingleUsePasswords = true), or_assoc]

/-- Two fields and a colon are three bytes. -/
theorem TwoNotBlank.size (h : TwoNotBlank file) : configFileExists file 3 = true := by
  obtain ⟨content, a, b, k, rfl, notA, notB, -, -, line⟩ := h
  have short : (javaLine content).length ≤ content.length := (List.takeWhile_prefix _).length_le
  have bytes := length_le_utf8Encode content
  have lengthA := List.length_pos_of_ne_nil notA.filled
  have lengthB := List.length_pos_of_ne_nil notB.filled
  rw [line] at short
  simp only [List.length_append, List.length_cons] at short
  simp only [configFileExists, Option.any_some, decide_eq_true_eq]
  omega

/-- The check says what the switches and the two fields say, a session looks at the
sizes of the files, and the two agree except where public keys are the only method
switched on and there are none, and where a file of three bytes is not two fields. -/
theorem settings_check_iff (random : Vector UInt8 8) :
    (hasAtLeastOneAuthMethod debug c file = .ok true ↔
      c.enableSingleUsePasswords = true ∨ c.enablePublicKeyAuth = true ∨ TwoNotBlank file) ∧
    ((hasAtLeastOneAuthMethod debug c file = .ok true ↔ Offers c authorizedKeys file random) ↔
      c.enableSingleUsePasswords = true ∨
      (c.enablePublicKeyAuth = true ∧
        (configFileExists authorizedKeys 10 = true ∨ configFileExists file 3 = true)) ∨
      (c.enablePublicKeyAuth = false ∧ (configFileExists file 3 = false ∨ TwoNotBlank file))) := by
  refine ⟨hasAtLeastOneAuthMethod_iff, ?_⟩
  rw [hasAtLeastOneAuthMethod_iff, offers_iff]
  have size : TwoNotBlank file → configFileExists file 3 = true := TwoNotBlank.size
  cases c.enableSingleUsePasswords
  · cases c.enablePublicKeyAuth
    · by_cases fields : TwoNotBlank file
      · simp [fields, size fields]
      · simp [fields]
    · simp
  · simp

end

/-- With public keys switched on and nothing else, the check passes before any key
is imported, and the server offers nothing. -/
theorem settings_check_differs :
    ¬ ∀ (debug : Bool) (c : Config) (authorizedKeys file : Option Bytes)
        (random : Vector UInt8 8),
      hasAtLeastOneAuthMethod debug c file = .ok true ↔ Offers c authorizedKeys file random := by
  intro claim
  let c : Config :=
    { homePath := lit "/sdcard"
      shellExe := lit "/system/bin/sh"
      enablePublicKeyAuth := true
      enableSingleUsePasswords := false
      maxauthtries := 10
      banner := none
      sha512 := fun _ => List.replicate 64 0
      digest := fun _ => List.length_replicate }
  have offers := (claim false c none none (Vector.replicate 8 0)).mp rfl
  rw [offers_iff] at offers
  exact absurd offers (by decide)

end Ikofi.Auth
