import Ikofi.Auth.Offered

/-!
# The user name and the password on the settings screen

`UserPassStorage` keeps what the user enters until the screen is left. When the
screen opens it takes both fields of `master_password` by index, whatever number
of fields `split` has found.
-/

namespace Ikofi.Screen

open PasswordFile Auth Cut

/-- `userAndPassword[i]`. -/
def element (up : List JString) (i : Nat) : Except Thrown JString :=
  match up[i]? with
  | some s => .ok s
  | none => .error .arrayIndexOutOfBounds

structure UserPassStorage where
  hasStoredPassword : Bool := false
  currentUsername : Option JString := none
  currentPassword : Option JString := none
  passwordUpdated : Bool := false
  deriving DecidableEq, Repr

/-- The constructor. No element of the array is null. -/
def userPassStorage (debug : Bool) (file : Option Bytes) : Except Thrown UserPassStorage := do
  match ← readPasswordFile debug file with
  | some up =>
    let _ ← element up 1
    let username ← element up 0
    return { hasStoredPassword := true, currentUsername := some username }
  | none => return {}

/-- No array is indexed out of bounds. -/
def NoOverrun {α : Type} (x : Except Thrown α) : Prop := x ≠ .error .arrayIndexOutOfBounds

/-- What the settings screen does with a file. -/
structure Tolerates (debug : Bool) (file : Option Bytes) : Prop where
  read : NoOverrun (readPasswordFile debug file)
  opened : NoOverrun (userPassStorage debug file)
  checked : ∀ c, NoOverrun (hasAtLeastOneAuthMethod debug c file)
  renamed : ∀ sha512 username password,
    NoOverrun (writePasswordFile sha512 debug file username false password)

/-- Something other than colons stands behind a colon of the line. -/
def SecondField (line : JString) : Prop := ∃ l r, line = l ++ 58 :: r ∧ ∃ u ∈ r, u ≠ 58

/-- The fields of the first line, where there is one. -/
def firstFields (file : Option Bytes) : Option (List JString) :=
  ((file.bind readAllLines).bind List.head?).map split

section
variable {debug : Bool} {file : Option Bytes}

theorem secondField_iff {line : JString} : SecondField line ↔ 2 ≤ (split line).length := by
  rw [split, two_le_length_fields]
  simp [SecondField]

theorem readPasswordFile_eq :
    readPasswordFile debug file =
      match firstFields file with
      | some up =>
        if debug && decide (up.length < 2) then .error .arrayIndexOutOfBounds else .ok (some up)
      | none => .ok none := by
  unfold readPasswordFile firstFields
  cases file.bind readAllLines with
  | none => rfl
  | some lines => cases lines <;> rfl

/-- With two fields or more the reader returns them in both builds. -/
theorem readPasswordFile_ok (two : ∀ up ∈ firstFields file, 2 ≤ up.length) :
    readPasswordFile debug file = .ok (firstFields file) := by
  rw [readPasswordFile_eq]
  cases h : firstFields file with
  | none => rfl
  | some up => simp [Nat.not_lt.mpr (two up h)]

/-- The debug build returns two fields or more as the release build does. -/
theorem readPasswordFile_debug {up : List JString} (two : 2 ≤ up.length)
    (read : readPasswordFile false file = .ok (some up)) :
    readPasswordFile debug file = .ok (some up) := by
  rw [readPasswordFile_eq] at read ⊢
  cases h : firstFields file with
  | none => simp [h] at read
  | some found =>
    obtain rfl : found = up := by simpa [h] using read
    simp [Nat.not_lt.mpr two]

theorem fields_of_opened (opened : NoOverrun (userPassStorage debug file)) :
    ∀ up ∈ firstFields file, 2 ≤ up.length := by
  intro up h
  by_contra short
  refine opened ?_
  have h : firstFields file = some up := h
  have missing : up[1]? = none := List.getElem?_eq_none (by omega)
  unfold userPassStorage
  rw [readPasswordFile_eq, h]
  cases debug with
  | true => simp [Nat.not_le.mp short, bind, Except.bind]
  | false => simp [bind, Except.bind, element, missing]

theorem tolerates_of_fields (two : ∀ up ∈ firstFields file, 2 ≤ up.length) :
    Tolerates debug file := by
  have read : readPasswordFile debug file = .ok (firstFields file) := readPasswordFile_ok two
  refine ⟨by simp [NoOverrun, read], ?_, fun c => ?_, fun sha512 username password => ?_⟩
  · unfold NoOverrun userPassStorage
    rw [read]
    cases h : firstFields file with
    | none => simp [bind, Except.bind, pure, Except.pure]
    | some up =>
      match up, two up h with
      | username :: password :: rest, _ => simp [bind, Except.bind, pure, Except.pure, element]
  · unfold NoOverrun hasAtLeastOneAuthMethod
    rw [read]
    simp only [bind, Except.bind]
    split
    · simp
    · split <;> simp
  · unfold NoOverrun writePasswordFile
    rw [read]
    simp only [bind, Except.bind, Bool.false_eq_true, if_false]
    split
    · simp
    · split
      · simp
      · split
        · simp
        · split <;> simp

/-- The screen indexes no array out of bounds exactly if the first line of the file, where
there is one, has something other than colons behind a colon. -/
theorem settings_tolerate_iff : Tolerates debug file ↔
    ∀ content ∈ file, ∀ line rest, readAllLines content = some (line :: rest) → SecondField line := by
  have fields : (∀ up ∈ firstFields file, 2 ≤ up.length) ↔
      ∀ content ∈ file, ∀ line rest, readAllLines content = some (line :: rest) →
        SecondField line := by
    unfold firstFields
    cases file with
    | none => simp
    | some content =>
      cases h : readAllLines content with
      | none => simp [h]
      | some lines => cases lines <;> simp [h, secondField_iff]
  rw [← fields]
  exact ⟨fun h => fields_of_opened h.opened, tolerates_of_fields⟩

end

/-- The entry `u:` keeps the settings screen from opening, in a release build too. -/
theorem half_entry_overruns : ¬ ∀ debug file, Tolerates debug file := by
  intro claim
  exact (claim false (some (lit "u:"))).opened (by decide +kernel)

end Ikofi.Screen
