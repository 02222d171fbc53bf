import Ikofi.Auth.Handling

/-!
# Half entries

`ikofi_get_user_password` reports success where the first line of the file has a
colon, and sets its two arguments where `strtok_r` finds a token for each. The hook
follows both pointers.
-/

namespace Ikofi.Auth

open PasswordFile Cut

/-- The line that `strtok_r` sees: with its newline, and up to a NUL. -/
def entryLine (content : Bytes) : Bytes :=
  cstr (content.takeWhile (· != 10) ++ (content.dropWhile (· != 10)).take 1)

/-- The line has no colon, or one with something other than colons on both sides. -/
def WholeEntry (line : Bytes) : Prop :=
  58 ∉ line ∨ ∃ l r, line = l ++ 58 :: r ∧ (∃ b ∈ l, b ≠ 58) ∧ ∃ b ∈ r, b ≠ 58

/-- A successful read sets both arguments, and the hook follows no null pointer but,
perhaps, the session's own user name. -/
structure NeverHalf (file : Option Bytes) : Prop where
  filled : (ikofiGetUserPassword file).ret = true →
    (ikofiGetUserPassword file).user ≠ none ∧ (ikofiGetUserPassword file).password ≠ none
  followed : ∀ c a password, ikofiSvrAuthPassword c a file password = .error .segv →
    a.username = none

section
variable {file : Option Bytes}

theorem neverHalf_iff : NeverHalf file ↔ ¬ HalfFile file := by
  constructor
  · rintro ⟨filled, -⟩ ⟨ret, half⟩
    obtain ⟨user, password⟩ := filled ret
    exact half.elim user password
  · intro whole
    refine ⟨fun ret => ⟨fun none => whole ⟨ret, Or.inl none⟩, fun none => whole ⟨ret, Or.inr none⟩⟩, ?_⟩
    intro c a password segv
    exact (hook_error segv).elim (absurd · whole) And.left

theorem halfFile_iff {content : Bytes} :
    HalfFile (some content) ↔
      (entryLine content).any isColon = true ∧ firstTwo isColon (entryLine content) = none := by
  unfold HalfFile ikofiGetUserPassword getline entryLine
  by_cases empty : content.isEmpty = true
  · obtain rfl := List.isEmpty_iff.mp empty
    simp [cstr]
  · simp only [empty, Bool.false_eq_true, if_false]
    generalize cstr _ = line
    cases line.any isColon with
    | false => simp
    | true =>
      unfold firstTwo
      cases token isColon line with
      | none => simp
      | some t => simp

theorem wholeEntry_iff {line : Bytes} :
    WholeEntry line ↔ ¬ (line.any isColon = true ∧ firstTwo isColon line = none) := by
  have colon : 58 ∉ line ↔ ¬ line.any isColon = true := by simp [isColon]
  have two : (∃ l r, line = l ++ 58 :: r ∧ (∃ b ∈ l, b ≠ 58) ∧ ∃ b ∈ r, b ≠ 58) ↔
      firstTwo isColon line ≠ none := by
    rw [firstTwo_ne_none]
    simp [isColon]
  rw [WholeEntry, colon, two, not_and_or]

/-- The reader never yields a half result exactly for a file whose first line has no
colon, or a colon between other bytes. -/
theorem never_half_iff : NeverHalf file ↔ ∀ content ∈ file, WholeEntry (entryLine content) := by
  rw [neverHalf_iff]
  cases file with
  | none => simp [HalfFile, ikofiGetUserPassword]
  | some content =>
    rw [halfFile_iff, ← wholeEntry_iff]
    simp

end

/-- The user name and the colon of an entry that was cut short. -/
theorem half_entry_read : ¬ ∀ file, NeverHalf file := by
  intro claim
  exact neverHalf_iff.mp (claim (some (lit "user:"))) (by decide)

end Ikofi.Auth
