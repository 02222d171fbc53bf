import Ikofi.Text

/-!
# Reading `master_password` in C

The file is the bytes it holds, or `none` where it cannot be opened.
-/

namespace Ikofi.PasswordFile

open Cut

/-- `config_file_exists`: the file can be opened and has at least `minChars` bytes. -/
def configFileExists (file : Option Bytes) (minChars : Nat) : Bool :=
  file.any fun content => decide (minChars ≤ content.length)

def ikofiEnablePasswordFile (file : Option Bytes) : Bool := configFileExists file 3

/-- The first line, with its newline; `none` at the end of the file. -/
def getline (content : Bytes) : Option Bytes :=
  if content.isEmpty then none
  else some (content.takeWhile (· != 10) ++ (content.dropWhile (· != 10)).take 1)

def isColon (b : UInt8) : Bool := b == 58

/-- What `ikofi_get_user_password` returns and leaves in its two arguments. -/
structure UserPassword where
  ret : Bool := false
  user : Option Bytes := none
  password : Option Bytes := none
  deriving DecidableEq, Repr

def ikofiGetUserPassword (file : Option Bytes) : UserPassword :=
  match file with
  | none => {}
  | some content =>
    match getline content with
    | none => {}
    | some read =>
      let line := cstr read
      if line.any isColon then
        match token isColon line with
        | none => { ret := true }
        | some (user, saveptr) =>
          { ret := true, user := some user, password := (token isColon saveptr).map Prod.fst }
      else {}

/-- The native reader delivers user `u` and hash `h`. -/
def Delivers (file : Option Bytes) (u h : Bytes) : Prop :=
  ikofiGetUserPassword file = { ret := true, user := some u, password := some h }

/-- The first line has a colon, but not two fields: the reader reports success
and leaves an argument null. -/
def HalfFile (file : Option Bytes) : Prop :=
  (ikofiGetUserPassword file).ret = true ∧
  ((ikofiGetUserPassword file).user = none ∨ (ikofiGetUserPassword file).password = none)

instance (file : Option Bytes) : Decidable (HalfFile file) := inferInstanceAs (Decidable (_ ∧ _))

instance (file : Option Bytes) (u h : Bytes) : Decidable (Delivers file u h) :=
  inferInstanceAs (Decidable (_ = _))

/-- What the reader delivers is never empty. -/
theorem ikofiGetUserPassword_filled (file : Option Bytes) :
    (∀ u, (ikofiGetUserPassword file).user = some u → u ≠ []) ∧
    ∀ h, (ikofiGetUserPassword file).password = some h → h ≠ [] := by
  unfold ikofiGetUserPassword
  split
  · simp
  · split
    · simp
    · dsimp only
      split
      · split
        · simp
        · rename_i user saveptr first
          obtain ⟨_, _, -, -, filled, -⟩ := token_eq_some.mp first
          refine ⟨by simpa using filled, ?_⟩
          intro h hh
          obtain ⟨⟨_, _⟩, second, rfl⟩ := Option.map_eq_some_iff.mp hh
          obtain ⟨_, _, -, -, filled, -⟩ := token_eq_some.mp second
          exact filled
      · simp

theorem Delivers.unique {file : Option Bytes} {u h u' h' : Bytes} (d : Delivers file u h)
    (d' : Delivers file u' h') : u = u' ∧ h = h' := by
  have same := d.symm.trans d'
  simpa using same

end Ikofi.PasswordFile
