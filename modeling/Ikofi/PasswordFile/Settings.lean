import Ikofi.Base64

/-!
# `master_password` in Java

`SshdSettings.readPasswordFile` and `writePasswordFile`. A debug build logs the
first two fields before it returns them, and so fails where there are fewer.
Creating, deleting and writing the file are taken to succeed.
-/

namespace Ikofi.PasswordFile

open Cut

/-- An exception that leaves the method. -/
inductive Thrown
  | arrayIndexOutOfBounds
  | ioException (message : String)
  deriving DecidableEq, Repr

def isLineEnd (u : UInt16) : Bool := u == 10 || u == 13

/-- What stands after a line end; `\r\n` is one. -/
def afterLineEnd : JString → JString
  | 13 :: 10 :: rest => rest
  | _ :: rest => rest
  | [] => []

theorem length_afterLineEnd (s : JString) : (afterLineEnd s).length ≤ s.length - 1 := by
  unfold afterLineEnd
  split <;> simp

/-- The lines of a text. A line end at the end of the text starts no further line. -/
def lines (s : JString) : List JString :=
  if _h : s = [] then []
  else s.takeWhile (! isLineEnd ·) :: lines (afterLineEnd (s.dropWhile (! isLineEnd ·)))
termination_by s.length
decreasing_by
  have := length_afterLineEnd (s.dropWhile (! isLineEnd ·))
  have := (List.dropWhile_suffix (! isLineEnd ·) (l := s)).length_le
  have := List.length_pos_of_ne_nil _h
  omega

@[simp] theorem lines_nil : lines [] = [] := by
  rw [lines, dif_pos rfl]

theorem lines_cons {line : JString} (plain : line.all (! isLineEnd ·) = true) (rest : JString) :
    lines (line ++ 10 :: rest) = line :: lines rest := by
  have inside := List.all_eq_true.mp plain
  rw [lines, dif_neg (by simp), List.takeWhile_append_of_pos inside,
    List.dropWhile_append_of_pos inside]
  simp [isLineEnd, afterLineEnd]

/-- `Files.readAllLines`, which fails on bytes that are not UTF-8. -/
def readAllLines (content : Bytes) : Option (List JString) :=
  (utf8Decode content).map fun cs => lines (utf16Encode cs)

/-- `split(":")`. -/
def split (s : JString) : List JString := fields (· == 58) s

def readPasswordFile (debug : Bool) (file : Option Bytes) : Except Thrown (Option (List JString)) :=
  match file.bind readAllLines with
  | some (line :: _) =>
    let up := split line
    if debug && decide (up.length < 2) then .error .arrayIndexOutOfBounds else .ok (some up)
  | _ => .ok none

/-- `Character.isWhitespace`: the separators that may break, and nine controls. -/
def isWhitespace (u : UInt16) : Bool :=
  (9 ≤ u && u ≤ 13) || (28 ≤ u && u ≤ 32) || u == 0x1680 || (0x2000 ≤ u && u ≤ 0x2006)
    || (0x2008 ≤ u && u ≤ 0x200A) || u == 0x2028 || u == 0x2029 || u == 0x205F || u == 0x3000

def isBlank (s : JString) : Bool := s.all isWhitespace

theorem ne_nil_of_not_blank {u : JString} (h : isBlank u = false) : u ≠ [] := by
  rintro rfl
  cases h

/-- The digest of the password as text. `Base64.getEncoder` is the same encoding as
the native one. -/
def hash (sha512 : Bytes → Bytes) (password : JString) : JString :=
  (Base64.encode (sha512 (utf8 password))).map UInt8.toUInt16

def writeFile (username hash : JString) : Bytes := utf8 (username ++ 58 :: hash)

/-- The file after the call; `none` where there is none. -/
def writePasswordFile (sha512 : Bytes → Bytes) (debug : Bool) (file : Option Bytes)
    (username : Option JString) (passwordUpdated : Bool) (password : Option JString) :
    Except Thrown (Option Bytes) :=
  match username with
  | none => .ok none
  | some username =>
    if isBlank username then .ok none
    else if passwordUpdated then
      match password with
      | none => .ok none
      | some password =>
        if isBlank password then .ok none
        else .ok (some (writeFile username (hash sha512 password)))
    else if file.isNone then .ok none
    else do
      match ← readPasswordFile debug file with
      | some [_, previous] => .ok (some (writeFile username previous))
      | _ => .error (.ioException "Could not read previous user/password")

end Ikofi.PasswordFile
