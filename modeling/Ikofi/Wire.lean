import Ikofi.Text

/-!
# Reading packets

The handlers read a packet's payload from front to back. What remains to be
read is a list of bytes, and a read that runs past its end ends the process.
-/

namespace Ikofi

/-- How a server process ends: `dropbear_exit` with a message, or a null pointer
dereferenced. -/
inductive Halt
  | exit (message : Bytes)
  | segv
  deriving DecidableEq, Repr

def dropbearExit {α : Type} (message : String) : Except Halt α := .error (.exit (lit message))

/-- `dropbear_assert`. The message leaves out the file and the line. -/
def dropbearAssert (holds : Bool) (expr : String) : Except Halt Unit :=
  if holds then .ok () else dropbearExit ("Failed assertion: " ++ expr)

theorem dropbearAssert_ok {holds : Bool} (h : holds = true) (expr : String) :
    dropbearAssert holds expr = .ok () := if_pos h

section
variable {α β : Type} {x : Except Halt α} {f : α → Except Halt β}

theorem bind_ok {b : β} : (x >>= f) = .ok b ↔ ∃ a, x = .ok a ∧ f a = .ok b := by
  cases x <;> simp [bind, Except.bind]

theorem bind_error {e : Halt} :
    (x >>= f) = .error e ↔ x = .error e ∨ ∃ a, x = .ok a ∧ f a = .error e := by
  cases x <;> simp [bind, Except.bind]

theorem ok_of_toOption {a : α} (h : x.toOption = some a) : x = .ok a := by
  cases x with
  | error e => cases h
  | ok b => exact congrArg _ (Option.some.inj h)

end

namespace Wire

def bufMaxIncr : Nat := 1000000000

def maxStringLen : Nat := 9000

def bufGetByte : Bytes → Except Halt (UInt8 × Bytes)
  | [] => dropbearExit "Bad buf_getbyte"
  | b :: buf => .ok (b, buf)

def bufGetBool (buf : Bytes) : Except Halt (Bool × Bytes) :=
  (bufGetByte buf).map fun (b, rest) => (b != 0, rest)

/-- The next `len` bytes; the position stays. -/
def bufGetPtr (buf : Bytes) (len : Nat) : Except Halt Bytes :=
  if bufMaxIncr < len ∨ buf.length < len then dropbearExit "Bad buf_getptr"
  else .ok (buf.take len)

/-- A 32-bit number, most significant byte first. -/
def load32 (b : Bytes) : Nat := b.foldl (fun n d => n * 256 + d.toNat) 0

def bufGetInt (buf : Bytes) : Except Halt (Nat × Bytes) := do
  let b ← bufGetPtr buf 4
  return (load32 b, buf.drop 4)

def bufGetString (buf : Bytes) : Except Halt (Bytes × Bytes) := do
  let (len, rest) ← bufGetInt buf
  if maxStringLen < len then dropbearExit "String too long"
  else
    let s ← bufGetPtr rest len
    return (s, rest.drop len)

def bufMaxMpint : Nat := 8240 / 8

/-- A number, or nothing where it is negative or too long. -/
def bufGetMpint (buf : Bytes) : Except Halt (Option Nat × Bytes) := do
  let (len, rest) ← bufGetInt buf
  if len = 0 then return (some 0, rest)
  else if bufMaxMpint < len then return (none, rest)
  else
    let first ← bufGetPtr rest 1
    if first.any (0x80 ≤ ·) then return (none, rest)
    else
      let s ← bufGetPtr rest len
      return (some (s.foldl (fun n d => n * 256 + d.toNat) 0), rest.drop len)

/-- `buf_incrpos`, past bytes that nobody reads. -/
def bufIncrPos (buf : Bytes) (incr : Nat) : Except Halt Bytes :=
  if bufMaxIncr < incr ∨ buf.length < incr then dropbearExit "Bad buf_incrpos"
  else .ok (buf.drop incr)

def bufEatString (buf : Bytes) : Except Halt Bytes := do
  let (len, rest) ← bufGetInt buf
  bufIncrPos rest len

def store32 (n : Nat) : Bytes :=
  [UInt8.ofNat (n / 0x1000000), UInt8.ofNat (n / 0x10000), UInt8.ofNat (n / 0x100), UInt8.ofNat n]

def putString (s : Bytes) : Bytes := store32 s.length ++ s

theorem load32_store32 (n : Nat) : load32 (store32 n) = n % 0x100000000 := by
  simp only [load32, store32, List.foldl_cons, List.foldl_nil, UInt8.toNat_ofNat']
  omega

theorem bufGetPtr_append {s rest : Bytes} (h : s.length ≤ bufMaxIncr) :
    bufGetPtr (s ++ rest) s.length = .ok s := by
  have fits : ¬ (bufMaxIncr < s.length ∨ (s ++ rest).length < s.length) := by
    simp only [List.length_append]
    omega
  rw [bufGetPtr, if_neg fits, List.take_left]

theorem bufGetInt_store32 (n : Nat) (rest : Bytes) :
    bufGetInt (store32 n ++ rest) = .ok (n % 0x100000000, rest) := by
  have ptr : bufGetPtr (store32 n ++ rest) 4 = .ok (store32 n) :=
    bufGetPtr_append (s := store32 n) (by simp [store32, bufMaxIncr])
  rw [bufGetInt, ptr]
  exact congrArg (fun n => Except.ok (n, rest)) (load32_store32 n)

/-- The length that is read is the one that was put, in 32 bits. -/
theorem bufGetInt_putString (s rest : Bytes) :
    bufGetInt (putString s ++ rest) = .ok (s.length % 0x100000000, s ++ rest) := by
  rw [putString, List.append_assoc, bufGetInt_store32]

/-- A string of at most 9000 bytes is read back as it was put. -/
theorem bufGetString_putString {s : Bytes} (h : s.length ≤ maxStringLen) (rest : Bytes) :
    bufGetString (putString s ++ rest) = .ok (s, rest) := by
  have small : s.length % 0x100000000 = s.length := by
    unfold maxStringLen at h
    omega
  have body : bufGetPtr (s ++ rest) s.length = .ok s :=
    bufGetPtr_append (Nat.le_trans h (by decide))
  rw [bufGetString, bufGetInt_putString, small]
  simp [bind, Except.bind, pure, Except.pure, Nat.not_lt.mpr h, body]

/-- Four bytes are those of the number that they are read as. -/
theorem store32_load32 {b : Bytes} (four : b.length = 4) : store32 (load32 b) = b := by
  match b, four with
  | [w, x, y, z], _ =>
    have whole := w.toNat_lt
    have second := x.toNat_lt
    have third := y.toNat_lt
    have last := z.toNat_lt
    simp only [load32, store32, List.foldl_cons, List.foldl_nil, List.cons.injEq, and_true,
      ← UInt8.toNat_inj, UInt8.toNat_ofNat']
    omega

theorem bufGetPtr_ok {buf s : Bytes} {len : Nat} (h : bufGetPtr buf len = .ok s) :
    s.length = len ∧ buf = s ++ buf.drop len := by
  unfold bufGetPtr at h
  split at h
  · cases h
  · rename_i fits
    cases h
    rw [not_or, Nat.not_lt, Nat.not_lt] at fits
    exact ⟨List.length_take_of_le fits.2, (List.take_append_drop _ _).symm⟩

theorem bufGetInt_ok {buf rest : Bytes} {n : Nat} (h : bufGetInt buf = .ok (n, rest)) :
    buf = store32 n ++ rest := by
  obtain ⟨b, read, same⟩ := bind_ok.mp h
  cases same
  obtain ⟨four, cut⟩ := bufGetPtr_ok read
  rwa [store32_load32 four]

/-- What is read as a string stood there as one. -/
theorem bufGetString_ok {buf s rest : Bytes} (h : bufGetString buf = .ok (s, rest)) :
    buf = putString s ++ rest := by
  obtain ⟨⟨len, body⟩, read, h⟩ := bind_ok.mp h
  dsimp only at h
  split at h
  · cases h
  · obtain ⟨t, ptr, same⟩ := bind_ok.mp h
    cases same
    obtain ⟨length, cut⟩ := bufGetPtr_ok ptr
    rw [bufGetInt_ok read, putString, length, List.append_assoc, ← cut]

theorem bufIncrPos_ok {buf rest : Bytes} {n : Nat} (h : bufIncrPos buf n = .ok rest) :
    ∃ s, s.length = n ∧ buf = s ++ rest := by
  unfold bufIncrPos at h
  split at h
  · cases h
  · rename_i fits
    cases h
    rw [not_or, Nat.not_lt, Nat.not_lt] at fits
    exact ⟨buf.take n, List.length_take_of_le fits.2, (List.take_append_drop _ _).symm⟩

theorem bufEatString_ok {buf rest : Bytes} (h : bufEatString buf = .ok rest) :
    ∃ s, buf = putString s ++ rest := by
  obtain ⟨⟨len, body⟩, read, h⟩ := bind_ok.mp h
  obtain ⟨s, length, cut⟩ := bufIncrPos_ok h
  exact ⟨s, by rw [bufGetInt_ok read, putString, length, cut, List.append_assoc]⟩

theorem bufGetBool_ok {buf rest : Bytes} {flag : Bool} (h : bufGetBool buf = .ok (flag, rest)) :
    ∃ b, buf = b :: rest ∧ flag = (b != 0) := by
  cases buf with
  | nil => cases h
  | cons b buf =>
    cases h
    exact ⟨b, rfl, rfl⟩

/-- A string whose length starts with a byte other than zero is too long. -/
theorem bufGetString_cons {b : UInt8} (h : b ≠ 0) (buf : Bytes) :
    ∃ e, bufGetString (b :: buf) = .error e := by
  have positive : 0 < b.toNat := by
    refine Nat.pos_of_ne_zero fun zero => h ?_
    exact UInt8.toNat_inj.mp zero
  unfold bufGetString bufGetInt bufGetPtr
  split
  · exact ⟨_, rfl⟩
  · rename_i fits
    match buf, fits with
    | [], fits | [_], fits | [_, _], fits => exact absurd (Or.inr (by simp)) fits
    | x :: y :: z :: buf, _ =>
      have long : maxStringLen < load32 (List.take 4 (b :: x :: y :: z :: buf)) := by
        simp only [load32, maxStringLen, List.take_succ_cons, List.take_zero, List.foldl_cons,
          List.foldl_nil]
        omega
      simp only [bind, Except.bind, pure, Except.pure, long, if_true]
      exact ⟨_, rfl⟩

end Wire

end Ikofi
