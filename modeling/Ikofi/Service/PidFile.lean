import Ikofi.PasswordFile.Settings

/-!
# Reading `dropbear.pid`

The server writes the file once, when it starts, and is always stopped with
`SIGKILL`, so the next instance of the service finds whatever was there at that
moment. `readPidFile` gives the first line to `Integer.parseInt` and catches only
an `IOException`.
-/

namespace Ikofi.Service

open PasswordFile

/-- `BufferedReader.readLine` on a new reader; `none` is null. -/
def readLine (text : JString) : Option JString :=
  if text.isEmpty then none else some (text.takeWhile (! isLineEnd ·))

/-- The zeros of the decimal digits of the basic multilingual plane. -/
def digitZeros : List UInt16 :=
  [0x0030, 0x0660, 0x06F0, 0x07C0, 0x0966, 0x09E6, 0x0A66, 0x0AE6, 0x0B66, 0x0BE6, 0x0C66, 0x0CE6,
   0x0D66, 0x0DE6, 0x0E50, 0x0ED0, 0x0F20, 0x1040, 0x1090, 0x17E0, 0x1810, 0x1946, 0x19D0, 0x1A80,
   0x1A90, 0x1B50, 0x1BB0, 0x1C40, 0x1C50, 0xA620, 0xA8D0, 0xA900, 0xA9D0, 0xA9F0, 0xAA50, 0xABF0,
   0xFF10]

/-- `Character.digit` in base ten. -/
def digit (u : UInt16) : Option Nat :=
  (digitZeros.find? fun zero => zero ≤ u && u - zero < 10).map fun zero => (u - zero).toNat

def decimal (ds : List Nat) : Nat := ds.foldl (fun n d => n * 10 + d) 0

def maxInt : Nat := 2147483647

/-- The sign in front of a number, and whether it is a minus. -/
def splitSign : JString → Bool × JString
  | 45 :: rest => (true, rest)
  | 43 :: rest => (false, rest)
  | s => (false, s)

/-- `Integer.parseInt`; `none` is a `NumberFormatException`. -/
def parseInt (s : JString) : Option Int :=
  let (negative, rest) := splitSign s
  if rest.isEmpty then none
  else (rest.mapM digit).bind fun ds =>
    if negative then if decimal ds ≤ maxInt + 1 then some (-(decimal ds : Int)) else none
    else if decimal ds ≤ maxInt then some (decimal ds : Int) else none

/-- The exception, with the string that is no number. -/
structure NumberFormatException where
  input : Option JString
  deriving DecidableEq, Repr

/-- The file is the bytes it holds, or `none` where it cannot be opened. -/
def readPidFile (file : Option Bytes) : Except NumberFormatException Int :=
  match file with
  | none => .ok 0
  | some content =>
    let line := readLine (fileReader content)
    match line.bind parseInt with
    | some pid => .ok pid
    | none => .error ⟨line⟩

/-- `onCreate` as far as the pid file goes: the pid that it kills, if any. -/
def onCreate (file : Option Bytes) : Except NumberFormatException (Option Int) :=
  (readPidFile file).map fun pid => if 0 < pid then some pid else none

/-- A pid in decimal digits, as the server writes it. -/
def decimalPid (line : JString) : Option Nat :=
  let value := decimal (line.map fun u => u.toNat - 48)
  if !line.isEmpty && line.all (fun u => 48 ≤ u && u ≤ 57) && decide (value ≤ maxInt) then some value
  else none

/-- The first line of the file, where there is one. -/
def firstLine (file : Option Bytes) : Option JString :=
  file.bind fun content => readLine (fileReader content)

/-- The service starts, and knows the pid if the file holds one. -/
def ReadsPid (file : Option Bytes) : Prop :=
  (∃ killed, onCreate file = .ok killed) ∧
  readPidFile file = .ok (((firstLine file).bind decimalPid).getD 0 : Nat)

/-- Zeros of any script, with or without a sign. -/
def ZeroLine (line : JString) : Prop :=
  (splitSign line).2 ≠ [] ∧ ∀ u ∈ (splitSign line).2, digit u = some 0

theorem digit_ascii {u : UInt16} (low : 48 ≤ u) (high : u ≤ 57) : digit u = some (u.toNat - 48) := by
  have small : u - 48 < 10 := by
    rw [UInt16.le_iff_toNat_le] at low high
    rw [UInt16.lt_iff_toNat_lt, UInt16.toNat_sub_of_le _ _ (UInt16.le_iff_toNat_le.mpr low)]
    change u.toNat - 48 < 10
    change u.toNat ≤ 57 at high
    omega
  have first : digitZeros.find? (fun zero => zero ≤ u && u - zero < 10) = some 0x30 := by
    rw [digitZeros, List.find?_cons_of_pos]
    simpa using ⟨low, small⟩
  rw [digit, first, Option.map_some, UInt16.toNat_sub_of_le _ _ low]
  rfl

theorem decimal_eq_zero {ds : List Nat} : decimal ds = 0 ↔ ∀ d ∈ ds, d = 0 := by
  have fold : ∀ n, ds.foldl (fun n d => n * 10 + d) n = 0 ↔ n = 0 ∧ ∀ d ∈ ds, d = 0 := by
    induction ds with
    | nil => simp
    | cons d ds ih =>
      intro n
      rw [List.foldl_cons, ih, List.forall_mem_cons, ← and_assoc]
      refine and_congr_left fun _ => ?_
      omega
  simpa [decimal] using fold 0

theorem mapM_digit_zero {s : JString} :
    (∃ ds, s.mapM digit = some ds ∧ ∀ d ∈ ds, d = 0) ↔ ∀ u ∈ s, digit u = some 0 := by
  induction s with
  | nil => simp
  | cons u s ih =>
    rw [List.forall_mem_cons, ← ih]
    constructor
    · rintro ⟨ds, digits, zeros⟩
      obtain ⟨d, hd, rest, hr, rfl⟩ : ∃ d, digit u = some d ∧ ∃ rest, s.mapM digit = some rest ∧
          d :: rest = ds := by
        simpa [List.mapM_cons, Option.bind_eq_some_iff] using digits
      rw [List.forall_mem_cons] at zeros
      exact ⟨by rw [hd, zeros.1], rest, hr, zeros.2⟩
    · rintro ⟨hd, rest, hr, zeros⟩
      exact ⟨0 :: rest, by simp [List.mapM_cons, hd, hr], by simpa using zeros⟩

theorem parseInt_eq_zero {line : JString} : parseInt line = some 0 ↔ ZeroLine line := by
  unfold parseInt ZeroLine
  obtain ⟨negative, rest⟩ := splitSign line
  rw [← mapM_digit_zero]
  simp only [← decimal_eq_zero]
  cases filled : rest.isEmpty with
  | true =>
    have empty : rest = [] := List.isEmpty_iff.mp filled
    simp [empty]
  | false =>
    simp only [Bool.false_eq_true, if_false, Option.bind_eq_some_iff, ne_eq,
      List.isEmpty_eq_false_iff.mp filled, not_false_eq_true, true_and]
    refine exists_congr fun ds => and_congr_right fun _ => ?_
    cases negative with
    | true =>
      simp only [if_true, Option.ite_none_right_eq_some, Option.some.injEq]
      omega
    | false =>
      simp only [Bool.false_eq_true, if_false, Option.ite_none_right_eq_some, Option.some.injEq]
      omega

/-- What the server writes is read as it was meant. -/
theorem parseInt_decimalPid {line : JString} {pid : Nat} (h : decimalPid line = some pid) :
    parseInt line = some (pid : Int) := by
  unfold decimalPid at h
  simp only [Option.ite_none_right_eq_some, Bool.and_eq_true, Bool.not_eq_true', decide_eq_true_eq,
    List.all_eq_true, Option.some.injEq] at h
  obtain ⟨⟨⟨filled, digits⟩, small⟩, rfl⟩ := h
  have sign : splitSign line = (false, line) := by
    unfold splitSign
    split
    · exact absurd (digits 45 (by simp)) (by decide)
    · exact absurd (digits 43 (by simp)) (by decide)
    · rfl
  have values : line.mapM digit = some (line.map fun u => u.toNat - 48) := by
    have same : ∀ u ∈ line, digit u = some (u.toNat - 48) :=
      fun u hu => digit_ascii (digits u hu).1 (digits u hu).2
    clear sign filled digits small
    induction line with
    | nil => rfl
    | cons u line ih =>
      rw [List.forall_mem_cons] at same
      simp [List.mapM_cons, same.1, ih same.2]
  simp [parseInt, sign, filled, values, small]

/-- The service starts with the right pid exactly if there is no file or its first
line is a number: a pid in decimal digits, or zeros. -/
theorem reads_pid_iff (file : Option Bytes) :
    ReadsPid file ↔ file = none ∨
      ∃ line, firstLine file = some line ∧ ((decimalPid line).isSome ∨ ZeroLine line) := by
  cases file with
  | none => simp [ReadsPid, onCreate, readPidFile, firstLine, Except.map]
  | some content =>
    have starts : (∃ killed, onCreate (some content) = .ok killed) ↔
        ∃ pid, readPidFile (some content) = .ok pid := by
      unfold onCreate
      cases readPidFile (some content) <;> simp [Except.map]
    have read : ∀ pid, readPidFile (some content) = .ok pid ↔
        ∃ line, firstLine (some content) = some line ∧ parseInt line = some pid := by
      intro pid
      unfold readPidFile firstLine
      simp only [Option.bind_some, ← Option.bind_eq_some_iff]
      cases (readLine (fileReader content)).bind parseInt <;> simp
    unfold ReadsPid
    rw [starts]
    simp only [read, reduceCtorEq, false_or]
    constructor
    · rintro ⟨-, line, first, parsed⟩
      rw [first, Option.bind_some] at parsed
      refine ⟨line, first, ?_⟩
      cases known : decimalPid line with
      | some pid => exact Or.inl rfl
      | none =>
        rw [known] at parsed
        exact Or.inr (parseInt_eq_zero.mp parsed)
    · rintro ⟨line, first, number⟩
      rw [first, Option.bind_some]
      cases known : decimalPid line with
      | some pid => exact ⟨⟨_, line, rfl, parseInt_decimalPid known⟩, line, rfl, parseInt_decimalPid known⟩
      | none =>
        have zero : parseInt line = some 0 :=
          parseInt_eq_zero.mpr (number.resolve_left (by simp [known]))
        exact ⟨⟨_, line, rfl, zero⟩, line, rfl, zero⟩

/-- A server killed between opening the file and writing it leaves it empty, and the
service does not start any more. -/
theorem empty_file_throws : ¬ ∀ file : Option Bytes, ReadsPid file := by
  intro claim
  obtain ⟨⟨killed, started⟩, -⟩ := claim (some [])
  cases started

end Ikofi.Service
