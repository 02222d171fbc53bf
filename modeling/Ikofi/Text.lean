import Ikofi.Lib.Cut

/-!
# Texts

A C string is a list of bytes that ends before the first NUL. A Java string is
a list of UTF-16 units, which may hold surrogates that belong to no pair. Both
sides meet in UTF-8: a Java string is encoded with `?` in the place of a lone
surrogate, and a file is decoded only if all of it is well formed.
-/

namespace Ikofi

open Cut

abbrev Bytes := List UInt8

/-- The C string at the start of a block of bytes. -/
def cstr (b : Bytes) : Bytes := b.takeWhile (· != 0)

def strlen (b : Bytes) : Nat := (cstr b).length

def utf8Encode (cs : List Char) : Bytes := cs.flatMap String.utf8EncodeChar

/-- The bytes of a C string literal. -/
def lit (s : String) : Bytes := utf8Encode s.toList

def utf8Decode (b : Bytes) : Option (List Char) := (String.fromUTF8? b.toByteArray).map (·.toList)

abbrev JString := List UInt16

def isHighSurrogate (u : UInt16) : Bool := 0xD800 ≤ u && u ≤ 0xDBFF

def isLowSurrogate (u : UInt16) : Bool := 0xDC00 ≤ u && u ≤ 0xDFFF

def toCodePoint (high low : UInt16) : Char :=
  Char.ofNat (0x10000 + (high.toNat - 0xD800) * 0x400 + (low.toNat - 0xDC00))

/-- The characters of a Java string as its encoder sees them. -/
def codePoints : JString → List Char
  | [] => []
  | [u] =>
    if isHighSurrogate u || isLowSurrogate u then ['?'] else [Char.ofNat u.toNat]
  | u :: v :: rest =>
    if isHighSurrogate u && isLowSurrogate v then toCodePoint u v :: codePoints rest
    else if isHighSurrogate u || isLowSurrogate u then '?' :: codePoints (v :: rest)
    else Char.ofNat u.toNat :: codePoints (v :: rest)

/-- `getBytes(UTF_8)`, and what a `FileWriter` writes. -/
def utf8 (s : JString) : Bytes := utf8Encode (codePoints s)

def utf16EncodeChar (c : Char) : List UInt16 :=
  if c.toNat < 0x10000 then [UInt16.ofNat c.toNat]
  else [UInt16.ofNat (0xD800 + (c.toNat - 0x10000) / 0x400),
    UInt16.ofNat (0xDC00 + (c.toNat - 0x10000) % 0x400)]

def utf16Encode (cs : List Char) : JString := cs.flatMap utf16EncodeChar

/-- The units of a Java string literal. -/
def jlit (s : String) : JString := utf16Encode s.toList

/-- The ranges of the bytes that follow a first byte in UTF-8; `none` for a byte that
starts no character. -/
def utf8Tail (b : UInt8) : Option (List (UInt8 × UInt8)) :=
  if b < 0x80 then some []
  else if b < 0xC2 then none
  else if b < 0xE0 then some [(0x80, 0xBF)]
  else if b = 0xE0 then some [(0xA0, 0xBF), (0x80, 0xBF)]
  else if b = 0xED then some [(0x80, 0x9F), (0x80, 0xBF)]
  else if b < 0xF0 then some [(0x80, 0xBF), (0x80, 0xBF)]
  else if b = 0xF0 then some [(0x90, 0xBF), (0x80, 0xBF), (0x80, 0xBF)]
  else if b < 0xF4 then some [(0x80, 0xBF), (0x80, 0xBF), (0x80, 0xBF)]
  else if b = 0xF4 then some [(0x80, 0x8F), (0x80, 0xBF), (0x80, 0xBF)]
  else none

/-- How many of the bytes are in the ranges. -/
def inRanges : List (UInt8 × UInt8) → Bytes → Nat
  | (low, high) :: ranges, b :: bs => if low ≤ b && b ≤ high then inRanges ranges bs + 1 else 0
  | _, _ => 0

def utf8Value (b : UInt8) (tail : Bytes) : Nat :=
  let first := match tail.length with
    | 0 => b.toNat
    | 1 => b.toNat % 32
    | 2 => b.toNat % 16
    | _ => b.toNat % 8
  tail.foldl (fun n c => n * 64 + c.toNat % 64) first

/-- At most `n` characters of a text. What is not well formed becomes U+FFFD, as far as
it could have started a character. -/
def replacingChars : Nat → Bytes → List Char
  | n + 1, b :: bs =>
    match utf8Tail b with
    | none => '\uFFFD' :: replacingChars n bs
    | some ranges =>
      let k := inRanges ranges bs
      (if k = ranges.length then Char.ofNat (utf8Value b (bs.take k)) else '\uFFFD')
        :: replacingChars n (bs.drop k)
  | _, _ => []

/-- What a `FileReader` makes of a file. -/
def fileReader (content : Bytes) : JString := utf16Encode (replacingChars content.length content)

@[simp] theorem fileReader_nil : fileReader [] = [] := rfl

theorem toNat_valid (c : Char) : c.toNat < 0xD800 ∨ (0xDFFF < c.toNat ∧ c.toNat < 0x110000) := c.valid

theorem codePoints_unit {u : UInt16} {s : JString} (high : isHighSurrogate u = false)
    (low : isLowSurrogate u = false) : codePoints (u :: s) = Char.ofNat u.toNat :: codePoints s := by
  cases s <;> simp [codePoints, high, low]

theorem codePoints_pair {u v : UInt16} {s : JString} (high : isHighSurrogate u = true)
    (low : isLowSurrogate v = true) : codePoints (u :: v :: s) = toCodePoint u v :: codePoints s := by
  simp [codePoints, high, low]

theorem codePoints_utf16Encode_cons (c : Char) (s : JString) :
    codePoints (utf16EncodeChar c ++ s) = c :: codePoints s := by
  have valid := toNat_valid c
  unfold utf16EncodeChar
  split
  · rename_i small
    have high : isHighSurrogate (UInt16.ofNat c.toNat) = false := by
      simp [isHighSurrogate, UInt16.le_iff_toNat_le, Nat.mod_eq_of_lt small]; omega
    have low : isLowSurrogate (UInt16.ofNat c.toNat) = false := by
      simp [isLowSurrogate, UInt16.le_iff_toNat_le, Nat.mod_eq_of_lt small]; omega
    have same : Char.ofNat (UInt16.ofNat c.toNat).toNat = c := by
      rw [UInt16.toNat_ofNat', Nat.mod_eq_of_lt small, Char.ofNat_toNat]
    rw [List.singleton_append, codePoints_unit high low, same]
  · rename_i large
    generalize ha : 0xD800 + (c.toNat - 0x10000) / 0x400 = a
    generalize hb : 0xDC00 + (c.toNat - 0x10000) % 0x400 = b
    have smallA : a % 2 ^ 16 = a := Nat.mod_eq_of_lt (by omega)
    have smallB : b % 2 ^ 16 = b := Nat.mod_eq_of_lt (by omega)
    have high : isHighSurrogate (UInt16.ofNat a) = true := by
      simp [isHighSurrogate, UInt16.le_iff_toNat_le]; omega
    have low : isLowSurrogate (UInt16.ofNat b) = true := by
      simp [isLowSurrogate, UInt16.le_iff_toNat_le]; omega
    have value : 0x10000 + (a - 0xD800) * 0x400 + (b - 0xDC00) = c.toNat := by omega
    have same : toCodePoint (UInt16.ofNat a) (UInt16.ofNat b) = c := by
      rw [toCodePoint, UInt16.toNat_ofNat', UInt16.toNat_ofNat', smallA, smallB, value,
        Char.ofNat_toNat]
    rw [List.cons_append, List.singleton_append, codePoints_pair high low, same]

theorem codePoints_utf16Encode (cs : List Char) : codePoints (utf16Encode cs) = cs := by
  induction cs with
  | nil => rfl
  | cons c cs ih =>
    have := codePoints_utf16Encode_cons c (utf16Encode cs)
    rwa [ih] at this

theorem utf8_utf16Encode (cs : List Char) : utf8 (utf16Encode cs) = utf8Encode cs := by
  rw [utf8, codePoints_utf16Encode]

/-- A Java string is encoded piece by piece, unless it is cut inside a pair. -/
theorem codePoints_append {s t : JString} {v : UInt16} (low : isLowSurrogate v = false) :
    codePoints (s ++ v :: t) = codePoints s ++ codePoints (v :: t) := by
  fun_induction codePoints s with
  | case1 => rfl
  | case2 u lone => simp [codePoints, low, lone]
  | case3 u lone => simp [codePoints, low, lone]
  | case4 u w s pair ih => simp [codePoints, pair, ih]
  | case5 u w s pair lone ih =>
    rw [List.cons_append] at ih
    rw [List.cons_append, List.cons_append, List.cons_append, ← ih, codePoints, if_neg pair,
      if_pos lone]
  | case6 u w s pair lone ih =>
    rw [List.cons_append] at ih
    rw [List.cons_append, List.cons_append, List.cons_append, ← ih, codePoints, if_neg pair,
      if_neg lone]

theorem toNat_ofNat_valid {n : Nat} (valid : n.isValidChar) : (Char.ofNat n).toNat = n := by
  rw [Char.ofNat, dif_pos valid]
  rfl

theorem ofNat_eq_iff {d : Char} {u : UInt16} (ascii : d.toNat < 128)
    (lone : ¬ (isHighSurrogate u || isLowSurrogate u) = true) :
    d = Char.ofNat u.toNat ↔ UInt16.ofNat d.toNat = u := by
  have valid : u.toNat.isValidChar := by
    simp [isHighSurrogate, isLowSurrogate, UInt16.le_iff_toNat_le] at lone
    have := u.toNat_lt
    unfold Nat.isValidChar
    omega
  rw [← Char.toNat_inj, toNat_ofNat_valid valid, ← UInt16.toNat_inj, UInt16.toNat_ofNat']
  omega

theorem toCodePoint_large {u v : UInt16} (high : isHighSurrogate u = true)
    (low : isLowSurrogate v = true) : 0x10000 ≤ (toCodePoint u v).toNat := by
  simp [isHighSurrogate, UInt16.le_iff_toNat_le] at high
  simp [isLowSurrogate, UInt16.le_iff_toNat_le] at low
  have valid : (0x10000 + (u.toNat - 0xD800) * 0x400 + (v.toNat - 0xDC00)).isValidChar := by
    unfold Nat.isValidChar
    omega
  rw [toCodePoint, toNat_ofNat_valid valid]
  omega

/-- An ASCII character stands in a Java string where its unit does; only `?` may
stand for something else. -/
theorem mem_codePoints {d : Char} (ascii : d.toNat < 128) (plain : d ≠ '?') {s : JString} :
    d ∈ codePoints s ↔ UInt16.ofNat d.toNat ∈ s := by
  -- a surrogate is no unit of an ASCII character
  have unit : ∀ u, (isHighSurrogate u || isLowSurrogate u) = true → UInt16.ofNat d.toNat ≠ u := by
    rintro u lone rfl
    simp [isHighSurrogate, isLowSurrogate, UInt16.le_iff_toNat_le] at lone
    omega
  fun_induction codePoints s with
  | case1 => simp
  | case2 u lone => simp [plain, unit u lone]
  | case3 u lone => simp [ofNat_eq_iff ascii lone]
  | case4 u w s pair ih =>
    obtain ⟨high, low⟩ := Bool.and_eq_true_iff.mp pair
    have large := toCodePoint_large high low
    have other : d ≠ toCodePoint u w := fun same => by
      rw [← same] at large
      omega
    have units : UInt16.ofNat d.toNat ≠ u ∧ UInt16.ofNat d.toNat ≠ w :=
      ⟨unit u (by simp [high]), unit w (by simp [low])⟩
    simpa only [List.mem_cons, other, units.1, units.2, false_or] using ih
  | case5 u w s pair lone ih =>
    simp only [List.mem_cons, plain, unit u lone, false_or] at ih ⊢
    exact ih
  | case6 u w s pair lone ih =>
    simp only [List.mem_cons, ofNat_eq_iff ascii lone] at ih ⊢
    exact or_congr_right ih

theorem utf8Decode_encode (cs : List Char) : utf8Decode (utf8Encode cs) = some cs := by
  have bytes : (utf8Encode cs).toByteArray = cs.utf8Encode := rfl
  have valid : cs.utf8Encode.IsValidUTF8 := ⟨cs, rfl⟩
  have same : String.fromUTF8 cs.utf8Encode valid = String.ofList cs := by
    rw [← String.toByteArray_inj]; simp [String.fromUTF8]
  simp [utf8Decode, bytes, String.fromUTF8?, valid, same]

theorem eq_utf8Encode_of_decode {b : Bytes} {cs : List Char} (h : utf8Decode b = some cs) :
    b = utf8Encode cs := by
  unfold utf8Decode String.fromUTF8? at h
  split at h
  · rename_i valid
    obtain rfl : (String.fromUTF8 b.toByteArray valid).toList = cs := Option.some.inj h
    have same : (utf8Encode _).toByteArray = b.toByteArray :=
      String.utf8Encode_toList (b := String.fromUTF8 b.toByteArray valid)
    have data := congrArg ByteArray.data same
    simpa using data.symm
  · cases h

theorem length_le_utf8Encode (cs : List Char) : cs.length ≤ (utf8Encode cs).length := by
  induction cs with
  | nil => exact Nat.zero_le _
  | cons c cs ih =>
    have head : 0 < (String.utf8EncodeChar c).length :=
      List.length_pos_of_ne_nil String.utf8EncodeChar_ne_nil
    unfold utf8Encode at ih ⊢
    rw [List.flatMap_cons, List.length_append, List.length_cons]
    omega

theorem utf8EncodeChar_ascii {c : Char} (h : c.toNat < 128) :
    String.utf8EncodeChar c = [UInt8.ofNat c.toNat] := by
  have : c.val.toNat ≤ 127 := by change c.toNat ≤ 127; omega
  simp only [String.utf8EncodeChar, this, if_true]
  rfl

theorem utf8EncodeChar_high {c : Char} (h : ¬ c.toNat < 128) :
    ∀ b ∈ String.utf8EncodeChar c, ¬ b < 128 := by
  have : ¬ c.val.toNat ≤ 127 := by change ¬ c.toNat ≤ 127; omega
  simp only [String.utf8EncodeChar, this, if_false]
  split
  · simp [UInt8.le_iff_toNat_le]; omega
  · split
    · simp [UInt8.le_iff_toNat_le]; omega
    · simp [UInt8.le_iff_toNat_le]; omega

/-- Each ASCII character is a byte of its own in UTF-8, and no other character
has that byte. -/
theorem marks_utf8 {d : Char} (ascii : d.toNat < 128) :
    Marks String.utf8EncodeChar (· == d) (· == UInt8.ofNat d.toNat) := by
  refine ⟨fun c hc => ?_, fun c hc => ⟨String.utf8EncodeChar_ne_nil, fun b hb => ?_⟩⟩
  · obtain rfl := eq_of_beq hc
    exact ⟨_, utf8EncodeChar_ascii ascii, by simp⟩
  · refine Bool.eq_false_iff.mpr fun hq => ?_
    obtain rfl := eq_of_beq hq
    by_cases small : c.toNat < 128
    · rw [utf8EncodeChar_ascii small, List.mem_singleton] at hb
      have same := congrArg UInt8.toNat hb
      simp only [UInt8.toNat_ofNat'] at same
      have : c = d := Char.toNat_inj.mp (by omega)
      simp [this] at hc
    · refine utf8EncodeChar_high small _ hb ?_
      simp [UInt8.lt_iff_toNat_lt]
      omega

theorem marks_utf16 {d : Char} (ascii : d.toNat < 128) :
    Marks utf16EncodeChar (· == d) (· == UInt16.ofNat d.toNat) := by
  refine ⟨fun c hc => ?_, fun c hc => ⟨?_, fun u hu => ?_⟩⟩
  · obtain rfl := eq_of_beq hc
    exact ⟨UInt16.ofNat c.toNat, by simp [utf16EncodeChar, show c.toNat < 0x10000 by omega], by simp⟩
  · unfold utf16EncodeChar
    split <;> simp
  · refine Bool.eq_false_iff.mpr fun hq => ?_
    obtain rfl := eq_of_beq hq
    have valid := toNat_valid c
    have differ : c.toNat ≠ d.toNat := fun same => by simp [Char.toNat_inj.mp same] at hc
    unfold utf16EncodeChar at hu
    split at hu
    · simp only [List.mem_singleton] at hu
      have same := congrArg UInt16.toNat hu
      simp only [UInt16.toNat_ofNat'] at same
      omega
    · simp only [List.mem_cons, List.not_mem_nil, or_false] at hu
      rcases hu with hu | hu
      all_goals
        have same := congrArg UInt16.toNat hu
        simp only [UInt16.toNat_ofNat'] at same
        omega

end Ikofi
