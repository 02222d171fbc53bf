import Ikofi.PasswordFile.Agreement

/-!
# What the native reader makes of a file that Java wrote

`writeFile` puts a colon between the user name and the hash and escapes nothing.
The reader takes the first line and cuts it at colons, so it finds the user name
whole unless that holds one of the two separators itself.
-/

namespace Ikofi.PasswordFile

open Cut

/-- Units below 128 are their own encoding. -/
theorem codePoints_ascii {bs : Bytes} (ascii : ∀ b ∈ bs, b < 128) :
    codePoints (bs.map UInt8.toUInt16) = bs.map fun b => Char.ofNat b.toNat := by
  induction bs with
  | nil => rfl
  | cons b bs ih =>
    have small : b.toNat < 128 := UInt8.lt_iff_toNat_lt.mp (ascii b (by simp))
    have high : isHighSurrogate b.toUInt16 = false := by
      simp [isHighSurrogate, UInt16.le_iff_toNat_le]
      omega
    have low : isLowSurrogate b.toUInt16 = false := by
      simp [isLowSurrogate, UInt16.le_iff_toNat_le]
      omega
    rw [List.map_cons, codePoints_unit high low, ih fun c hc => ascii c (by simp [hc])]
    simp

theorem toNat_ofNat_ascii {b : UInt8} (ascii : b < 128) : (Char.ofNat b.toNat).toNat = b.toNat := by
  have small : b.toNat < 128 := UInt8.lt_iff_toNat_lt.mp ascii
  refine toNat_ofNat_valid ?_
  unfold Nat.isValidChar
  omega

/-- Different bytes are different characters. -/
theorem ofNat_ne_ascii {b d : UInt8} (ascii : b < 128) (small : d < 128) (other : b ≠ d) :
    Char.ofNat b.toNat ≠ Char.ofNat d.toNat := by
  intro same
  have bytes := congrArg Char.toNat same
  rw [toNat_ofNat_ascii ascii, toNat_ofNat_ascii small] at bytes
  exact other (UInt8.toNat_inj.mp bytes)

/-- An encoder that takes each ASCII character to one element. -/
theorem flatMap_ascii {β : Type} {f : Char → List β} {g : UInt8 → β} {bs : Bytes}
    (single : ∀ b < 128, f (Char.ofNat b.toNat) = [g b]) (ascii : ∀ b ∈ bs, b < 128) :
    (bs.map fun b => Char.ofNat b.toNat).flatMap f = bs.map g := by
  induction bs with
  | nil => rfl
  | cons b bs ih =>
    have head := single b (ascii b (by simp))
    have rest := ih fun c hc => ascii c (by simp [hc])
    rw [List.map_cons, List.flatMap_cons, head, rest, List.map_cons, List.singleton_append]

theorem utf8Encode_ascii {bs : Bytes} (ascii : ∀ b ∈ bs, b < 128) :
    utf8Encode (bs.map fun b => Char.ofNat b.toNat) = bs := by
  have single : ∀ b < 128, String.utf8EncodeChar (Char.ofNat b.toNat) = [b] := by
    intro b hb
    have same := toNat_ofNat_ascii hb
    have small : b.toNat < 128 := UInt8.lt_iff_toNat_lt.mp hb
    rw [utf8EncodeChar_ascii (by omega), same, UInt8.ofNat_toNat]
  exact (flatMap_ascii single ascii).trans (List.map_id bs)

theorem writeFile_eq (u h : JString) :
    writeFile u h = utf8Encode (codePoints u ++ ':' :: codePoints h) := by
  have low : isLowSurrogate 58 = false := by decide
  rw [writeFile, utf8, codePoints_append low, codePoints_unit (by decide) low]
  rfl

section
variable {u : JString}

theorem colon_mem : ':' ∈ codePoints u ↔ 58 ∈ u := mem_codePoints (by decide) (by decide)

theorem newline_mem : '\n' ∈ codePoints u ↔ 10 ∈ u := mem_codePoints (by decide) (by decide)

theorem nul_mem : '\x00' ∈ codePoints u ↔ 0 ∈ u := mem_codePoints (by decide) (by decide)

theorem codePoints_ne_nil (h : u ≠ []) : codePoints u ≠ [] := by
  fun_cases codePoints u <;> simp_all

/-- A user name without separators comes back, with the hash after it. -/
theorem delivers_writeFile {bs : Bytes} (filled : u ≠ []) (colon : 58 ∉ u) (newline : 10 ∉ u)
    (nul : 0 ∉ u) (some : bs ≠ []) (plain : ∀ b ∈ bs, b ≠ 0 ∧ b ≠ 10 ∧ b ≠ 58 ∧ b < 128) :
    Delivers (Option.some (writeFile u (bs.map UInt8.toUInt16))) (utf8 u) bs := by
  have ascii : ∀ b ∈ bs, b < 128 := fun b hb => (plain b hb).2.2.2
  rw [writeFile_eq, codePoints_ascii ascii, delivers_iff]
  refine ⟨_, _, ?_, rfl, (utf8Encode_ascii ascii).symm⟩
  generalize hh : (bs.map fun b => Char.ofNat b.toNat) = h
  have inHash : ∀ c ∈ h, c ≠ ':' ∧ c ≠ '\n' ∧ c ≠ '\x00' := by
    intro c hc
    rw [← hh] at hc
    obtain ⟨b, hb, rfl⟩ := List.mem_map.mp hc
    obtain ⟨nul, newline, colon, small⟩ := plain b hb
    exact ⟨ofNat_ne_ascii small (by decide) colon, ofNat_ne_ascii small (by decide) newline,
      ofNat_ne_ascii small (by decide) nul⟩
  have line : ∀ c ∈ codePoints u ++ ':' :: h, c ≠ '\n' ∧ c ≠ '\x00' := by
    intro c hc
    simp only [List.mem_append, List.mem_cons] at hc
    rcases hc with hc | rfl | hc
    · exact ⟨ne_of_mem_of_not_mem hc (mt newline_mem.mp newline),
        ne_of_mem_of_not_mem hc (mt nul_mem.mp nul)⟩
    · decide
    · exact (inHash c hc).2
  have whole : nativeLine (codePoints u ++ ':' :: h) = codePoints u ++ ':' :: (h ++ []) := by
    have append : nativeLine (codePoints u ++ ':' :: h ++ []) = codePoints u ++ ':' :: h ++ [] :=
      nativeLine_append line
    simpa using append
  rw [whole]
  exact firstTwo_append (codePoints_ne_nil filled) (by simpa [← hh]) (mt colon_mem.mp colon)
    (fun hc => (inHash _ hc).1 rfl) (by simp)

/-- The written file is long enough for passwords to be offered. -/
theorem ikofiEnablePasswordFile_writeFile {bs : Bytes} (filled : u ≠ []) (some : bs ≠ [])
    (ascii : ∀ b ∈ bs, b < 128) :
    ikofiEnablePasswordFile (Option.some (writeFile u (bs.map UInt8.toUInt16))) = true := by
  have name : 0 < (utf8Encode (codePoints u)).length :=
    List.length_pos_of_ne_nil (mt marks_nul.flatMap_eq_nil.mp (codePoints_ne_nil filled))
  have hash : 0 < bs.length := List.length_pos_of_ne_nil some
  have content : writeFile u (bs.map UInt8.toUInt16) = utf8Encode (codePoints u) ++ 58 :: bs := by
    have tail := utf8Encode_ascii ascii
    rw [writeFile_eq, codePoints_ascii ascii]
    unfold utf8Encode at tail ⊢
    rw [List.flatMap_append, List.flatMap_cons, tail]
    rfl
  rw [content]
  simp only [ikofiEnablePasswordFile, configFileExists, Option.any_some, List.length_append,
    List.length_cons, decide_eq_true_eq]
  omega

/-- A user name comes back only if it holds neither separator. -/
theorem plain_of_delivers {h : JString} {bs : Bytes}
    (d : Delivers (some (writeFile u h)) (utf8 u) bs) : 58 ∉ u ∧ 10 ∉ u := by
  rw [writeFile_eq, delivers_iff] at d
  obtain ⟨a, b, found, same, -⟩ := d
  obtain rfl : codePoints u = a := utf8Encode_inj same
  have colon : ':' ∉ codePoints u := by
    obtain ⟨r, r', first, -⟩ := firstTwo_eq_some.mp found
    obtain ⟨_, _, -, -, -, plain, -, -⟩ := token_eq_some.mp first
    intro h
    simpa using plain ':' h
  refine ⟨mt colon_mem.mpr colon, fun newline => ?_⟩
  -- the line ends inside the user name, before the first colon
  obtain ⟨x, y, cut, line⟩ := List.eq_append_cons_of_mem (newline_mem.mpr newline)
  have stop : nativeLine (codePoints u ++ ':' :: codePoints h) =
      (x ++ ['\n']).takeWhile (· != '\x00') := by
    have before : ∀ c ∈ x, (c != '\n') = true := by
      intro c hc
      simpa using ne_of_mem_of_not_mem hc line
    rw [cut, List.append_assoc, nativeLine, List.takeWhile_append_of_pos before,
      List.dropWhile_append_of_pos before]
    simp
  have none : firstTwo (· == ':') (nativeLine (codePoints u ++ ':' :: codePoints h)) = none := by
    refine firstTwo_eq_none.mpr ⟨[], _, [], by rw [List.nil_append, List.append_nil], by simp, ?_, by simp⟩
    intro c hc
    rw [stop] at hc
    have mem : c ∈ codePoints u := by
      have := (List.takeWhile_prefix _).mem hc
      rw [cut]
      simp only [List.mem_append, List.mem_cons, List.not_mem_nil, or_false] at this ⊢
      exact this.imp_right Or.inl
    simpa using ne_of_mem_of_not_mem mem colon
  rw [none] at found
  cases found

end

end Ikofi.PasswordFile
