import Ikofi.Text

/-!
# Base64

`base64_encode`, with padding. Both the Java and the native side store and
compare the encoded digest as text, so what matters beside its value is which
bytes it can hold.
-/

namespace Ikofi.Base64

def codes : Bytes := lit "ABCDEFGHIJKLMNOPQRSTUVWXYZabcdefghijklmnopqrstuvwxyz0123456789+/"

def code (n : Nat) : UInt8 := codes.getD (n % 64) 0

def encode : Bytes → Bytes
  | a :: b :: c :: rest =>
    code (a.toNat / 4) :: code (a.toNat % 4 * 16 + b.toNat / 16)
      :: code (b.toNat % 16 * 4 + c.toNat / 64) :: code c.toNat :: encode rest
  | [a, b] =>
    [code (a.toNat / 4), code (a.toNat % 4 * 16 + b.toNat / 16), code (b.toNat % 16 * 4), 61]
  | [a] => [code (a.toNat / 4), code (a.toNat % 4 * 16), 61, 61]
  | [] => []

theorem code_mem (n : Nat) : code n ∈ codes := by
  have small : n % 64 < codes.length := by
    have : codes.length = 64 := by decide
    omega
  rw [code, List.getD_eq_getElem?_getD, List.getElem?_eq_getElem small, Option.getD_some]
  exact List.getElem_mem small

/-- The encoding holds letters, digits, `+`, `/` and `=`. -/
theorem mem_encode {b : UInt8} {bs : Bytes} (h : b ∈ encode bs) : b ∈ codes ∨ b = 61 := by
  fun_induction encode bs with
  | case1 x y z rest ih =>
    simp only [List.mem_cons] at h
    rcases h with rfl | rfl | rfl | rfl | h
    · exact Or.inl (code_mem _)
    · exact Or.inl (code_mem _)
    · exact Or.inl (code_mem _)
    · exact Or.inl (code_mem _)
    · exact ih h
  | case2 x y =>
    simp only [List.mem_cons, List.not_mem_nil, or_false] at h
    rcases h with rfl | rfl | rfl | rfl
    · exact Or.inl (code_mem _)
    · exact Or.inl (code_mem _)
    · exact Or.inl (code_mem _)
    · exact Or.inr rfl
  | case3 x =>
    simp only [List.mem_cons, List.not_mem_nil, or_false] at h
    rcases h with rfl | rfl | rfl | rfl
    · exact Or.inl (code_mem _)
    · exact Or.inl (code_mem _)
    · exact Or.inr rfl
    · exact Or.inr rfl
  | case4 => cases h

/-- No byte of the encoding ends a C string, a line or a field. -/
theorem encode_plain {b : UInt8} {bs : Bytes} (h : b ∈ encode bs) :
    b ≠ 0 ∧ b ≠ 10 ∧ b ≠ 58 ∧ b < 128 := by
  have table : codes.all (fun b => b != 0 && b != 10 && b != 58 && decide (b < 128)) = true := by
    decide +kernel
  rcases mem_encode h with h | rfl
  · simpa [and_assoc] using List.all_eq_true.mp table b h
  · decide

theorem encode_ne_return {b : UInt8} {bs : Bytes} (h : b ∈ encode bs) : b ≠ 13 := by
  rintro rfl
  rcases mem_encode h with table | padding
  · exact absurd table (by decide)
  · cases padding

theorem encode_ne_nil {bs : Bytes} (h : bs ≠ []) : encode bs ≠ [] := by
  fun_cases encode bs <;> simp_all

end Ikofi.Base64
