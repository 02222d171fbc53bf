import Ikofi.Base64

/-!
# Reading base64

`base64_decode`, which leaves out whatever is not of the alphabet. The output buffer is
twice as long as the input, and so is never too short.
-/

namespace Ikofi.Base64

/-- `map_base64`: 254 is the padding, 255 stands for no value. -/
def mapBase64 (b : UInt8) : Nat :=
  if b = 43 then 62
  else if b = 47 then 63
  else if 48 ≤ b ∧ b ≤ 57 then b.toNat + 4
  else if b = 61 then 254
  else if 65 ≤ b ∧ b ≤ 90 then b.toNat - 65
  else if 97 ≤ b ∧ b ≤ 122 then b.toNat - 71
  else 255

/-- What is behind the last four values. -/
def decodeEnd (t : Nat) : Nat → Option Bytes
  | 0 => some []
  | 2 => some [UInt8.ofNat (t * 0x1000 / 0x10000)]
  | 3 => some [UInt8.ofNat (t * 0x40 / 0x10000), UInt8.ofNat (t * 0x40 / 0x100)]
  | _ => none

/-- The loop, with `y` values read into `t`. -/
def decodeFrom (t y : Nat) : Bytes → Option Bytes
  | [] => decodeEnd t y
  | b :: rest =>
    if 64 ≤ mapBase64 b then decodeFrom t y rest
    else if y + 1 = 4 then
      (decodeFrom 0 0 rest).map fun out =>
        UInt8.ofNat ((t * 64 + mapBase64 b) / 0x10000) ::
          UInt8.ofNat ((t * 64 + mapBase64 b) / 0x100) :: UInt8.ofNat (t * 64 + mapBase64 b) :: out
    else decodeFrom (t * 64 + mapBase64 b) (y + 1) rest

def decode (s : Bytes) : Option Bytes := decodeFrom 0 0 s

theorem mapBase64_code (n : Nat) : mapBase64 (code n) = n % 64 := by
  have table : ∀ k : Fin 64, mapBase64 (code k) = k := by decide +kernel
  have value := table ⟨n % 64, Nat.mod_lt _ (by decide)⟩
  have same : code (n % 64) = code n := by
    unfold code
    rw [Nat.mod_mod]
  rwa [same] at value

theorem decodeFrom_code (t y n : Nat) (rest : Bytes) :
    decodeFrom t y (code n :: rest) =
      if y + 1 = 4 then
        (decodeFrom 0 0 rest).map fun out =>
          UInt8.ofNat ((t * 64 + n % 64) / 0x10000) ::
            UInt8.ofNat ((t * 64 + n % 64) / 0x100) :: UInt8.ofNat (t * 64 + n % 64) :: out
      else decodeFrom (t * 64 + n % 64) (y + 1) rest := by
  have value : ¬ 64 ≤ n % 64 := Nat.not_le.mpr (Nat.mod_lt _ (by decide))
  rw [decodeFrom, mapBase64_code, if_neg value]

theorem decodeFrom_padding (t y : Nat) (rest : Bytes) :
    decodeFrom t y (61 :: rest) = decodeFrom t y rest := by
  rw [decodeFrom, if_pos (by decide)]

theorem ofNat_eq {n : Nat} {a : UInt8} (h : n % 256 = a.toNat) : UInt8.ofNat n = a := by
  apply UInt8.toNat_inj.mp
  rwa [UInt8.toNat_ofNat']

/-- Decoding undoes encoding. -/
theorem decode_encode (bs : Bytes) : decode (encode bs) = some bs := by
  unfold decode
  fun_induction encode bs with
  | case1 a b c rest ih =>
    have ha := a.toNat_lt
    have hb := b.toNat_lt
    have hc := c.toNat_lt
    rw [decodeFrom_code, if_neg (by decide), decodeFrom_code, if_neg (by decide), decodeFrom_code,
      if_neg (by decide), decodeFrom_code, if_pos rfl, ih, Option.map_some]
    congr 1
    congr 1
    · apply ofNat_eq
      omega
    · congr 1
      · apply ofNat_eq
        omega
      · congr 1
        apply ofNat_eq
        omega
  | case2 a b =>
    have ha := a.toNat_lt
    have hb := b.toNat_lt
    rw [decodeFrom_code, if_neg (by decide), decodeFrom_code, if_neg (by decide), decodeFrom_code,
      if_neg (by decide), decodeFrom_padding, decodeFrom, decodeEnd]
    congr 1
    congr 1
    · apply ofNat_eq
      omega
    · congr 1
      apply ofNat_eq
      omega
  | case3 a =>
    have ha := a.toNat_lt
    rw [decodeFrom_code, if_neg (by decide), decodeFrom_code, if_neg (by decide),
      decodeFrom_padding, decodeFrom_padding, decodeFrom, decodeEnd]
    congr 1
    congr 1
    apply ofNat_eq
    omega
  | case4 => rfl

end Ikofi.Base64
