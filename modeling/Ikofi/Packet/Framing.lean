import Mathlib.Data.List.Basic
import Ikofi.Packet.Model

/-!
# One packet there and back

The two sides of a connection hold keys that belong together. A packet that one
side makes is then taken by the other side: its length passes the checks, its
hash or tag is right, and the payload comes out of it. What is relied on of a
cipher and of the compression is stated as their law.
-/

namespace Ikofi.Packet

open Wire

variable {σ ζ : Type}

theorem uint_of_lt {n : Nat} (h : n < 0x100000000) : uint n = n := by
  unfold uint
  omega

/-! ### Lengths -/

/-- The bytes of a packet that have to fill blocks, of so many bytes in all. -/
def KeyContext.aligned (k : KeyContext σ ζ) (len : Nat) : Nat :=
  match k.mode with
  | .plain _ _ => len
  | .aead _ _ => len - 4

theorem KeyContext.aligned_add (k : KeyContext σ ζ) {len : Nat} (h : 4 ≤ len) (n : Nat) :
    k.aligned (len + n) = k.aligned len + n := by
  unfold KeyContext.aligned
  cases k.mode with
  | plain => rfl
  | aead =>
    dsimp only
    omega

/-- What remains to the next block boundary, after one more block if need be. -/
theorem fill_mod {a b : Nat} (positive : 0 < b) (n : Nat) :
    (a + (b - a % b + n * b)) % b = 0 := by
  have below : a % b < b := Nat.mod_lt a positive
  have split := Nat.div_add_mod a b
  have whole : a + (b - a % b + n * b) = b * (a / b + 1 + n) := by
    rw [Nat.mul_add, Nat.mul_add, Nat.mul_one, Nat.mul_comm n b]
    omega
  rw [whole]
  exact Nat.mul_mod_right _ _

/-- The padding is a remainder of a block and at most two blocks. -/
theorem padding_blocks (k : KeyContext σ ζ) (len : Nat) (low : 8 ≤ k.blocksize)
    (high : k.blocksize ≤ 16) :
    ∃ n, padding k len = k.blocksize - k.aligned len % k.blocksize + n * k.blocksize ∧
      (n = 0 ∨ k.blocksize - k.aligned len % k.blocksize < 4 ∧ n = 1 ∨
        len + 4 < minPacketLen ∧ n ≤ 2) ∧
      4 ≤ padding k len ∧ (6 ≤ len → minPacketLen ≤ len + padding k len) := by
  have below : k.aligned len % k.blocksize < k.blocksize := Nat.mod_lt _ (by omega)
  have eq : padding k len =
      let padlen := (k.blocksize - k.aligned len % k.blocksize) % 0x100
      let padlen := if padlen < 4 then (padlen + k.blocksize) % 0x100 else padlen
      if len + padlen < minPacketLen then (padlen + k.blocksize) % 0x100 else padlen := by
    unfold padding KeyContext.aligned
    cases k.mode <;> rfl
  dsimp only at eq
  unfold minPacketLen at eq ⊢
  split at eq
  · split at eq
    · exact ⟨2, by omega, by omega, by omega, by omega⟩
    · exact ⟨1, by omega, by omega, by omega, by omega⟩
  · split at eq
    · exact ⟨1, by omega, by omega, by omega, by omega⟩
    · exact ⟨0, by omega, by omega, by omega, by omega⟩

theorem padding_le (k : KeyContext σ ζ) {len : Nat} (low : 8 ≤ k.blocksize)
    (high : k.blocksize ≤ 16) : padding k len ≤ k.blocksize + 3 ∨
      len + 4 < minPacketLen ∧ padding k len ≤ 48 := by
  obtain ⟨n, eq, cases, -, -⟩ := padding_blocks k len low high
  rcases cases with rfl | ⟨_, rfl⟩ | ⟨_, le⟩
  · omega
  · omega
  · have : n * k.blocksize ≤ 2 * k.blocksize := Nat.mul_le_mul_right _ le
    omega

/-- A padded packet fills blocks. -/
theorem aligned_padding (k : KeyContext σ ζ) {len : Nat} (low : 8 ≤ k.blocksize)
    (high : k.blocksize ≤ 16) (h : 4 ≤ len) :
    k.aligned (len + padding k len) % k.blocksize = 0 := by
  obtain ⟨n, eq, -, -, -⟩ := padding_blocks k len low high
  rw [k.aligned_add h, eq]
  exact fill_mod (by omega) n

/-- What packets begin with: so many bytes follow, so many of them padding. -/
theorem clearPacket_eq (content pad : Bytes) :
    clearPacket content pad = store32 (1 + content.length + pad.length) ++
      (UInt8.ofNat pad.length :: (content ++ pad)) := by
  have : 5 + content.length + pad.length - 4 = 1 + content.length + pad.length := by omega
  simp [clearPacket, this]

theorem length_store32 (n : Nat) : (store32 n).length = 4 := rfl

theorem length_clearPacket (content pad : Bytes) :
    (clearPacket content pad).length = 5 + content.length + pad.length := by
  rw [clearPacket_eq]
  simp only [List.length_append, List.length_cons, length_store32]
  omega

theorem load32_clearPacket {content pad : Bytes}
    (h : content.length + pad.length < 0x10000000) :
    load32 ((clearPacket content pad).take 4) = 1 + content.length + pad.length := by
  rw [clearPacket_eq, List.take_left' (length_store32 _), load32_store32, Nat.mod_eq_of_lt]
  omega

/-! ### Laws -/

/-- A cipher gives back what was put in, as long as both sides' states are related. A packet
may be decrypted in two pieces, and the length may be asked for first. -/
def CipherMode.Lawful (m : CipherMode σ) (blocksize hashsize : Nat) (R : σ → σ → Prop) : Prop :=
  match m with
  | .plain encrypt decrypt =>
    ∀ s t, R s t → ∀ b c : Bytes, b.length = blocksize → c.length % blocksize = 0 →
      ∃ x y s' t₁ t₂, encrypt (b ++ c) s = some (x ++ y, s') ∧ x.length = b.length ∧
        y.length = c.length ∧ decrypt x t = some (b, t₁) ∧ decrypt y t₁ = some (c, t₂) ∧ R s' t₂
  | .aead aeadGetlength aeadCrypt =>
    ∀ s t, R s t → ∀ seq clear, 4 ≤ clear.length →
      ∃ x tag s' t', aeadCrypt seq clear hashsize .encrypt s = some (x ++ tag, s') ∧
        x.length = clear.length ∧ tag.length = hashsize ∧
        aeadGetlength seq (x.take blocksize) t = some (load32 (clear.take 4)) ∧
        aeadCrypt seq (x ++ tag) hashsize .decrypt t = some (clear, t') ∧ R s' t'

/-- What is deflated into enough room is all of the input, and is inflated to it again. -/
def Flates (Z : ζ → ζ → Prop) (deflate inflate : Bytes → Nat → ζ → Option (Bytes × Nat × ζ)) :
    Prop :=
  ∀ z z', Z z z' → ∀ src room, 0 < src.length → src.length ≤ recvMaxPayloadLen →
    src.length + zlibCompressExpansion ≤ room →
    ∃ out z₁ z₁', deflate src room z = some (out, 0, z₁) ∧ 0 < out.length ∧
      out.length ≤ src.length + zlibCompressExpansion ∧
      inflate out (recvMaxPayloadLen + 1) z' = some (src, 0, z₁') ∧ Z z₁ z₁'

/-- Keys for sending and keys for receiving that belong together. -/
structure Paired (R : σ → σ → Prop) (Z : ζ → ζ → Prop) (k k' : KeyContext σ ζ) : Prop where
  blocksize : k'.blocksize = k.blocksize
  hashsize : k'.hashsize = k.hashsize
  mode : k'.mode = k.mode
  hmac : k'.hmac = k.hmac
  algoComp : k'.algoComp = k.algoComp
  block : 8 ≤ k.blocksize ∧ k.blocksize ≤ 16
  hash : k.hashsize ≤ 64
  digest : ∀ b, k.hashsize ≤ (k.hmac b).length
  lawful : k.mode.Lawful k.blocksize k.hashsize R
  flates : Flates Z k.flate k'.flate
  cipherState : R k.cipherState k'.cipherState
  zstream : Z k.zstream k'.zstream

section
variable {R : σ → σ → Prop} {Z : ζ → ζ → Prop} {k k' : KeyContext σ ζ}

theorem Paired.next (h : Paired R Z k k') {s t : σ} (states : R s t) :
    Paired R Z { k with cipherState := s } { k' with cipherState := t } where
  __ := h
  cipherState := states

theorem Paired.flated (h : Paired R Z k k') {z z' : ζ} (states : Z z z') :
    Paired R Z { k with zstream := z } { k' with zstream := z' } where
  __ := h
  zstream := states

theorem length_makeMac (h : Paired R Z k k') (seqno : Nat) (clear : Bytes) :
    (makeMac k seqno clear).length = k.hashsize := by
  unfold makeMac
  split
  · rw [List.length_take]
    exact Nat.min_eq_left (h.digest _)
  · simp only [List.length_nil]
    omega

/-- The receiver takes a packet: its length passes the checks, and what comes out of it is the
clear packet with the hash or the tag behind it. -/
structure Opens (k : KeyContext σ ζ) (seq : Nat) (packet data clear : Bytes)
    (kb ko : KeyContext σ ζ) : Prop where
  block : k.blocksize ≤ packet.length
  start : data.length = k.blocksize
  same : kb.blocksize = k.blocksize
  length : ∃ plen, packetLength k seq (packet.take k.blocksize) =
      .ok (data, kb, packet.length, plen) ∧ k.blocksize ≤ plen ∧ plen % k.blocksize = 0
  opened : ∀ size, packet.length ≤ size →
    openPacket kb seq ⟨data ++ packet.drop k.blocksize, packet.length, size⟩ = .ok (clear, ko)

/-- The content behind the two lengths, whatever hash or tag stands behind the packet. -/
theorem packetPayload_clear (authdone : Bool) {content pad tail : Bytes}
    (some : 0 < content.length) (fits : content.length ≤ recvMaxPayloadLen + zlibCompressExpansion)
    (pads : pad.length < 0x100) (tails : tail.length = k.hashsize) :
    packetPayload k authdone (5 + content.length + pad.length + tail.length)
        (clearPacket content pad ++ tail) =
      if isCompress k authdone then bufDecompress k content else .ok (content, k) := by
  have behind : (clearPacket content pad ++ tail).drop 4 =
      UInt8.ofNat pad.length :: (content ++ pad ++ tail) := by
    rw [clearPacket_eq, List.append_assoc, List.drop_left' (length_store32 _)]
    simp
  have padlen : (UInt8.ofNat pad.length).toNat = pad.length := by
    rw [UInt8.toNat_ofNat']
    exact Nat.mod_eq_of_lt pads
  have len : uint ((5 + content.length + pad.length + tail.length : Nat) -
      ((UInt8.ofNat pad.length).toNat : Int) - 4 - 1 - k.hashsize) = content.length := by
    rw [padlen, tails]
    unfold uint
    have : recvMaxPayloadLen + zlibCompressExpansion = 131123 := rfl
    omega
  have within : ¬ (recvMaxPayloadLen + zlibCompressExpansion < content.length ∨
      content.length < 1) := by omega
  have content_first : (content ++ pad ++ tail).take content.length = content := by
    rw [List.append_assoc, List.take_left' rfl]
  simp only [packetPayload, behind, bufGetByte, bind, Except.bind, len, if_neg within,
    content_first, pure, Except.pure]

/-- A payload is compressed so that it comes out again, if it is compressed at all. -/
theorem Paired.content (h : Paired R Z k k') (authdone : Bool) {payload : Bytes}
    (some : 0 < payload.length) (fits : payload.length ≤ transMaxPayloadLen) :
    ∃ content z z', packetContent k authdone payload = .ok (content, { k with zstream := z }) ∧
      0 < content.length ∧ content.length ≤ payload.length + zlibCompressExpansion ∧
      (∀ t, (if isCompress k' authdone then bufDecompress { k' with cipherState := t } content
        else .ok (content, { k' with cipherState := t })) =
          .ok (payload, { k' with cipherState := t, zstream := z' })) ∧
      Z z z' := by
  have same : isCompress k' authdone = isCompress k authdone := by
    simp only [isCompress, h.algoComp]
  have short : payload.length ≤ recvMaxPayloadLen := Nat.le_trans fits (by decide)
  by_cases compressed : isCompress k authdone = true
  · have room : payload.length + zlibCompressExpansion ≤ encryptBufSize k payload.length - 5 := by
      unfold encryptBufSize
      omega
    obtain ⟨out, z, z', deflated, filled, bounded, inflated, states⟩ :=
      h.flates _ _ h.zstream payload _ some short room
    refine ⟨out, z, z', ?_, filled, bounded, fun t => ?_, states⟩
    · simp [packetContent, compressed, bufCompress, dropbearAssert, room, deflated, bind,
        Except.bind, pure, Except.pure]
    · have taken : ¬ (0 < 0 ∨ recvMaxPayloadLen < payload.length) := by omega
      rw [same, if_pos compressed, bufDecompress, inflated]
      exact if_neg taken
  · exact ⟨payload, k.zstream, k'.zstream, by rw [packetContent, if_neg compressed], some,
      Nat.le_add_right _ _, fun t => by rw [same, if_neg compressed], h.zstream⟩

/-- A clear packet that its length describes and that fills blocks. -/
structure Clear (k : KeyContext σ ζ) (clear : Bytes) : Prop where
  filled : 16 ≤ clear.length
  bounded : clear.length ≤ 0x10000
  length : load32 (clear.take 4) = clear.length - 4
  aligned : k.aligned clear.length % k.blocksize = 0

/-- With a hash: the first block gives the length. -/
theorem packetLength_plain {encrypt decrypt : Bytes → σ → Option (Bytes × σ)}
    (mode : k.mode = .plain encrypt decrypt) (seq : Nat) {x b : Bytes} {t : σ} {len : Nat}
    (dec : decrypt x k.cipherState = some (b, t)) (length : load32 (b.take 4) = len - 4)
    (large : 4 ≤ len) (small : len + k.hashsize < 0x100000000) :
    packetLength k seq x = .ok (b, { k with cipherState := t }, len + k.hashsize, len) := by
  have plen : uint ((load32 (b.take 4) : Int) + 4) = len := by
    rw [length]
    unfold uint
    omega
  have total : uint ((len : Int) + k.hashsize) = len + k.hashsize := by
    unfold uint
    omega
  simp only [packetLength, mode, dec, plen, total]

/-- With a hash: what is behind the first block is decrypted, and the hash of it all compared. -/
theorem openPacket_plain {encrypt decrypt : Bytes → σ → Option (Bytes × σ)}
    (mode : k.mode = .plain encrypt decrypt) {seq : Nat} {b r y mac : Bytes} {t : σ} (size : Nat)
    (first : b.length = k.blocksize) (dec : decrypt y k.cipherState = some (r, t))
    (rest : y.length = r.length) (hash : makeMac k seq (b ++ r) = mac)
    (tail : mac.length = k.hashsize) (small : b.length + r.length + k.hashsize ≤ 0x20000) :
    openPacket k seq ⟨b ++ (y ++ mac), b.length + r.length + k.hashsize, size⟩ =
      .ok (b ++ r ++ mac, { k with cipherState := t }) := by
  have len : uint (((b.length + r.length + k.hashsize : Nat) : Int) - k.hashsize - k.blocksize) =
      y.length := by
    unfold uint
    omega
  have contents : uint (((b.length + r.length + k.hashsize : Nat) : Int) - k.hashsize) =
      (b ++ r).length := by
    rw [List.length_append]
    unfold uint
    omega
  have ptr : bufGetPtr (y ++ mac) y.length = .ok y :=
    bufGetPtr_append (by unfold bufMaxIncr; omega)
  have behind : (b ++ (y ++ mac)).drop (k.blocksize + y.length) = mac := by
    rw [← List.append_assoc, List.drop_left' (by rw [List.length_append]; omega)]
  have matching : ¬ makeMac k seq ((b ++ r ++ mac).take (b ++ r).length) ≠
      ((b ++ r ++ mac).drop (b ++ r).length).take k.hashsize := by
    rw [List.take_left' rfl, List.drop_left' rfl, List.take_of_length_le (by omega)]
    exact fun differ => differ hash
  simp only [openPacket, mode, len, List.drop_left' first, ptr, bind, Except.bind, dec,
    List.take_left' first, behind, contents, if_neg matching]

/-- With a hash: the first block is decrypted alone, the rest once it has come. -/
theorem Paired.sealed_plain (h : Paired R Z k k') {encrypt decrypt : Bytes → σ → Option (Bytes × σ)}
    (mode : k.mode = .plain encrypt decrypt) (seq : Nat) {size : Nat} {clear : Bytes}
    (c : Clear k clear) (room : clear.length + k.hashsize ≤ size) :
    ∃ packet data tail s t kb,
      sealPacket k seq size clear = .ok (packet, { k with cipherState := s }) ∧
      packet.length = clear.length + k.hashsize ∧ tail.length = k.hashsize ∧ R s t ∧
      Opens k' seq packet data (clear ++ tail) kb { k' with cipherState := t } := by
  have law := h.lawful
  rw [mode] at law
  have mode' : k'.mode = .plain encrypt decrypt := h.mode.trans mode
  have blocks : clear.length % k.blocksize = 0 := by
    have := c.aligned
    rwa [KeyContext.aligned, mode] at this
  have block := h.block
  have filled := c.filled
  have bounded := c.bounded
  have hash := h.hash
  -- the first block and the rest
  obtain ⟨b, r, rfl, size_b⟩ : ∃ b r, clear = b ++ r ∧ b.length = k.blocksize :=
    ⟨clear.take k.blocksize, clear.drop k.blocksize, (List.take_append_drop _ _).symm,
      List.length_take_of_le (by omega)⟩
  rw [List.length_append] at *
  have rest : r.length % k.blocksize = 0 := by
    rwa [size_b, Nat.add_mod_left] at blocks
  have length : load32 (b.take 4) = b.length + r.length - 4 := by
    have := c.length
    rwa [List.take_append_of_le_length (by omega), List.length_append] at this
  obtain ⟨x, y, s, t₁, t, enc, size_x, size_y, dec₁, dec₂, states⟩ :=
    law _ _ h.cipherState b r size_b rest
  have mac := length_makeMac h seq (b ++ r)
  have same : makeMac { k' with cipherState := t₁ } seq (b ++ r) = makeMac k seq (b ++ r) := by
    simp only [makeMac, h.hashsize, h.hmac]
  have total : (x ++ y ++ makeMac k seq (b ++ r)).length = b.length + r.length + k.hashsize := by
    simp only [List.length_append, mac, size_x, size_y]
  refine ⟨x ++ y ++ makeMac k seq (b ++ r), b, makeMac k seq (b ++ r), s, t,
    { k' with cipherState := t₁ }, ?_, total, mac, states, ?_⟩
  · have fits : ¬ size < (b ++ r).length + k.hashsize := by
      rw [List.length_append]
      omega
    simp only [sealPacket, mode, enc, if_neg fits]
  · constructor
    · rw [h.blocksize, total]
      omega
    · rw [h.blocksize, size_b]
    · rfl
    · have taken : (x ++ y ++ makeMac k seq (b ++ r)).take k'.blocksize = x := by
        rw [h.blocksize, List.append_assoc, List.take_left' (by omega)]
      refine ⟨b.length + r.length, ?_, by rw [h.blocksize]; omega, by rwa [h.blocksize]⟩
      rw [taken, total, ← h.hashsize]
      exact packetLength_plain mode' seq dec₁ length (by omega) (by rw [h.hashsize]; omega)
    · intro size large
      have behind : (x ++ y ++ makeMac k seq (b ++ r)).drop k'.blocksize =
          y ++ makeMac k seq (b ++ r) := by
        rw [h.blocksize, List.append_assoc, List.drop_left' (by omega)]
      rw [behind, total, ← h.hashsize]
      exact openPacket_plain (k := { k' with cipherState := t₁ }) mode' size
        (size_b.trans h.blocksize.symm) dec₂ size_y same (mac.trans h.hashsize.symm)
        (by dsimp only; rw [h.hashsize]; omega)

/-- With a tag: the length is known before anything is decrypted. -/
theorem Paired.sealed_aead (h : Paired R Z k k')
    {aeadGetlength : Nat → Bytes → σ → Option Nat}
    {aeadCrypt : Nat → Bytes → Nat → Direction → σ → Option (Bytes × σ)}
    (mode : k.mode = .aead aeadGetlength aeadCrypt) (seq : Nat) {size : Nat} {clear : Bytes}
    (c : Clear k clear) (room : clear.length + k.hashsize ≤ size) :
    ∃ packet data tail s t kb,
      sealPacket k seq size clear = .ok (packet, { k with cipherState := s }) ∧
      packet.length = clear.length + k.hashsize ∧ tail.length = k.hashsize ∧ R s t ∧
      Opens k' seq packet data (clear ++ tail) kb { k' with cipherState := t } := by
  have law := h.lawful
  rw [mode] at law
  have mode' : k'.mode = .aead aeadGetlength aeadCrypt := h.mode.trans mode
  have blocks : (clear.length - 4) % k.blocksize = 0 := by
    have := c.aligned
    rwa [KeyContext.aligned, mode] at this
  have block := h.block
  have filled := c.filled
  have bounded := c.bounded
  have hash := h.hash
  have whole : k.blocksize ≤ clear.length - 4 :=
    Nat.le_of_dvd (by omega) (Nat.dvd_of_mod_eq_zero blocks)
  obtain ⟨x, tag, s, t, enc, size_x, size_tag, length, dec, states⟩ :=
    law _ _ h.cipherState seq clear (by omega)
  have total : (x ++ tag).length = clear.length + k.hashsize := by
    rw [List.length_append, size_x, size_tag]
  refine ⟨x ++ tag, x.take k.blocksize, tag, s, t, k', ?_, total, size_tag, states, ?_⟩
  · have fits : ¬ size < clear.length + k.hashsize := by omega
    simp only [sealPacket, mode, if_neg fits, enc]
  · have taken : (x ++ tag).take k'.blocksize = x.take k.blocksize := by
      rw [h.blocksize, List.take_append_of_le_length (by omega)]
    constructor
    · rw [h.blocksize, total]
      omega
    · rw [h.blocksize, List.length_take_of_le (by omega)]
    · rfl
    · have len : uint (((load32 (clear.take 4) : Nat) : Int) + 4 + k'.hashsize) =
          (x ++ tag).length := by
        rw [c.length, total, h.hashsize]
        unfold uint
        omega
      have plen : uint (load32 (clear.take 4)) = clear.length - 4 := by
        rw [c.length]
        exact uint_of_lt (by omega)
      refine ⟨clear.length - 4, ?_, by rwa [h.blocksize], by rwa [h.blocksize]⟩
      simp only [packetLength, mode', taken, length, len, plen]
    · intro size large
      have len : uint (((x ++ tag).length : Int) - k.hashsize) = clear.length := by
        rw [total]
        unfold uint
        omega
      have fits : ¬ (bufMaxIncr < clear.length ∨ size < clear.length) := by
        unfold bufMaxIncr
        omega
      have back : x.take k.blocksize ++ (x ++ tag).drop k'.blocksize = x ++ tag := by
        rw [← taken, List.take_append_drop]
      have behind : (x ++ tag).drop clear.length = tag := List.drop_left' size_x
      simp only [openPacket, mode', h.hashsize, back, dec, len, if_neg fits, behind]

/-- The receiver makes the payload of a packet. -/
def Gives (k : KeyContext σ ζ) (seq : Nat) (authdone : Bool) (packet payload : Bytes)
    (kn : KeyContext σ ζ) : Prop :=
  packet.length ≤ recvMaxPacketLen ∧ ∃ data clear kb ko, Opens k seq packet data clear kb ko ∧
    packetPayload ko authdone packet.length clear = .ok (payload, kn)

theorem Paired.sealed (h : Paired R Z k k') (seq size : Nat) {clear : Bytes}
    (c : Clear k clear) (room : clear.length + k.hashsize ≤ size) :
    ∃ packet data tail s t kb,
      sealPacket k seq size clear = .ok (packet, { k with cipherState := s }) ∧
      packet.length = clear.length + k.hashsize ∧ tail.length = k.hashsize ∧ R s t ∧
      Opens k' seq packet data (clear ++ tail) kb { k' with cipherState := t } := by
  cases mode : k.mode with
  | plain encrypt decrypt =>
    have := h.sealed_plain mode seq c room
    rwa [mode] at this
  | aead aeadGetlength aeadCrypt =>
    have := h.sealed_aead mode seq c room
    rwa [mode] at this

theorem sealPacket_zstream (k : KeyContext σ ζ) (z : ζ) {seq size : Nat} {clear packet : Bytes}
    {s : σ} (h : sealPacket k seq size clear = .ok (packet, { k with cipherState := s })) :
    sealPacket { k with zstream := z } seq size clear =
      .ok (packet, { k with cipherState := s, zstream := z }) := by
  unfold sealPacket at h ⊢
  cases mode : k.mode with
  | plain encrypt decrypt =>
    simp only [mode] at h ⊢
    cases enc : encrypt clear k.cipherState with
    | none => simp [enc, dropbearExit] at h
    | some r =>
      simp only [enc] at h ⊢
      split at h
      · simp [dropbearExit] at h
      · rename_i fits
        simp only [Except.ok.injEq, Prod.mk.injEq, KeyContext.mk.injEq] at h
        obtain ⟨rfl, -, -, -, -, rfl, -⟩ := h
        rw [if_neg fits]
        rfl
  | aead aeadGetlength aeadCrypt =>
    simp only [mode] at h ⊢
    split at h
    · simp [dropbearExit] at h
    · rename_i fits
      rw [if_neg fits]
      cases enc : aeadCrypt seq clear k.hashsize .encrypt k.cipherState with
      | none => simp [enc, dropbearExit] at h
      | some r =>
        simp only [enc, Except.ok.injEq, Prod.mk.injEq, KeyContext.mk.injEq] at h ⊢
        obtain ⟨rfl, -, -, -, -, rfl, -⟩ := h
        simp

/-- A payload becomes a packet, and the packet the payload, with keys that belong together
before and after. -/
theorem Paired.framed (h : Paired R Z k k') (seq : Nat) (authdone : Bool) (random : Nat → UInt8)
    {payload : Bytes} (some : 0 < payload.length) (fits : payload.length ≤ transMaxPayloadLen) :
    ∃ clear packet padlen kn kn',
      framePacket k seq authdone random payload = .ok (clear, packet, padlen, kn) ∧
      Gives k' seq authdone packet payload kn' ∧ Paired R Z kn kn' := by
  obtain ⟨content, z, z', packed, filled, bounded, back, zstates⟩ := h.content authdone some fits
  have low := h.block.1
  have high := h.block.2
  have hash := h.hash
  have longest : zlibCompressExpansion = 51 := rfl
  have largest : transMaxPayloadLen = 16384 := rfl
  have most : recvMaxPacketLen = 131172 := rfl
  have least : minPacketLen = 16 := rfl
  have size : encryptBufSize k payload.length = payload.length + 4 + 1 + max 16 k.blocksize + 3 +
      k.hashsize + 51 + 1 := rfl
  -- the padding
  generalize padded : padding k (5 + content.length) = padlen
  have pads : padlen ≤ k.blocksize + 3 ∨ 5 + content.length + 4 < 16 ∧ padlen ≤ 48 :=
    padded ▸ padding_le k low high
  have blocks : k.aligned (5 + content.length + padlen) % k.blocksize = 0 :=
    padded ▸ aligned_padding k low high (by omega)
  have enough : 16 ≤ 5 + content.length + padlen := by
    obtain ⟨_, -, -, -, enough⟩ := padding_blocks k (5 + content.length) low high
    exact padded ▸ enough (by omega)
  have room : ¬ encryptBufSize k payload.length < 5 + content.length + padlen := by omega
  -- the clear packet
  generalize padding_eq : (List.range padlen).map random = pad
  have length_pad : pad.length = padlen := by rw [← padding_eq]; simp
  have length_clear := length_clearPacket content pad
  have clear : Clear k (clearPacket content pad) := by
    constructor
    · omega
    · omega
    · rw [load32_clearPacket (by omega), length_clear]
      omega
    · rwa [length_clear, length_pad]
  obtain ⟨packet, data, tail, s, t, kb, sealing, length, length_tail, states, opens⟩ :=
    h.sealed seq (encryptBufSize k payload.length) clear (by omega)
  refine ⟨clearPacket content pad, packet, padlen, { k with cipherState := s, zstream := z },
    { k' with cipherState := t, zstream := z' }, ?_, ⟨by omega, data, _, kb, _, opens, ?_⟩, ?_⟩
  · have same : padding { k with zstream := z } (5 + content.length) = padlen := padded
    simp only [framePacket, packed, bind, Except.bind, same, if_neg room, padding_eq,
      sealPacket_zstream k z sealing, pure, Except.pure]
  · rw [length, length_clear, ← length_tail]
    exact (packetPayload_clear (k := { k' with cipherState := t }) authdone filled
      (by unfold recvMaxPayloadLen; omega) (by omega) (length_tail.trans h.hashsize.symm)).trans
      (back t)
  · exact (h.next states).flated zstates

end

end Ikofi.Packet
