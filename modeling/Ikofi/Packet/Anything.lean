import Mathlib.Logic.Relation
import Ikofi.Lib.Runs
import Ikofi.Packet.Reading

/-!
# Whatever arrives

A receiver may be given any bytes. The buffer that it reads into stays within a
bound, its arithmetic does not wrap around where a length matters, and a packet is
taken only after its tag or its hash has been checked. What comes out of it depends
on the clear packet and on the compression alone.
-/

namespace Ikofi.Packet

open Wire Runs

variable {σ ζ : Type}

/-- A cipher works in place: its output is as long as its input, without the tag. -/
def CipherMode.InPlace (m : CipherMode σ) : Prop :=
  match m with
  | .plain _ decrypt => ∀ b s c t, decrypt b s = some (c, t) → c.length = b.length
  | .aead _ aeadCrypt => ∀ seq b taglen s c t, aeadCrypt seq b taglen .decrypt s = some (c, t) →
      c.length + taglen = b.length

/-- The algorithms that the receiver has negotiated: blocks of 8 or 16 bytes. -/
structure Negotiated (k : KeyContext σ ζ) : Prop where
  block : 8 ≤ k.blocksize ∧ k.blocksize ≤ 16
  hash : k.hashsize ≤ 64
  inPlace : k.mode.InPlace

/-- The states that a cipher comes to while it decrypts. -/
def CipherMode.Decrypts (m : CipherMode σ) : σ → σ → Prop :=
  Relation.ReflTransGen fun s s' => match m with
    | .plain _ decrypt => ∃ b c, decrypt b s = some (c, s')
    | .aead _ aeadCrypt => ∃ seq b taglen c, aeadCrypt seq b taglen .decrypt s = some (c, s')

/-- Keys whose cipher has decrypted since. -/
def Decrypted (k k' : KeyContext σ ζ) : Prop :=
  ∃ c, k.mode.Decrypts k.cipherState c ∧ k' = { k with cipherState := c }

/-- A packet in the read buffer is good: its last bytes are the hash of the clear packet, or the
cipher finds its tag right. -/
def Checked (k : KeyContext σ ζ) (seq : Nat) (arrived clear : Bytes) : Prop :=
  match k.mode with
  | .plain _ _ => arrived.drop (arrived.length - k.hashsize) = makeMac k seq clear
  | .aead _ aeadCrypt => ∃ c c', k.mode.Decrypts k.cipherState c ∧
      aeadCrypt seq arrived k.hashsize .decrypt c = some (clear, c')

/-- The buffer holds no more than its length says, its length is bounded, and what of it is
known is at least a block. -/
structure Readbuf.Bounded (buf : Readbuf) (blocksize : Nat) : Prop where
  filled : buf.data.length ≤ buf.len
  len : buf.len ≤ recvMaxPacketLen
  size : buf.len ≤ buf.size ∧ initReadbuf ≤ buf.size ∧ buf.size ≤ recvMaxPacketLen
  short : buf.len < blocksize → buf.data.length = buf.len
  block : blocksize ≤ buf.len → blocksize ≤ buf.data.length

section
variable {k k' : KeyContext σ ζ} {s s' : Recv σ ζ} {seq : Nat} {buf : Readbuf}

theorem packetLength_ok (good : Negotiated k) {block data : Bytes} {kb : KeyContext σ ζ}
    {len plen : Nat} (h : packetLength k seq block = .ok (data, kb, len, plen)) :
    data.length = block.length ∧ Decrypted k kb := by
  have inPlace := good.inPlace
  unfold packetLength at h
  cases mode : k.mode with
  | plain encrypt decrypt =>
    rw [mode] at inPlace
    simp only [mode] at h
    cases dec : decrypt block k.cipherState with
    | none => simp [dec, dropbearExit] at h
    | some r =>
      simp only [dec, Except.ok.injEq, Prod.mk.injEq] at h
      obtain ⟨rfl, rfl, -⟩ := h
      exact ⟨inPlace _ _ _ _ dec, r.2, .single (by rw [mode]; exact ⟨_, _, dec⟩), by rw [mode]⟩
  | aead aeadGetlength aeadCrypt =>
    simp only [mode] at h
    cases length : aeadGetlength seq block k.cipherState with
    | none => simp [length, dropbearExit] at h
    | some plen =>
      simp only [length, Except.ok.injEq, Prod.mk.injEq] at h
      obtain ⟨rfl, rfl, -⟩ := h
      exact ⟨rfl, k.cipherState, .refl, rfl⟩

theorem beginPacket_ok (good : Negotiated s.keys) {block : Bytes} {size : Nat}
    (h : beginPacket s block size = .ok s') (full : block.length = s.keys.blocksize)
    (room : initReadbuf ≤ size) (small : size ≤ recvMaxPacketLen) :
    ∃ k buf, Decrypted s.keys k ∧ s' = { s with keys := k, readbuf := some buf } ∧
      buf.Bounded s.keys.blocksize ∧ s.keys.blocksize ≤ buf.len := by
  obtain ⟨⟨data, kb, len, plen⟩, length, h⟩ := bind_ok.mp h
  obtain ⟨size_data, same⟩ := packetLength_ok good length
  dsimp only at h
  split at h
  · cases h
  · rename_i checked
    split at h
    · cases h
    · rename_i long
      cases h
      refine ⟨kb, _, same, rfl, ?_, Nat.not_lt.mp long⟩
      constructor
      · dsimp only
        omega
      · dsimp only
        omega
      · dsimp only
        omega
      · dsimp only
        omega
      · intro _
        exact Nat.le_of_eq (size_data.trans full).symm

/-- What comes of opening a packet. -/
structure Reveals (k : KeyContext σ ζ) (seq : Nat) (buf : Readbuf) (data : Bytes)
    (ko : KeyContext σ ζ) : Prop where
  length : data.length = buf.len
  tag : k.hashsize ≤ buf.len
  keys : Decrypted k ko
  checked : Checked k seq buf.data (data.take (buf.len - k.hashsize))

theorem uint_sub {n m : Nat} (le : m ≤ n) (small : n < 0x100000000) :
    uint ((n : Int) - m) = n - m := by
  unfold uint
  omega

theorem openPacket_plain_ok {encrypt decrypt : Bytes → σ → Option (Bytes × σ)}
    (mode : k.mode = .plain encrypt decrypt) (good : Negotiated k)
    (bounded : buf.Bounded k.blocksize) (complete : buf.data.length = buf.len) {data : Bytes}
    {ko : KeyContext σ ζ} (h : openPacket k seq buf = .ok (data, ko)) :
    Reveals k seq buf data ko := by
  have inPlace := good.inPlace
  have block := good.block
  have hash := good.hash
  have len := bounded.len
  have most : recvMaxPacketLen = 131172 := rfl
  rw [mode] at inPlace
  simp only [openPacket, mode] at h
  obtain ⟨piece, ptr, h⟩ := bind_ok.mp h
  unfold bufGetPtr at ptr
  split at ptr
  · cases ptr
  rename_i fits
  cases ptr
  cases dec : decrypt ((buf.data.drop k.blocksize).take
      (uint (buf.len - k.hashsize - k.blocksize))) k.cipherState with
  | none => simp [dec, dropbearExit] at h
  | some r =>
    simp only [dec] at h
    have size := inPlace _ _ _ _ dec
    rw [List.length_take, List.length_drop] at size
    rw [List.length_drop] at fits
    split at h
    · cases h
    rename_i right
    simp only [Except.ok.injEq, Prod.mk.injEq] at h
    obtain ⟨rfl, rfl⟩ := h
    have above : k.hashsize + k.blocksize ≤ buf.len := by
      unfold uint bufMaxIncr at fits
      omega
    have rest : uint (buf.len - k.hashsize - k.blocksize) =
        buf.len - k.hashsize - k.blocksize := by
      unfold uint
      omega
    have joined : k.blocksize + (buf.len - k.hashsize - k.blocksize) = buf.len - k.hashsize := by
      omega
    rw [rest] at size right ⊢
    rw [uint_sub (by omega) (by omega)] at right
    rw [joined] at right ⊢
    -- the clear packet is what stands before the hash
    have clear : (buf.data.take k.blocksize ++ r.1).length = buf.len - k.hashsize := by
      rw [List.length_append, List.length_take]
      omega
    have whole : (buf.data.drop (buf.len - k.hashsize)).take k.hashsize =
        buf.data.drop (buf.len - k.hashsize) := by
      apply List.take_of_length_le
      rw [List.length_drop]
      omega
    rw [List.take_left' clear, List.drop_left' clear, whole, Decidable.not_not] at right
    constructor
    · rw [List.length_append, clear, List.length_drop]
      omega
    · omega
    · exact ⟨r.2, .single (by rw [mode]; exact ⟨_, _, dec⟩), by rw [mode]⟩
    · simp only [Checked, mode]
      rw [List.take_left' clear, complete]
      exact right.symm

theorem openPacket_aead_ok {aeadGetlength : Nat → Bytes → σ → Option Nat}
    {aeadCrypt : Nat → Bytes → Nat → Direction → σ → Option (Bytes × σ)}
    (mode : k.mode = .aead aeadGetlength aeadCrypt) (good : Negotiated k)
    (bounded : buf.Bounded k.blocksize) (complete : buf.data.length = buf.len) {data : Bytes}
    {ko : KeyContext σ ζ} (h : openPacket k seq buf = .ok (data, ko)) :
    Reveals k seq buf data ko := by
  have inPlace := good.inPlace
  have hash := good.hash
  have len := bounded.len
  have most : recvMaxPacketLen = 131172 := rfl
  rw [mode] at inPlace
  simp only [openPacket, mode] at h
  split at h
  · cases h
  rename_i fits
  have above : k.hashsize ≤ buf.len := by
    unfold uint bufMaxIncr at fits
    omega
  cases dec : aeadCrypt seq buf.data k.hashsize .decrypt k.cipherState with
  | none => simp [dec, dropbearExit] at h
  | some r =>
    simp only [dec, Except.ok.injEq, Prod.mk.injEq] at h
    obtain ⟨rfl, rfl⟩ := h
    have size := inPlace _ _ _ _ _ _ dec
    constructor
    · rw [uint_sub above (by omega), List.length_append, List.length_drop]
      omega
    · exact above
    · exact ⟨r.2, .single (by rw [mode]; exact ⟨_, _, _, _, dec⟩), by rw [mode]⟩
    · simp only [Checked, mode]
      rw [List.take_left' (by omega)]
      exact ⟨k.cipherState, r.2, .refl, dec⟩

theorem openPacket_ok (good : Negotiated k) (bounded : buf.Bounded k.blocksize)
    (complete : buf.data.length = buf.len) {data : Bytes} {ko : KeyContext σ ζ}
    (h : openPacket k seq buf = .ok (data, ko)) : Reveals k seq buf data ko := by
  cases mode : k.mode with
  | plain encrypt decrypt => exact openPacket_plain_ok mode good bounded complete h
  | aead aeadGetlength aeadCrypt => exact openPacket_aead_ok mode good bounded complete h

/-- The content of a clear packet, as its padding length says. -/
def contentOf (clear : Bytes) : Bytes :=
  match clear.drop 4 with
  | [] => []
  | padlen :: rest => rest.take (clear.length - padlen.toNat - 5)

/-- The payload that a content stands for, and the state of the decompression behind it. -/
def Inflates (k : KeyContext σ ζ) (authdone : Bool) (z : ζ) (content payload : Bytes) (z' : ζ) :
    Prop :=
  if isCompress k authdone then k.flate content (recvMaxPayloadLen + 1) z = some (payload, 0, z')
  else payload = content ∧ z' = z

/-- What comes out of a packet comes from its content, whatever the tag behind it. -/
theorem packetPayload_ok {authdone : Bool} {data payload : Bytes} {kn : KeyContext σ ζ} {len : Nat}
    (h : packetPayload k authdone len data = .ok (payload, kn)) (length : data.length = len)
    (tag : k.hashsize ≤ len) (bounded : len ≤ recvMaxPacketLen) (hash : k.hashsize ≤ 64) :
    ∃ z, kn = { k with zstream := z } ∧
      Inflates k authdone k.zstream (contentOf (data.take (len - k.hashsize))) payload z ∧
      payload.length ≤ recvMaxPayloadLen + zlibCompressExpansion := by
  have most : recvMaxPacketLen = 131172 := rfl
  have largest : recvMaxPayloadLen + zlibCompressExpansion = 131123 := rfl
  obtain ⟨⟨padlen, rest⟩, byte, h⟩ := bind_ok.mp h
  cases behind : data.drop 4 with
  | nil =>
    rw [behind] at byte
    cases byte
  | cons b tail =>
    rw [behind] at byte
    cases byte
    dsimp only at h
    have small := padlen.toNat_lt
    have long : data.length - 4 = rest.length + 1 := by
      rw [← List.length_drop, behind, List.length_cons]
    split at h
    · cases h
    · rename_i fits
      have size : uint ((len : Int) - padlen.toNat - 4 - 1 - k.hashsize) =
          len - k.hashsize - padlen.toNat - 5 := by
        unfold uint at fits ⊢
        omega
      have inside : 5 + padlen.toNat < len - k.hashsize := by
        unfold uint at fits
        omega
      have content : contentOf (data.take (len - k.hashsize)) =
          rest.take (len - k.hashsize - padlen.toNat - 5) := by
        have clear : (data.take (len - k.hashsize)).drop 4 =
            padlen :: rest.take (len - k.hashsize - 5) := by
          have less : len - k.hashsize - 4 = (len - k.hashsize - 5) + 1 := by omega
          rw [List.drop_take, behind, less,
            List.take_succ_cons]
        have short : (data.take (len - k.hashsize)).length = len - k.hashsize :=
          List.length_take_of_le (by omega)
        simp only [contentOf, clear, short]
        rw [List.take_take, Nat.min_eq_left (by omega)]
      rw [size] at h fits
      have below : (rest.take (len - k.hashsize - padlen.toNat - 5)).length ≤ 131123 := by
        rw [List.length_take]
        omega
      rw [content]
      by_cases compressed : isCompress k authdone = true
      · simp only [Inflates, compressed, if_true] at h ⊢
        unfold bufDecompress at h
        split at h
        · cases h
        · rename_i out left z inflated
          split at h
          · cases h
          · rename_i taken
            cases h
            have all : left = 0 := by omega
            rw [inflated, all]
            exact ⟨z, rfl, rfl, by omega⟩
      · simp only [Inflates, compressed, if_false, Bool.false_eq_true] at h ⊢
        cases h
        exact ⟨k.zstream, rfl, ⟨rfl, rfl⟩, by omega⟩

end

/-! ### The receiver -/

/-- The same keys, after some packets. -/
def Used (k k' : KeyContext σ ζ) : Prop :=
  ∃ c z, k.mode.Decrypts k.cipherState c ∧ k' = { k with cipherState := c, zstream := z }

theorem Used.refl (k : KeyContext σ ζ) : Used k k := ⟨k.cipherState, k.zstream, .refl, rfl⟩

theorem Used.decrypted {k k' kn : KeyContext σ ζ} (h : Used k k') (again : Decrypted k' kn) :
    Used k kn ∧ kn.zstream = k'.zstream := by
  obtain ⟨c, z, came, rfl⟩ := h
  obtain ⟨c', went, rfl⟩ := again
  exact ⟨⟨c', z, came.trans went, rfl⟩, rfl⟩

theorem Used.negotiated {k k' : KeyContext σ ζ} (h : Used k k') (good : Negotiated k) :
    Negotiated k' := by
  obtain ⟨c, z, _, rfl⟩ := h
  exact ⟨good.block, good.hash, good.inPlace⟩

theorem Used.checked {k k' : KeyContext σ ζ} (h : Used k k') {seq : Nat} {arrived clear : Bytes}
    (good : Checked k' seq arrived clear) : Checked k seq arrived clear := by
  obtain ⟨c, z, came, rfl⟩ := h
  unfold Checked at good ⊢
  cases mode : k.mode with
  | plain encrypt decrypt =>
    simp only [mode] at good ⊢
    exact good
  | aead aeadGetlength aeadCrypt =>
    simp only [mode] at good came ⊢
    obtain ⟨c₁, c₂, went, opened⟩ := good
    exact ⟨c₁, c₂, came.trans went, opened⟩

/-- What holds of a receiver whatever it is given. -/
structure Recv.Bounded (k : KeyContext σ ζ) (s : Recv σ ζ) : Prop where
  keys : Used k s.keys
  readbuf : ∀ buf, s.readbuf = some buf → buf.Bounded k.blocksize
  payload : ∀ payload, s.payload = some payload →
    payload.length ≤ recvMaxPayloadLen + zlibCompressExpansion

/-- No packet has been taken. -/
structure Waits (s s' : Recv σ ζ) : Prop where
  recvseq : s'.recvseq = s.recvseq
  authdone : s'.authdone = s.authdone
  payload : s'.payload = s.payload
  taken : s'.taken = s.taken
  arrived : s'.arrived = s.arrived
  zstream : s'.keys.zstream = s.keys.zstream

/-- A packet has been taken: it has been found good, and the payload is that of its content. -/
structure Takes (k : KeyContext σ ζ) (s s' : Recv σ ζ) (clear made : Bytes) : Prop where
  recvseq : s'.recvseq = uint (s.recvseq + 1)
  authdone : s'.authdone = s.authdone
  payload : s'.payload = some made
  taken : s'.taken = s.taken ++ [(s.recvseq, clear)]
  checked : ∃ packet, s'.arrived = s.arrived ++ [packet] ∧ Checked k s.recvseq packet clear
  inflates : Inflates k s.authdone s.keys.zstream (contentOf clear) made s'.keys.zstream

section
variable {k : KeyContext σ ζ} {s s' : Recv σ ζ} {buf : Readbuf}

theorem decryptPacket_ok (good : Negotiated k) (keys : Used k s.keys)
    (bounded : buf.Bounded k.blocksize) (complete : buf.data.length = buf.len)
    (h : decryptPacket s buf = .ok s') :
    s'.Bounded k ∧ ∃ clear payload, Takes k s s' clear payload := by
  obtain ⟨⟨data, ko⟩, opened, h⟩ := bind_ok.mp h
  obtain ⟨⟨payload, kn⟩, inside, h⟩ := bind_ok.mp h
  cases h
  have used := keys
  obtain ⟨c, z, came, eq⟩ := keys
  rw [eq] at opened used
  obtain ⟨length, tag, ⟨c', went, rfl⟩, checked⟩ := openPacket_ok (used.negotiated good) bounded
    complete opened
  obtain ⟨z', rfl, inflates, short⟩ := packetPayload_ok inside length tag bounded.len good.hash
  refine ⟨⟨⟨c', z', came.trans went, rfl⟩, fun _ none => (by cases none), ?_⟩,
    data.take (buf.len - k.hashsize), payload, ?_⟩
  · intro p some
    cases some
    exact short
  · have size : uint ((buf.len : Int) - s.keys.hashsize) = buf.len - k.hashsize := by
      rw [eq]
      exact uint_sub tag (Nat.lt_of_le_of_lt bounded.len (by decide))
    refine ⟨rfl, rfl, rfl, ?_, ⟨buf.data, rfl, used.checked checked⟩, ?_⟩
    · dsimp only
      rw [size]
    · rw [eq]
      exact inflates

theorem readSome_some {wire : Bytes} {maxlen : Nat} {io : Io} {got rest : Bytes}
    (h : readSome wire maxlen io = .ok (some (got, rest))) : got.length ≤ maxlen := by
  cases io with
  | again | failed | closed => cases h
  | upto n =>
    unfold readSome at h
    dsimp only at h
    split at h
    · cases h
    · cases h
      rw [List.length_take]
      omega

theorem Readbuf.Bounded.grow {blocksize : Nat} (h : buf.Bounded blocksize) {got : Bytes}
    (fits : got.length ≤ buf.len - buf.data.length) :
    Readbuf.Bounded { buf with data := buf.data ++ got } blocksize := by
  have filled := h.filled
  constructor
  · dsimp only
    rw [List.length_append]
    omega
  · exact h.len
  · exact h.size
  · intro short
    have := h.short short
    dsimp only
    rw [List.length_append]
    omega
  · intro block
    have := h.block block
    dsimp only
    rw [List.length_append]
    omega

theorem readRest_bounded (good : Negotiated k) (h : s.Bounded k) (some : s.readbuf = some buf)
    {wire wire' : Bytes} {io : Io} (read : readRest s wire io buf = .ok (s', wire')) :
    s'.Bounded k ∧ (Waits s s' ∨ ∃ clear payload, Takes k s s' clear payload) := by
  have bounded := h.readbuf buf some
  have filled := bounded.filled
  unfold readRest at read
  dsimp only at read
  split at read
  · obtain ⟨_, decrypted, rest⟩ := bind_ok.mp read
    cases rest
    obtain ⟨bounded', taken⟩ := decryptPacket_ok good h.keys bounded (by omega) decrypted
    exact ⟨bounded', .inr taken⟩
  · obtain ⟨got, some', read⟩ := bind_ok.mp read
    cases got with
    | none =>
      cases read
      exact ⟨h, .inl ⟨rfl, rfl, rfl, rfl, rfl, rfl⟩⟩
    | some r =>
      obtain ⟨got, rest⟩ := r
      have fits := readSome_some some'
      have grown := bounded.grow fits
      dsimp only at read
      split at read
      · rename_i whole
        obtain ⟨_, decrypted, rest⟩ := bind_ok.mp read
        cases rest
        obtain ⟨bounded', taken⟩ := decryptPacket_ok good h.keys grown
          (by dsimp only; rw [List.length_append]; omega) decrypted
        exact ⟨bounded', .inr taken⟩
      · cases read
        refine ⟨⟨h.keys, ?_, h.payload⟩, .inl ⟨rfl, rfl, rfl, rfl, rfl, rfl⟩⟩
        intro b eq
        cases eq
        exact grown

/-- What a receiver has after its first block is not there yet, or begins a packet. -/
theorem readPacketInit_bounded (good : Negotiated k) (h : s.Bounded k) (fresh : s.begun = none)
    {wire wire' : Bytes} {io : Io} {ready : Bool}
    (read : readPacketInit s wire io = .ok (s', wire', ready)) :
    s'.Bounded k ∧ Waits s s' := by
  obtain ⟨c, z, -, eq⟩ := h.keys
  have block := good.block
  have same : s.keys.blocksize = k.blocksize := by rw [eq]
  have most : recvMaxPacketLen = 131172 := rfl
  have least : initReadbuf = 128 := rfl
  -- the buffer before the call holds less than a block
  have start : (s.readbuf.getD {}).Bounded k.blocksize ∧ (s.readbuf.getD {}).len < k.blocksize := by
    cases some : s.readbuf with
    | none =>
      refine ⟨⟨Nat.le_refl _, Nat.zero_le _, ⟨Nat.zero_le _, by decide, by decide⟩, fun _ => rfl,
        ?_⟩, ?_⟩
      · intro all
        exact all
      · show 0 < k.blocksize
        omega
    | some buf =>
      refine ⟨h.readbuf buf some, ?_⟩
      have := fresh
      rw [Recv.begun, some, Option.filter_eq_none_iff] at this
      have short := this buf rfl
      rw [decide_eq_true_iff, same] at short
      exact Nat.not_le.mp short
  unfold readPacketInit at read
  generalize s.readbuf.getD {} = buf at start read
  obtain ⟨bounded, below⟩ := start
  have full := bounded.short below
  obtain ⟨got, some, read⟩ := bind_ok.mp read
  cases got with
  | none =>
    cases read
    refine ⟨⟨h.keys, ?_, h.payload⟩, rfl, rfl, rfl, rfl, rfl, rfl⟩
    intro b eq
    cases eq
    exact bounded
  | some r =>
    obtain ⟨got, rest⟩ := r
    have fits := readSome_some some
    dsimp only at read
    split at read
    · cases read
      refine ⟨⟨h.keys, ?_, h.payload⟩, rfl, rfl, rfl, rfl, rfl, rfl⟩
      intro b eq
      cases eq
      have size := bounded.size
      constructor
      · exact Nat.le_refl _
      · dsimp only
        rw [List.length_append]
        omega
      · dsimp only
        rw [List.length_append]
        omega
      · exact fun _ => rfl
      · exact fun all => all
    · rename_i whole
      obtain ⟨_, begun, read⟩ := bind_ok.mp read
      cases read
      obtain ⟨kb, buf', again, rfl, bounded', long⟩ := beginPacket_ok
        (h.keys.negotiated good) begun (by rw [List.length_append]; omega) bounded.size.2.1
        bounded.size.2.2
      obtain ⟨used, zstream⟩ := h.keys.decrypted again
      rw [same] at bounded'
      refine ⟨⟨used, ?_, h.payload⟩, rfl, rfl, rfl, rfl, rfl, zstream⟩
      intro b eq
      cases eq
      exact bounded'

theorem Takes.after {s₁ : Recv σ ζ} {clear made : Bytes} (first : Waits s s₁)
    (h : Takes k s₁ s' clear made) : Takes k s s' clear made where
  recvseq := h.recvseq.trans (by rw [first.recvseq])
  authdone := h.authdone.trans first.authdone
  payload := h.payload
  taken := h.taken.trans (by rw [first.taken, first.recvseq])
  checked := by
    have := h.checked
    rwa [first.arrived, first.recvseq] at this
  inflates := by
    have := h.inflates
    rwa [first.authdone, first.zstream] at this

theorem Waits.trans {s₁ : Recv σ ζ} (first : Waits s s₁) (h : Waits s₁ s') : Waits s s' where
  recvseq := h.recvseq.trans first.recvseq
  authdone := h.authdone.trans first.authdone
  payload := h.payload.trans first.payload
  taken := h.taken.trans first.taken
  arrived := h.arrived.trans first.arrived
  zstream := h.zstream.trans first.zstream

/-- A call of `read_packet`, whatever it reads, takes at most one packet. -/
theorem readPacket_bounded (good : Negotiated k) (h : s.Bounded k) {wire wire' : Bytes}
    {first second : Io} (read : readPacket s wire first second = .ok (s', wire')) :
    s'.Bounded k ∧ (Waits s s' ∨ ∃ clear made, Takes k s s' clear made) := by
  cases begun : s.begun with
  | some buf =>
    simp only [readPacket, begun] at read
    have some : s.readbuf = some buf := by
      rw [Recv.begun, Option.filter_eq_some_iff] at begun
      exact begun.1
    exact readRest_bounded good h some read
  | none =>
    simp only [readPacket, begun] at read
    obtain ⟨⟨s₁, wire₁, ready⟩, init, read⟩ := bind_ok.mp read
    obtain ⟨bounded, waits⟩ := readPacketInit_bounded good h begun init
    cases some : s₁.readbuf with
    | none =>
      simp only [some] at read
      cases read
      exact ⟨bounded, .inl waits⟩
    | some buf =>
      cases ready with
      | false =>
        simp only [some] at read
        cases read
        exact ⟨bounded, .inl waits⟩
      | true =>
        simp only [some] at read
        obtain ⟨bounded', next⟩ := readRest_bounded good bounded some read
        rcases next with waits' | ⟨clear, made, takes⟩
        · exact ⟨bounded', .inl (waits.trans waits')⟩
        · exact ⟨bounded', .inr ⟨clear, made, takes.after waits⟩⟩

end

/-! ### Runs on any bytes -/

/-- Payloads after which the receiver is another one: with new keys, or with a user who is logged
in. -/
def changes (payload : Bytes) : Bool :=
  payload.head? == some sshMsgNewkeys || payload.head? == some sshMsgUserauthSuccess

/-- A receiver and what it has handed on. -/
structure Sink (σ ζ : Type) where
  recv : Recv σ ζ
  delivered : List Bytes := []

/-- A read finds any bytes in the socket. -/
inductive Receiving
  | read (wire : Bytes) (first second : Io)
  | take
  deriving DecidableEq

def Sink.step (s : Sink σ ζ) : Receiving → Option (Sink σ ζ)
  | .read wire first second =>
    (readPacket s.recv wire first second).toOption.map fun (recv, _) => { s with recv }
  | .take =>
    s.recv.payload.map fun payload =>
      { recv := { s.recv with payload := none }, delivered := s.delivered ++ [payload] }

/-- The session's loop reads when no payload waits. The run ends with a payload that changes the
keys. -/
def Sink.Possible (s : Sink σ ζ) : Receiving → Prop
  | .read _ _ _ => s.recv.payload = none
  | .take => ∀ payload ∈ s.recv.payload, changes payload = false

/-- All that has come out of packets so far. -/
def Sink.got (s : Sink σ ζ) : List Bytes := s.delivered ++ s.recv.payload.toList

section
variable {k : KeyContext σ ζ} {s s' : Sink σ ζ}

def Sink.Bounded (k : KeyContext σ ζ) (s : Sink σ ζ) : Prop :=
  s.recv.Bounded k ∧ ∀ payload ∈ s.delivered,
    payload.length ≤ recvMaxPayloadLen + zlibCompressExpansion

theorem Sink.Bounded.step (good : Negotiated k) (h : s.Bounded k) {ev : Receiving}
    (step : s.step ev = some s') : s'.Bounded k := by
  obtain ⟨recv, delivered⟩ := h
  cases ev with
  | read wire first second =>
    obtain ⟨⟨r, wire'⟩, read, rfl⟩ := Option.map_eq_some_iff.mp step
    exact ⟨(readPacket_bounded good recv (ok_of_toOption read)).1, delivered⟩
  | take =>
    obtain ⟨payload, some, rfl⟩ := Option.map_eq_some_iff.mp step
    refine ⟨⟨recv.keys, recv.readbuf, fun _ none => by cases none⟩, ?_⟩
    intro q mem
    rcases List.mem_append.mp mem with mem | mem
    · exact delivered q mem
    · rw [List.mem_singleton.mp mem]
      exact recv.payload payload some

/-- Whatever arrives, the read buffer is not left and does not grow beyond the longest packet,
and no payload is longer than a packet can be. -/
theorem any_bytes_bounded (good : Negotiated k) {n : Nat} {authdone : Bool} {evs : List Receiving}
    (run : Run Sink.step Sink.Possible { recv := { keys := k, recvseq := n, authdone } } evs s) :
    (∀ buf, s.recv.readbuf = some buf → buf.data.length ≤ buf.len ∧ buf.len ≤ buf.size ∧
      buf.size ≤ recvMaxPacketLen) ∧
    ∀ payload ∈ s.got, payload.length ≤ recvMaxPayloadLen + zlibCompressExpansion := by
  have bounded : s.Bounded k := by
    apply run.invariant (I := fun s => s.Bounded k)
    · refine ⟨⟨.refl k, ?_, ?_⟩, ?_⟩
      · intro buf none
        cases none
      · intro payload none
        cases none
      · intro payload mem
        cases mem
    · intro s ev s' h _ step
      exact h.step good step
  constructor
  · intro buf some
    have b := bounded.1.readbuf buf some
    exact ⟨b.filled, b.size.1, b.size.2.2⟩
  · intro payload mem
    rcases List.mem_append.mp mem with mem | mem
    · exact bounded.2 payload mem
    · exact bounded.1.payload payload (Option.mem_toList.mp mem)

theorem noneKeys_negotiated : Negotiated noneKeys where
  block := by decide
  hash := by decide
  inPlace := fun b s c t eq => by
    cases eq
    rfl

/-- A packet whose length says 2 bytes more than there are. -/
def cutShort : List Receiving :=
  [.read [0, 0, 0, 12, 8, 5, 1, 2, 0, 0, 0, 0, 0, 0] (.upto 20) (.upto 20)]

instance Sink.decidablePossible (s : Sink σ ζ) (ev : Receiving) : Decidable (s.Possible ev) := by
  cases ev <;> unfold Sink.Possible <;> infer_instance

theorem any_bytes_bounded_cut : ∃ s : Sink Unit Unit,
    s.recv.readbuf = some ⟨[0, 0, 0, 12, 8, 5, 1, 2, 0, 0, 0, 0, 0, 0], 16, 128⟩ ∧
    (∀ buf, s.recv.readbuf = some buf → buf.data.length ≤ buf.len ∧ buf.len ≤ buf.size ∧
      buf.size ≤ recvMaxPacketLen) ∧
    ∀ payload ∈ s.got, payload.length ≤ recvMaxPayloadLen + zlibCompressExpansion := by
  obtain ⟨s, eq⟩ : ∃ s, cutShort.foldlM (guarded Sink.step Sink.Possible)
      ({ recv := { keys := noneKeys, recvseq := 0, authdone := false } } : Sink Unit Unit) =
        some s :=
    Option.isSome_iff_exists.mp (by decide)
  have readbuf : (cutShort.foldlM (guarded Sink.step Sink.Possible)
      ({ recv := { keys := noneKeys, recvseq := 0, authdone := false } } : Sink Unit Unit)).map
        (·.recv.readbuf) = some (some ⟨[0, 0, 0, 12, 8, 5, 1, 2, 0, 0, 0, 0, 0, 0], 16, 128⟩) := by
    decide
  rw [eq] at readbuf
  exact ⟨s, Option.some.inj readbuf, any_bytes_bounded noneKeys_negotiated (run_of_foldlM eq)⟩

end

end Ikofi.Packet
