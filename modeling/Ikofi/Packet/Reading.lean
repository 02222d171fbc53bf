import Ikofi.Packet.Framing

/-!
# Reading a packet piece by piece

What the socket gives may end anywhere in a packet. Up to the end of the first
block the bytes are kept as they came, behind it the length is known. However the
packet is cut, the receiver comes to the same payload, and it takes no byte of the
packet behind it.
-/

namespace Ikofi.Packet

open Wire

variable {σ ζ : Type}

/-- The call neither fails nor finds the end. -/
def Io.good : Io → Bool
  | .again | .upto _ => true
  | .failed _ | .closed => false

theorem readSome_good {io : Io} (h : io.good) (wire : Bytes) (maxlen : Nat) :
    readSome wire maxlen io = .ok none ∨ ∃ n, 0 < n ∧ n ≤ maxlen ∧ n ≤ wire.length ∧
      readSome wire maxlen io = .ok (some (wire.take n, wire.drop n)) := by
  cases io with
  | again => exact .inl rfl
  | failed | closed => cases h
  | upto n =>
    by_cases nothing : (wire.take (min n maxlen)).isEmpty = true
    · exact .inl (if_pos nothing)
    · have length : (wire.take (min n maxlen)).length = min (min n maxlen) wire.length :=
        List.length_take
      have some : 0 < (wire.take (min n maxlen)).length := by
        rw [List.isEmpty_iff, ← List.length_eq_zero_iff] at nothing
        omega
      have same : wire.take (min n maxlen) = wire.take (wire.take (min n maxlen)).length := by
        rw [length, List.take_eq_take_iff]
        omega
      refine .inr ⟨_, some, by omega, by omega, ?_⟩
      exact (if_neg nothing).trans (by rw [← same])

/-- The keys before the packet, and its bytes so far, not a block yet. -/
structure Start (k : KeyContext σ ζ) (s : Recv σ ζ) (sofar : Bytes) : Prop where
  keys : s.keys = k
  short : sofar.length < k.blocksize
  buf : s.readbuf = some ⟨sofar, sofar.length, initReadbuf⟩ ∨ sofar = [] ∧ s.readbuf = none

/-- The receiver knows the length of the packet that its bytes so far belong to. -/
structure Body (k : KeyContext σ ζ) (s : Recv σ ζ) (packet payload : Bytes)
    (kn : KeyContext σ ζ) (sofar : Bytes) (buf : Readbuf) : Prop where
  opens : ∃ data clear ko, Opens k s.recvseq packet data clear s.keys ko ∧
    packetPayload ko s.authdone packet.length clear = .ok (payload, kn) ∧
    buf.data = data ++ sofar.drop k.blocksize
  len : buf.len = packet.length
  size : packet.length ≤ buf.size
  readbuf : s.readbuf = some buf
  long : k.blocksize ≤ sofar.length
  inside : sofar <+: packet

/-- The payload has been taken out of its packet. -/
structure Done (s s' : Recv σ ζ) (payload : Bytes) (kn : KeyContext σ ζ) : Prop where
  keys : s'.keys = kn
  recvseq : s'.recvseq = uint (s.recvseq + 1)
  authdone : s'.authdone = s.authdone
  readbuf : s'.readbuf = none
  payload : s'.payload = some payload

/-- Reading leaves these as they are as long as no packet is complete. -/
structure SameHead (s s' : Recv σ ζ) : Prop where
  recvseq : s'.recvseq = s.recvseq
  authdone : s'.authdone = s.authdone
  payload : s'.payload = s.payload

section
variable {k kn : KeyContext σ ζ} {s : Recv σ ζ} {packet payload sofar : Bytes} {buf : Readbuf}

theorem Body.length (h : Body k s packet payload kn sofar buf) :
    buf.data.length = sofar.length := by
  obtain ⟨data, clear, ko, opens, -, eq⟩ := h.opens
  rw [eq, List.length_append, opens.start, List.length_drop]
  have := h.long
  omega

theorem Body.grow (h : Body k s packet payload kn sofar buf) {got : Bytes}
    (inside : sofar ++ got <+: packet) :
    Body k { s with readbuf := some { buf with data := buf.data ++ got } } packet payload kn
      (sofar ++ got) { buf with data := buf.data ++ got } := by
  obtain ⟨data, clear, ko, opens, given, eq⟩ := h.opens
  constructor
  · refine ⟨data, clear, ko, opens, given, ?_⟩
    rw [List.drop_append_of_le_length h.long, ← List.append_assoc, ← eq]
  · exact h.len
  · exact h.size
  · rfl
  · rw [List.length_append]
    exact Nat.le_trans h.long (Nat.le_add_right _ _)
  · exact inside

/-- Once the packet is complete it is decrypted to its payload. -/
theorem Body.decrypt (h : Body k s packet payload kn sofar buf) (complete : sofar = packet)
    (s₀ : Recv σ ζ) (keys : s₀.keys = s.keys) (same : SameHead s s₀) :
    ∃ s', decryptPacket s₀ buf = .ok s' ∧ Done s s' payload kn := by
  obtain ⟨data, clear, ko, opens, given, eq⟩ := h.opens
  have whole : buf = ⟨data ++ packet.drop k.blocksize, packet.length, buf.size⟩ := by
    rw [← complete, ← eq, complete, ← h.len]
  have decrypted : decryptPacket s₀ buf = .ok { s₀ with
      keys := kn
      recvseq := uint (s₀.recvseq + 1)
      readbuf := none
      payload := some payload
      datarecv := s₀.datarecv + buf.len
      taken := s₀.taken ++ [(s₀.recvseq, clear.take (uint (buf.len - s₀.keys.hashsize)))]
      arrived := s₀.arrived ++ [buf.data] } := by
    unfold decryptPacket
    rw [keys, same.recvseq, same.authdone, h.len, whole]
    simp only [opens.opened _ h.size, given, bind, Except.bind, pure, Except.pure]
  refine ⟨_, decrypted, ?_⟩
  constructor
  · rfl
  · exact congrArg (fun n : Nat => uint (n + 1)) same.recvseq
  · exact same.authdone
  · rfl
  · rfl

/-- What can be read of the rest of a packet is read, and never more. -/
theorem Body.readsRest (h : Body k s packet payload kn sofar buf) {wire later rest : Bytes}
    (stream : sofar ++ wire ++ later = packet ++ rest) {io : Io} (good : io.good) :
    ∃ n s', n ≤ wire.length ∧ readRest s wire io buf = .ok (s', wire.drop n) ∧
      ((∃ buf', Body k s' packet payload kn (sofar ++ wire.take n) buf' ∧
          (sofar ++ wire.take n).length < packet.length ∧ SameHead s s') ∨
        sofar ++ wire.take n = packet ∧ Done s s' payload kn) := by
  have length := h.length
  have len := h.len
  have most := h.inside.length_le
  by_cases complete : buf.len - buf.data.length = 0
  · have eq : sofar = packet := h.inside.eq_of_length (by omega)
    obtain ⟨s', decrypted, done⟩ := h.decrypt eq s rfl ⟨rfl, rfl, rfl⟩
    refine ⟨0, s', Nat.zero_le _, ?_, .inr ⟨by simpa using eq, done⟩⟩
    rw [readRest]
    simp [complete, decrypted, bind, Except.bind, pure, Except.pure]
  · rcases readSome_good good wire (buf.len - buf.data.length) with none | ⟨n, -, few, there, some⟩
    · refine ⟨0, s, Nat.zero_le _, ?_, .inl ⟨buf, by simpa using h, ?_, rfl, rfl, rfl⟩⟩
      · rw [readRest]
        simp [complete, none, bind, Except.bind, pure, Except.pure]
      · simp
        omega
    · have size : (wire.take n).length = n := List.length_take_of_le there
      -- what is read belongs to this packet
      have inside : sofar ++ wire.take n <+: packet := by
        have begins : sofar ++ wire.take n <+: packet ++ rest := by
          rw [← stream, ← List.take_append_drop n wire, ← List.append_assoc,
            List.append_assoc, List.append_assoc]
          simp
        exact List.prefix_of_prefix_length_le begins (List.prefix_append _ _)
          (by rw [List.length_append, size]; omega)
      have grown := h.grow inside
      by_cases last : n = buf.len - buf.data.length
      · have eq : sofar ++ wire.take n = packet :=
          inside.eq_of_length (by rw [List.length_append, size]; omega)
        obtain ⟨s', decrypted, done⟩ := grown.decrypt eq s rfl ⟨rfl, rfl, rfl⟩
        refine ⟨n, s', there, ?_, .inr ⟨eq, ?_⟩⟩
        · rw [readRest]
          simp only [if_neg complete, some, bind, Except.bind, size, if_pos last, decrypted]
          rfl
        · exact ⟨done.keys, done.recvseq, done.authdone, done.readbuf, done.payload⟩
      · refine ⟨n, _, there, ?_, .inl ⟨_, grown, ?_, rfl, rfl, rfl⟩⟩
        · rw [readRest]
          simp only [if_neg complete, some, bind, Except.bind, size, if_neg last]
          rfl
        · rw [List.length_append, size]
          omega

theorem Body.begun (h : Body k s packet payload kn sofar buf) : s.begun = some buf := by
  obtain ⟨data, clear, ko, opens, -, -⟩ := h.opens
  have known : s.keys.blocksize ≤ buf.len := by
    rw [opens.same, h.len]
    exact Nat.le_trans h.long h.inside.length_le
  simp [Recv.begun, h.readbuf, known]

theorem Start.begun (h : Start k s sofar) : s.begun = none := by
  have short : sofar.length < s.keys.blocksize := by
    rw [h.keys]
    exact h.short
  rcases h.buf with buf | ⟨-, buf⟩
  · simp [Recv.begun, buf, short]
  · simp [Recv.begun, buf]

theorem Start.getD (h : Start k s sofar) :
    s.readbuf.getD {} = ⟨sofar, sofar.length, initReadbuf⟩ := by
  rcases h.buf with buf | ⟨rfl, buf⟩
  · rw [buf]
    rfl
  · rw [buf]
    rfl

/-- The first block says how long the packet is. -/
theorem Start.begins (h : Start k s sofar)
    (gives : Gives k s.recvseq s.authdone packet payload kn) :
    ∃ s' buf, beginPacket s (packet.take k.blocksize) initReadbuf = .ok s' ∧
      Body k s' packet payload kn (packet.take k.blocksize) buf ∧ SameHead s s' := by
  obtain ⟨bounded, data, clear, kb, ko, opens, given⟩ := gives
  obtain ⟨plen, length, least, whole⟩ := opens.length
  have block := opens.block
  have taken : (packet.take k.blocksize).length = k.blocksize := List.length_take_of_le block
  let buf : Readbuf := ⟨data, packet.length, max initReadbuf packet.length⟩
  refine ⟨{ s with keys := kb, readbuf := some buf }, buf, ?_, ?_, rfl, rfl, rfl⟩
  · have good : ¬ (recvMaxPacketLen < packet.length ∨ plen < k.blocksize ∨
        plen % k.blocksize ≠ 0) := by omega
    simp only [beginPacket, h.keys, length, bind, Except.bind, if_neg good,
      if_neg (Nat.not_lt.mpr block), pure, Except.pure]
    rfl
  · constructor
    · refine ⟨data, clear, ko, opens, given, ?_⟩
      rw [List.drop_eq_nil_of_le (Nat.le_of_eq taken), List.append_nil]
    · rfl
    · exact Nat.le_max_right _ _
    · rfl
    · exact Nat.le_of_eq taken.symm
    · exact List.take_prefix _ _

/-- What a call of `read_packet` comes to. -/
inductive Progress (k : KeyContext σ ζ) (s s' : Recv σ ζ) (packet payload : Bytes)
    (kn : KeyContext σ ζ) (sofar : Bytes) : Prop
  | start (h : Start k s' sofar) (same : SameHead s s')
  | body (buf : Readbuf) (h : Body k s' packet payload kn sofar buf)
      (short : sofar.length < packet.length) (same : SameHead s s')
  | done (complete : sofar = packet) (h : Done s s' payload kn)

theorem Start.reads (h : Start k s sofar)
    (gives : Gives k s.recvseq s.authdone packet payload kn) {wire later rest : Bytes}
    (stream : sofar ++ wire ++ later = packet ++ rest) {first second : Io} (good : first.good)
    (good' : second.good) :
    ∃ n s', n ≤ wire.length ∧ readPacket s wire first second = .ok (s', wire.drop n) ∧
      Progress k s s' packet payload kn (sofar ++ wire.take n) := by
  have short := h.short
  have block : k.blocksize ≤ packet.length := by
    obtain ⟨-, data, clear, kb, ko, opens, -⟩ := gives
    exact opens.block
  rcases readSome_good good wire (k.blocksize - sofar.length) with none | ⟨n, -, few, there, some⟩
  · refine ⟨0, { s with readbuf := Option.some ⟨sofar, sofar.length, initReadbuf⟩ },
      Nat.zero_le _, ?_, .start ?_ ⟨rfl, rfl, rfl⟩⟩
    · simp only [readPacket, h.begun, readPacketInit, h.getD, h.keys, none, bind,
        Except.bind, pure, Except.pure]
      rfl
    · rw [List.take_zero, List.append_nil]
      exact ⟨h.keys, h.short, .inl rfl⟩
  · have size : (wire.take n).length = n := List.length_take_of_le there
    by_cases last : n = k.blocksize - sofar.length
    · -- the first block is complete
      have eq : sofar ++ wire.take n = packet.take k.blocksize := by
        have length : (sofar ++ wire.take n).length = k.blocksize := by
          rw [List.length_append, size]
          omega
        have begins : sofar ++ wire.take n <+: packet ++ rest := by
          rw [← stream, ← List.take_append_drop n wire, ← List.append_assoc,
            List.append_assoc, List.append_assoc]
          simp
        have inside : sofar ++ wire.take n <+: packet :=
          List.prefix_of_prefix_length_le begins (List.prefix_append _ _) (by omega)
        rw [← length]
        exact List.prefix_iff_eq_take.mp inside
      obtain ⟨s₁, buf, begun, body, same⟩ := h.begins gives
      have behind : packet.take k.blocksize ++ wire.drop n ++ later = packet ++ rest := by
        rw [← eq, List.append_assoc sofar, List.take_append_drop, stream]
      obtain ⟨m, s', most, read, outcome⟩ := body.readsRest behind good'
      have whole :
          sofar ++ wire.take (n + m) = packet.take k.blocksize ++ (wire.drop n).take m := by
        rw [← eq, List.append_assoc, List.take_add]
      refine ⟨n + m, s', by rw [List.length_drop] at most; omega, ?_, ?_⟩
      · have init : readPacketInit s wire first = .ok (s₁, wire.drop n, true) := by
          simp only [readPacketInit, h.getD, h.keys, some, bind, Except.bind, size, eq,
            not_not.mpr last, if_false, begun]
          rfl
        simp only [readPacket, h.begun, init, bind, Except.bind, body.readbuf, read,
          List.drop_drop]
      · rw [whole]
        rcases outcome with ⟨buf', body', below, same'⟩ | ⟨complete, done⟩
        · exact .body buf' body' below ⟨same'.recvseq.trans same.recvseq,
            same'.authdone.trans same.authdone, same'.payload.trans same.payload⟩
        · exact .done complete ⟨done.keys, done.recvseq.trans (by rw [same.recvseq]),
            done.authdone.trans same.authdone, done.readbuf, done.payload⟩
    · refine ⟨n, { s with readbuf := Option.some ⟨sofar ++ wire.take n,
        (sofar ++ wire.take n).length, initReadbuf⟩ }, there, ?_, .start ?_ ⟨rfl, rfl, rfl⟩⟩
      · simp only [readPacket, h.begun, readPacketInit, h.getD, h.keys, some, bind,
          Except.bind, size, ne_eq, last, not_false_eq_true, if_true, pure, Except.pure]
      · exact ⟨h.keys, by rw [List.length_append, size]; omega, .inl rfl⟩

theorem Body.reads (h : Body k s packet payload kn sofar buf) {wire later rest : Bytes}
    (stream : sofar ++ wire ++ later = packet ++ rest) (first : Io) {second : Io}
    (good : second.good) :
    ∃ n s', n ≤ wire.length ∧ readPacket s wire first second = .ok (s', wire.drop n) ∧
      Progress k s s' packet payload kn (sofar ++ wire.take n) := by
  obtain ⟨n, s', there, read, outcome⟩ := h.readsRest stream good
  refine ⟨n, s', there, ?_, ?_⟩
  · simp only [readPacket, h.begun, read]
  · rcases outcome with ⟨buf', body', below, same⟩ | ⟨complete, done⟩
    · exact .body buf' body' below same
    · exact .done complete done

/-- Where nothing is left to read, nothing happens. -/
theorem Start.reads_nothing (h : Start k s []) {first : Io} (good : first.good) (second : Io) :
    ∃ s', readPacket s [] first second = .ok (s', []) ∧ Start k s' [] ∧ SameHead s s' := by
  have short := h.short
  rcases readSome_good good [] k.blocksize with none | ⟨n, some, -, there, -⟩
  · refine ⟨{ s with readbuf := some ⟨[], 0, initReadbuf⟩ }, ?_, ?_, rfl, rfl, rfl⟩
    · simp only [readPacket, h.begun, readPacketInit, h.getD, h.keys, List.length_nil,
        Nat.sub_zero, none, bind, Except.bind, pure, Except.pure]
    · exact ⟨h.keys, h.short, .inl rfl⟩
  · exact absurd some (Nat.not_lt.mpr there)

end

end Ikofi.Packet
