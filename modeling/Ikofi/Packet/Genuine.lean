import Mathlib.Data.List.Forall2
import Mathlib.Data.Nat.ModEq
import Ikofi.Packet.Anything
import Ikofi.Packet.InOrder

/-!
# What is delivered has been sent

Between two key exchanges the network may do with the bytes what it likes. What the
receiver takes is numbered as what the sender made. So if every packet it takes is one
the sender made, then no payload is lost, repeated or moved: those delivered are the
first ones sent.
-/

namespace Ikofi.Packet

open Wire Runs

variable {σ ζ : Type}

/-! ### Numbered lists -/

/-- Entries are numbered from `n` on, in so many bits. -/
def Numbered {α : Type} (m n : Nat) (l : List (Nat × α)) : Prop :=
  ∀ i q, l[i]? = some q → q.1 % m = (n + i) % m

theorem Numbered.nil {α : Type} (m n : Nat) : Numbered m n ([] : List (Nat × α)) := by
  intro i q h
  simp at h

theorem Numbered.cons {α : Type} {m n : Nat} {l : List (Nat × α)} (x : α)
    (h : Numbered m ((n + 1) % m) l) : Numbered m n ((n, x) :: l) := by
  intro i q some
  cases i with
  | zero =>
    rw [List.getElem?_cons_zero, Option.some.injEq] at some
    rw [← some, Nat.add_zero]
  | succ i =>
    rw [List.getElem?_cons_succ] at some
    rw [h i q some, Nat.mod_add_mod, Nat.add_assoc, Nat.add_comm 1 i]

/-- Entries out of a list that are numbered as it is are the first ones of it, if no number
comes twice. -/
theorem Numbered.prefix {α : Type} {m n : Nat} {l k : List (Nat × α)} (hl : Numbered m n l)
    (hk : Numbered m n k) (short : k.length < m) (inside : ∀ q ∈ l, q ∈ k) : l <+: k := by
  have place : ∀ i (hi : i < l.length), i < m → ∃ hj : i < k.length, l[i] = k[i] := by
    intro i hi small
    obtain ⟨j, hj, eq⟩ := List.getElem_of_mem (inside l[i] (List.getElem_mem hi))
    have here := hl i l[i] (List.getElem?_eq_getElem hi)
    have there := hk j k[j] (List.getElem?_eq_getElem hj)
    rw [eq, here] at there
    have same : i = j :=
      Nat.ModEq.eq_of_lt_of_lt (Nat.ModEq.add_left_cancel' n there) small (Nat.lt_trans hj short)
    subst same
    exact ⟨hj, eq.symm⟩
  have fewer : l.length ≤ k.length := by
    by_contra more
    obtain ⟨hj, -⟩ := place k.length (by omega) short
    exact absurd hj (Nat.lt_irrefl _)
  rw [List.prefix_iff_getElem]
  refine ⟨fewer, fun i hi => ?_⟩
  obtain ⟨_, eq⟩ := place i hi (by omega)
  exact eq

theorem exists_of_forall₂ {α β : Type} {R : α → β → Prop} {l : List α} {k : List β}
    (h : List.Forall₂ R l k) {a : α} (mem : a ∈ l) : ∃ b ∈ k, R a b := by
  induction h with
  | nil => cases mem
  | cons first _ ih =>
    cases mem with
    | head => exact ⟨_, List.mem_cons_self, first⟩
    | tail _ mem =>
      obtain ⟨b, behind, related⟩ := ih mem
      exact ⟨b, List.mem_cons_of_mem _ behind, related⟩

/-! ### The two logs -/

/-- The content of a payload, and the state of the compression behind it. -/
def Deflates (k : KeyContext σ ζ) (authdone : Bool) (z : ζ) (payload content : Bytes) (z' : ζ) :
    Prop :=
  if isCompress k authdone then
    ∃ room, payload.length + zlibCompressExpansion ≤ room ∧
      k.flate payload room z = some (content, 0, z')
  else content = payload ∧ z' = z

/-- The clear packets that were made of these payloads. -/
inductive Packed (k : KeyContext σ ζ) (authdone : Bool) :
    ζ → Nat → List Bytes → List (Nat × Bytes) → ζ → Nat → Prop
  | nil (z : ζ) (n : Nat) : Packed k authdone z n [] [] z n
  | cons {z z' z'' : ζ} {n n' : Nat} {payload content pad : Bytes} {sent : List Bytes}
      {made : List (Nat × Bytes)} :
      Sendable payload → Deflates k authdone z payload content z' → pad.length < 0x100 →
      Packed k authdone z' (uint (n + 1)) sent made z'' n' →
      Packed k authdone z n (payload :: sent) ((n, clearPacket content pad) :: made) z'' n'

/-- The payloads that came out of these clear packets. -/
inductive Unpacked (k : KeyContext σ ζ) (authdone : Bool) :
    ζ → Nat → List (Nat × Bytes) → List Bytes → ζ → Nat → Prop
  | nil (z : ζ) (n : Nat) : Unpacked k authdone z n [] [] z n
  | cons {z z' z'' : ζ} {n n' : Nat} {clear made : Bytes} {taken : List (Nat × Bytes)}
      {got : List Bytes} :
      Inflates k authdone z (contentOf clear) made z' →
      Unpacked k authdone z' (uint (n + 1)) taken got z'' n' →
      Unpacked k authdone z n ((n, clear) :: taken) (made :: got) z'' n'

section
variable {k k' : KeyContext σ ζ} {authdone : Bool} {z z' : ζ} {n n' : Nat} {sent got : List Bytes}
  {made taken : List (Nat × Bytes)}

theorem Packed.snoc (h : Packed k authdone z n sent made z' n') {payload content pad : Bytes}
    (sendable : Sendable payload) {z'' : ζ} (deflates : Deflates k authdone z' payload content z'')
    (pads : pad.length < 0x100) :
    Packed k authdone z n (sent ++ [payload]) (made ++ [(n', clearPacket content pad)]) z''
      (uint (n' + 1)) := by
  induction h with
  | nil z n => exact .cons sendable deflates pads (.nil _ _)
  | cons first packs few _ ih => exact .cons first packs few (ih deflates)

theorem Unpacked.snoc (h : Unpacked k authdone z n taken got z' n') {clear payload : Bytes}
    {z'' : ζ}
    (inflates : Inflates k authdone z' (contentOf clear) payload z'') :
    Unpacked k authdone z n (taken ++ [(n', clear)]) (got ++ [payload]) z'' (uint (n' + 1)) := by
  induction h with
  | nil z n => exact .cons inflates (.nil _ _)
  | cons first _ ih => exact .cons first (ih inflates)

theorem Packed.numbered (h : Packed k authdone z n sent made z' n') :
    Numbered 0x100000000 n made := by
  induction h with
  | nil => exact .nil _ _
  | cons _ _ _ _ ih =>
    rw [uint_succ] at ih
    exact ih.cons _

theorem Unpacked.numbered (h : Unpacked k authdone z n taken got z' n') :
    Numbered 0x100000000 n taken := by
  induction h with
  | nil => exact .nil _ _
  | cons _ _ ih =>
    rw [uint_succ] at ih
    exact ih.cons _

theorem contentOf_clearPacket (content : Bytes) {pad : Bytes} (pads : pad.length < 0x100) :
    contentOf (clearPacket content pad) = content := by
  have behind : (clearPacket content pad).drop 4 = UInt8.ofNat pad.length :: (content ++ pad) := by
    rw [clearPacket_eq, List.drop_left' (length_store32 _)]
  have padlen : (UInt8.ofNat pad.length).toNat = pad.length := by
    rw [UInt8.toNat_ofNat']
    exact Nat.mod_eq_of_lt pads
  have size : (clearPacket content pad).length - pad.length - 5 = content.length := by
    rw [length_clearPacket]
    omega
  simp only [contentOf, behind, padlen, size, List.take_left']

/-- From the same clear packets come the same payloads. -/
theorem Unpacked.prefix {Z : ζ → ζ → Prop} (flates : Flates Z k.flate k'.flate)
    (comp : k'.algoComp = k.algoComp) {w w' : ζ} {m m' : Nat}
    (unpacked : Unpacked k' authdone w m taken got w' m') :
    ∀ {z sent made}, Packed k authdone z m sent made z' n' → Z z w → taken <+: made →
      got <+: sent := by
  induction unpacked with
  | nil => exact fun _ _ _ => List.nil_prefix
  | @cons w₁ w₂ w₃ m m' clear payload taken got inflates _ ih =>
    intro z sent made packed states front
    cases packed with
    | nil => exact absurd front.length_le (by simp)
    | @cons _ z₁ _ _ _ first content pad sent made sendable deflates pads rest =>
      rw [List.cons_prefix_cons] at front
      obtain ⟨same, front⟩ := front
      simp only [Prod.mk.injEq, true_and] at same
      rw [same, contentOf_clearPacket content pads] at inflates
      have both : isCompress k' authdone = isCompress k authdone := by
        simp only [isCompress, comp]
      unfold Inflates at inflates
      unfold Deflates at deflates
      rw [both] at inflates
      have next : payload = first ∧ Z z₁ w₂ := by
        by_cases compressed : isCompress k authdone = true
        · rw [if_pos compressed] at inflates deflates
          obtain ⟨room, enough, deflated⟩ := deflates
          have short : first.length ≤ recvMaxPayloadLen := Nat.le_trans sendable.2 (by decide)
          obtain ⟨out, z₂, w, deflated', -, -, inflated, states'⟩ :=
            flates _ _ states first room sendable.1 short enough
          rw [deflated] at deflated'
          cases deflated'
          rw [inflates] at inflated
          cases inflated
          exact ⟨rfl, states'⟩
        · rw [if_neg compressed] at inflates deflates
          obtain ⟨rfl, rfl⟩ := deflates
          obtain ⟨rfl, rfl⟩ := inflates
          exact ⟨rfl, states⟩
      rw [next.1, List.cons_prefix_cons]
      exact ⟨rfl, ih rest next.2 front⟩

end

/-! ### The sender -/

inductive Sending
  | send (payload : Bytes)
  | flush
  | allow (dataallowed : Bool)
  deriving DecidableEq

def Trans.step (t : Trans σ ζ) : Sending → Option (Trans σ ζ)
  | .send payload => (encryptPacket t payload).toOption
  | .flush => (maybeFlushReplyQueue t).toOption
  | .allow dataallowed => some { t with dataallowed }

/-- What is sent fits the buffer for payloads. The run ends with a payload that changes the
keys. -/
def Trans.Possible (t : Trans σ ζ) : Sending → Prop
  | .send payload => payload.length ≤ transMaxPayloadLen ∧ ∀ q ∈ t.sent, changes q = false
  | .flush => ∀ q ∈ t.sent ++ t.replyQueue, changes q = false
  | .allow _ => True

/-- Keys that differ in the state of the cipher at most. -/
def Recrypted (k k' : KeyContext σ ζ) : Prop := ∃ s, k' = { k with cipherState := s }

/-- The same algorithms, in whatever state. -/
def Alike (k k' : KeyContext σ ζ) : Prop := ∃ c z, k' = { k with cipherState := c, zstream := z }

section
variable {k : KeyContext σ ζ}

theorem sealPacket_ok {seq size : Nat} {clear packet : Bytes} {kn : KeyContext σ ζ}
    (h : sealPacket k seq size clear = .ok (packet, kn)) : Recrypted k kn := by
  unfold sealPacket at h
  cases mode : k.mode with
  | plain encrypt decrypt =>
    simp only [mode] at h
    cases enc : encrypt clear k.cipherState with
    | none => simp [enc, dropbearExit] at h
    | some r =>
      simp only [enc] at h
      split at h
      · cases h
      · cases h
        exact ⟨r.2, by rw [mode]⟩
  | aead aeadGetlength aeadCrypt =>
    simp only [mode] at h
    split at h
    · cases h
    · cases enc : aeadCrypt seq clear k.hashsize .encrypt k.cipherState with
      | none => simp [enc, dropbearExit] at h
      | some r =>
        simp only [enc] at h
        cases h
        exact ⟨r.2, by rw [mode]⟩

theorem packetContent_ok {authdone : Bool} {payload content : Bytes} {kn : KeyContext σ ζ}
    (h : packetContent k authdone payload = .ok (content, kn)) :
    ∃ z, kn = { k with zstream := z } ∧ Deflates k authdone k.zstream payload content z := by
  unfold packetContent at h
  by_cases compressed : isCompress k authdone = true
  · simp only [Deflates, compressed, if_true] at h ⊢
    obtain ⟨_, room, h⟩ := bind_ok.mp h
    cases deflated : k.flate payload (encryptBufSize k payload.length - 5) k.zstream with
    | none => simp [deflated, dropbearExit] at h
    | some r =>
      obtain ⟨out, left, z⟩ := r
      simp only [deflated] at h
      obtain ⟨_, all, h⟩ := bind_ok.mp h
      cases h
      have enough :
          payload.length + zlibCompressExpansion ≤ encryptBufSize k payload.length - 5 := by
        unfold encryptBufSize
        omega
      have none : left = 0 := by
        unfold dropbearAssert at all
        split at all
        · rename_i none
          exact of_decide_eq_true none
        · cases all
      subst none
      exact ⟨z, rfl, _, enough, deflated⟩
  · simp only [Deflates, compressed, Bool.false_eq_true, if_false] at h ⊢
    cases h
    exact ⟨k.zstream, rfl, rfl, rfl⟩

theorem padding_lt (len : Nat) : padding k len < 0x100 := by
  unfold padding
  dsimp only
  repeat' split
  all_goals omega

theorem framePacket_ok {seq : Nat} {authdone : Bool} {random : Nat → UInt8}
    {payload clear packet : Bytes} {padlen : Nat} {kn : KeyContext σ ζ}
    (h : framePacket k seq authdone random payload = .ok (clear, packet, padlen, kn)) :
    ∃ content pad, clear = clearPacket content pad ∧ pad.length < 0x100 ∧ Alike k kn ∧
      Deflates k authdone k.zstream payload content kn.zstream := by
  obtain ⟨⟨content, kc⟩, packed, h⟩ := bind_ok.mp h
  obtain ⟨z, rfl, deflates⟩ := packetContent_ok packed
  dsimp only at h
  split at h
  · cases h
  · obtain ⟨⟨out, ks⟩, sealed, h⟩ := bind_ok.mp h
    cases h
    obtain ⟨c, rfl⟩ := sealPacket_ok sealed
    refine ⟨content, _, rfl, ?_, ⟨c, z, rfl⟩, deflates⟩
    rw [List.length_map, List.length_range]
    exact padding_lt _

/-- What the sender has made is what has been packed, and what waits can be. -/
structure Trans.Logged (k : KeyContext σ ζ) (auth : Bool) (n : Nat) (t : Trans σ ζ) : Prop where
  keys : Alike k t.keys
  authdone : t.authdone = auth
  packed : Packed k auth k.zstream n t.sent t.made t.keys.zstream t.transseq
  held : ∀ payload ∈ t.replyQueue, Sendable payload

theorem Trans.Logged.encrypt {authdone : Bool} {n : Nat} {t t' : Trans σ ζ} {payload : Bytes}
    (h : t.Logged k authdone n) (short : payload.length ≤ transMaxPayloadLen)
    (encrypted : encryptPacket t payload = .ok t') : t'.Logged k authdone n := by
  obtain ⟨⟨type, rest⟩, first, encrypted⟩ := bind_ok.mp encrypted
  have some : 0 < payload.length := by
    cases payload with
    | nil => cases first
    | cons => exact Nat.succ_pos _
  dsimp only at encrypted
  split at encrypted
  · cases encrypted
    refine ⟨h.keys, h.authdone, h.packed, ?_⟩
    intro q mem
    rcases List.mem_append.mp mem with mem | mem
    · exact h.held q mem
    · rw [List.mem_singleton.mp mem]
      exact ⟨some, short⟩
  · obtain ⟨⟨clear, packet, padlen, kn⟩, framed, encrypted⟩ := bind_ok.mp encrypted
    cases encrypted
    obtain ⟨content, pad, rfl, pads, ⟨c, z, eq⟩, deflates⟩ := framePacket_ok framed
    obtain ⟨c', z', alike⟩ := h.keys
    rw [h.authdone] at deflates
    refine ⟨⟨c, z, by rw [writebufEnqueue, eq, alike]⟩, h.authdone, ?_, h.held⟩
    refine h.packed.snoc ⟨some, short⟩ ?_ pads
    rw [alike] at deflates ⊢
    exact deflates

theorem Trans.Logged.flush {authdone : Bool} {n : Nat} {queue : List Bytes} :
    ∀ {t t' : Trans σ ζ}, t.Logged k authdone n → (∀ payload ∈ queue, Sendable payload) →
      queue.foldlM encryptPacket t = .ok t' → t'.Logged k authdone n := by
  induction queue with
  | nil =>
    intro t t' h _ flushed
    cases flushed
    exact h
  | cons payload queue ih =>
    intro t t' h held flushed
    rw [List.foldlM_cons] at flushed
    obtain ⟨t₁, encrypted, flushed⟩ := bind_ok.mp flushed
    have first := held payload List.mem_cons_self
    exact ih (h.encrypt first.2 encrypted) (fun q mem => held q (List.mem_cons_of_mem _ mem))
      flushed

theorem Trans.Logged.step {authdone : Bool} {n : Nat} {t t' : Trans σ ζ} {ev : Sending}
    (h : t.Logged k authdone n) (possible : t.Possible ev) (step : t.step ev = some t') :
    t'.Logged k authdone n := by
  cases ev with
  | send payload => exact h.encrypt possible.1 (ok_of_toOption step)
  | flush =>
    have flushed := ok_of_toOption step
    unfold maybeFlushReplyQueue at flushed
    split at flushed
    · cases flushed
      exact h
    · obtain ⟨t₁, all, rest⟩ := bind_ok.mp flushed
      cases rest
      have logged := h.flush h.held all
      refine ⟨logged.keys, logged.authdone, logged.packed, ?_⟩
      intro q mem
      cases mem
  | allow dataallowed =>
    cases step
    exact ⟨h.keys, h.authdone, h.packed, h.held⟩

end

/-! ### The receiver -/

/-- What the receiver has taken is what has been unpacked, and each packet has been found good. -/
structure Sink.Logged (k : KeyContext σ ζ) (auth : Bool) (n : Nat) (s : Sink σ ζ) : Prop where
  bounded : s.recv.Bounded k
  authdone : s.recv.authdone = auth
  checked : List.Forall₂ (fun q packet => Checked k q.1 packet q.2) s.recv.taken s.recv.arrived
  unpacked : Unpacked k auth k.zstream n s.recv.taken s.got s.recv.keys.zstream s.recv.recvseq

theorem Sink.Logged.step {k : KeyContext σ ζ} {authdone : Bool} {n : Nat} {s s' : Sink σ ζ}
    {ev : Receiving} (good : Negotiated k) (h : s.Logged k authdone n) (possible : s.Possible ev)
    (step : s.step ev = some s') : s'.Logged k authdone n := by
  cases ev with
  | read wire first second =>
    obtain ⟨⟨r, wire'⟩, read, rfl⟩ := Option.map_eq_some_iff.mp step
    obtain ⟨bounded, next⟩ := readPacket_bounded good h.bounded (ok_of_toOption read)
    have none : s.recv.payload = none := possible
    have unpacked := h.unpacked
    rcases next with waits | ⟨clear, made, takes⟩
    · refine ⟨bounded, waits.authdone.trans h.authdone, ?_, ?_⟩
      · rw [waits.taken, waits.arrived]
        exact h.checked
      · unfold Sink.got at unpacked ⊢
        rwa [waits.taken, waits.payload, waits.zstream, waits.recvseq]
    · refine ⟨bounded, takes.authdone.trans h.authdone, ?_, ?_⟩
      · obtain ⟨packet, came, good⟩ := takes.checked
        rw [takes.taken, came]
        exact List.rel_append h.checked (.cons good .nil)
      · have inflates := takes.inflates
        rw [h.authdone] at inflates
        unfold Sink.got at unpacked ⊢
        rw [none, Option.toList_none, List.append_nil] at unpacked
        rw [takes.taken, takes.payload, takes.recvseq]
        exact unpacked.snoc inflates
  | take =>
    obtain ⟨payload, some, rfl⟩ := Option.map_eq_some_iff.mp step
    refine ⟨⟨h.bounded.keys, h.bounded.readbuf, fun _ none => by cases none⟩, h.authdone,
      h.checked, ?_⟩
    have unpacked := h.unpacked
    unfold Sink.got at unpacked ⊢
    rw [some] at unpacked
    simpa using unpacked

section
variable {R : σ → σ → Prop} {Z : ζ → ζ → Prop} {k k' : KeyContext σ ζ}

/-- The payloads that come out are the first that were put in, whatever has been done to the
bytes between, unless the receiver has been given a packet that the sender did not make and that
has the right hash or the right tag all the same. -/
theorem genuine_or_forged (paired : Paired R Z k k') (inPlace : k'.mode.InPlace) {n : Nat}
    {authdone : Bool} {random : Nat → UInt8} {sends : List Sending} {t : Trans σ ζ}
    (sending : Run Trans.step Trans.Possible { keys := k, transseq := n, authdone, random } sends t)
    {reads : List Receiving} {s : Sink σ ζ}
    (receiving : Run Sink.step Sink.Possible { recv := { keys := k', recvseq := n, authdone } }
      reads s)
    (short : t.made.length < 0x100000000) :
    s.got <+: t.sent ∨ ∃ q ∈ s.recv.taken, q ∉ t.made ∧
      ∃ packet ∈ s.recv.arrived, Checked k' q.1 packet q.2 := by
  have good : Negotiated k' := by
    refine ⟨?_, ?_, inPlace⟩
    · rw [paired.blocksize]
      exact paired.block
    · rw [paired.hashsize]
      exact paired.hash
  have logged : t.Logged k authdone n := by
    apply sending.invariant (I := fun t => t.Logged k authdone n)
    · refine ⟨⟨k.cipherState, k.zstream, rfl⟩, rfl, .nil _ _, ?_⟩
      intro q mem
      cases mem
    · intro t ev t' h possible step
      exact h.step possible step
  have logged' : s.Logged k' authdone n := by
    apply receiving.invariant (I := fun s => s.Logged k' authdone n)
    · refine ⟨⟨.refl k', fun _ none => ?_, fun _ none => ?_⟩, rfl, .nil, .nil _ _⟩
      · cases none
      · cases none
    · intro s ev s' h possible step
      exact h.step good possible step
  by_cases inside : ∀ q ∈ s.recv.taken, q ∈ t.made
  · left
    have front := logged'.unpacked.numbered.prefix logged.packed.numbered short inside
    exact logged'.unpacked.prefix paired.flates paired.algoComp logged.packed paired.zstream front
  · right
    simp only [not_forall, exists_prop] at inside
    obtain ⟨q, mem, foreign⟩ := inside
    obtain ⟨packet, came, good⟩ := exists_of_forall₂ logged'.checked mem
    exact ⟨q, mem, foreign, packet, came, good⟩

instance Trans.decidablePossible (t : Trans σ ζ) (ev : Sending) : Decidable (t.Possible ev) := by
  cases ev <;> unfold Trans.Possible <;> infer_instance

/-- The packet of three bytes, and the same packet again. -/
def replayed : List Receiving :=
  [.read [0, 0, 0, 12, 8, 5, 1, 2, 0, 0, 0, 0, 0, 0, 0, 0] (.upto 20) (.upto 20), .take,
    .read [0, 0, 0, 12, 8, 5, 1, 2, 0, 0, 0, 0, 0, 0, 0, 0] (.upto 20) (.upto 20)]

/-- Without a hash the second packet is taken. Nobody has sent it with its number. -/
theorem genuine_or_forged_replayed : ∃ (t : Trans Unit Unit) (s : Sink Unit Unit),
    t.sent = [[5, 1, 2]] ∧ s.got = [[5, 1, 2], [5, 1, 2]] ∧
    (s.got <+: t.sent ∨ ∃ q ∈ s.recv.taken, q ∉ t.made ∧
      ∃ packet ∈ s.recv.arrived, Checked noneKeys q.1 packet q.2) := by
  obtain ⟨t, sends⟩ : ∃ t, [Sending.send [5, 1, 2]].foldlM (guarded Trans.step Trans.Possible)
      ({ keys := noneKeys, transseq := 0, authdone := false, random := fun _ => 0 } :
        Trans Unit Unit) = some t :=
    Option.isSome_iff_exists.mp (by decide)
  obtain ⟨s, reads⟩ : ∃ s, replayed.foldlM (guarded Sink.step Sink.Possible)
      ({ recv := { keys := noneKeys, recvseq := 0, authdone := false } } : Sink Unit Unit) =
        some s :=
    Option.isSome_iff_exists.mp (by decide)
  have sent : ([Sending.send [5, 1, 2]].foldlM (guarded Trans.step Trans.Possible)
      ({ keys := noneKeys, transseq := 0, authdone := false, random := fun _ => 0 } :
        Trans Unit Unit)).map (fun t => (t.sent, t.made.length)) = some ([[5, 1, 2]], 1) := by
    decide
  have got : (replayed.foldlM (guarded Sink.step Sink.Possible)
      ({ recv := { keys := noneKeys, recvseq := 0, authdone := false } } : Sink Unit Unit)).map
        (·.got) = some [[5, 1, 2], [5, 1, 2]] := by decide
  rw [sends] at sent
  rw [reads] at got
  simp only [Option.map_some, Option.some.injEq, Prod.mk.injEq] at sent got
  have paired := noneKeys_paired 0
  exact ⟨t, s, sent.1, got, genuine_or_forged paired noneKeys_negotiated.inPlace
    (run_of_foldlM sends) (run_of_foldlM reads) (by rw [sent.2]; decide)⟩

end

end Ikofi.Packet
