import Ikofi.Lib.Runs
import Ikofi.Packet.Reading

/-!
# A stream of packets

One side sends, the other receives, and between them the socket takes and gives
bytes in pieces of any size. Both change their keys at the same packet. What is
still to be delivered is at every moment a chain of packets, each made with the
keys that the one before it left.
-/

namespace Ikofi.Packet

open Wire Runs

variable {σ ζ : Type}

/-- What `send_msg_kexinit`, `send_msg_newkeys` and `send_msg_userauth_success` do once their
packet has been sent. -/
def Trans.after (t : Trans σ ζ) (newkeys : KeyContext σ ζ) (strictKex : Bool) (type : UInt8) :
    Trans σ ζ :=
  if type = sshMsgKexinit then { t with dataallowed := false }
  else if type = sshMsgNewkeys then
    { t with
      dataallowed := true
      keys := newkeys
      transseq := if strictKex then 0 else t.transseq }
  else if type = sshMsgUserauthSuccess then { t with authdone := true }
  else t

/-- What the receiver of such a packet does. -/
def Recv.after (s : Recv σ ζ) (newkeys : KeyContext σ ζ) (strictKex : Bool) (type : UInt8) :
    Recv σ ζ :=
  if type = sshMsgNewkeys then
    { s with
      keys := newkeys
      recvseq := if strictKex then 0 else s.recvseq }
  else if type = sshMsgUserauthSuccess then { s with authdone := true }
  else s

/-- The first byte of a payload. -/
def packetType (payload : Bytes) : UInt8 := payload.headD 0

def epochAfter (epoch : Nat) (type : UInt8) : Nat :=
  if type = sshMsgNewkeys then epoch + 1 else epoch

/-- Two sides of a connection, seen in one direction. -/
structure Pipe (σ ζ : Type) where
  trans : Trans σ ζ
  transEpoch : Nat := 0
  wire : Bytes := []
  recv : Recv σ ζ
  recvEpoch : Nat := 0
  delivered : List Bytes := []

inductive Event
  | send (payload : Bytes)
  | flush
  | write (io : Io)
  | read (first second : Io)
  | take
  deriving DecidableEq

/-- What both sides have agreed on: the keys after each key exchange, and whether the sequence
numbers start again with them. -/
structure Agreed (σ ζ : Type) where
  sending : Nat → KeyContext σ ζ
  receiving : Nat → KeyContext σ ζ
  strictKex : Bool := false

def Pipe.turn (a : Agreed σ ζ) (p : Pipe σ ζ) : Event → Except Halt (Pipe σ ζ)
  | .send payload => do
    let t ← encryptPacket p.trans payload
    let type := packetType payload
    return { p with
      trans := t.after (a.sending (p.transEpoch + 1)) a.strictKex type
      transEpoch := epochAfter p.transEpoch type }
  | .flush => do
    let t ← maybeFlushReplyQueue p.trans
    return { p with trans := t }
  | .write io => do
    let (t, s) ← writePacket p.trans io
    return { p with trans := t, wire := p.wire ++ s }
  | .read first second => do
    let (r, wire) ← readPacket p.recv p.wire first second
    return { p with recv := r, wire }
  | .take =>
    match p.recv.payload with
    | none => .ok p
    | some payload =>
      let type := packetType payload
      .ok { p with
        recv := { p.recv with payload := none }.after (a.receiving (p.recvEpoch + 1))
          a.strictKex type
        recvEpoch := epochAfter p.recvEpoch type
        delivered := p.delivered ++ [payload] }

def Pipe.step (a : Agreed σ ζ) (p : Pipe σ ζ) (ev : Event) : Option (Pipe σ ζ) :=
  (p.turn a ev).toOption

/-- What is sent fits the buffer for payloads, and the two messages that are sent outside of a
key exchange are. The session's loop reads only when no payload waits, and writes only when
there is something to write. -/
def Pipe.Possible (p : Pipe σ ζ) : Event → Prop
  | .send payload => 0 < payload.length ∧ payload.length ≤ transMaxPayloadLen ∧
      ((packetType payload = sshMsgKexinit ∨ packetType payload = sshMsgUserauthSuccess) →
        p.trans.dataallowed = true)
  | .flush => True
  | .write _ => p.trans.writequeue ≠ []
  | .read _ _ => p.recv.payload = none
  | .take => p.recv.payload ≠ none

/-- What has been sent and not been read yet. -/
def Pipe.unread (p : Pipe σ ζ) : Bytes := p.wire ++ p.trans.writequeue.flatten

/-! ### Chains -/

/-- What a packet depends on. -/
structure Ctx (σ ζ : Type) where
  keys : KeyContext σ ζ
  seq : Nat
  authdone : Bool
  epoch : Nat

def Trans.ctx (t : Trans σ ζ) (epoch : Nat) : Ctx σ ζ := ⟨t.keys, t.transseq, t.authdone, epoch⟩

/-- After a packet, whatever it holds. -/
def Ctx.sent (c : Ctx σ ζ) (keys : KeyContext σ ζ) : Ctx σ ζ :=
  { c with keys, seq := uint (c.seq + 1) }

/-- After a payload of this type. -/
def Ctx.after (a : Agreed σ ζ) (c : Ctx σ ζ) (type : UInt8) : Ctx σ ζ :=
  if type = sshMsgNewkeys then
    { c with
      keys := a.sending (c.epoch + 1)
      seq := if a.strictKex then 0 else c.seq
      epoch := c.epoch + 1 }
  else if type = sshMsgUserauthSuccess then { c with authdone := true }
  else c

/-- A payload that a packet can be made of. -/
def Sendable (payload : Bytes) : Prop :=
  0 < payload.length ∧ payload.length ≤ transMaxPayloadLen

/-- The packet is one of the payload. -/
def Made (c : Ctx σ ζ) (packet payload : Bytes) (keys : KeyContext σ ζ) : Prop :=
  Sendable payload ∧ ∃ random clear padlen,
    framePacket c.keys c.seq c.authdone random payload = .ok (clear, packet, padlen, keys)

/-- The packets of these payloads, one behind the other. -/
inductive Chain (a : Agreed σ ζ) : Ctx σ ζ → List Bytes → Bytes → Ctx σ ζ → Prop
  | nil (c : Ctx σ ζ) : Chain a c [] [] c
  | cons {c d : Ctx σ ζ} {payload packet bytes : Bytes} {payloads : List Bytes}
      {keys : KeyContext σ ζ} :
      Made c packet payload keys →
      Chain a ((c.sent keys).after a (packetType payload)) payloads bytes d →
      Chain a c (payload :: payloads) (packet ++ bytes) d

section
variable {a : Agreed σ ζ} {R : σ → σ → Prop} {Z : ζ → ζ → Prop} {c d : Ctx σ ζ}

theorem Chain.snoc {payloads : List Bytes} {bytes : Bytes} (h : Chain a c payloads bytes d)
    {payload packet : Bytes} {keys : KeyContext σ ζ} (made : Made d packet payload keys) :
    Chain a c (payloads ++ [payload]) (bytes ++ packet)
      ((d.sent keys).after a (packetType payload)) := by
  induction h with
  | nil c =>
    have := Chain.cons made (.nil ((c.sent keys).after a (packetType payload)))
    simpa using this
  | cons first _ ih =>
    rw [List.cons_append, List.append_assoc]
    exact .cons first (ih made)

/-- The receiver takes a packet that was made with keys that belong to its own. -/
theorem Made.gives {packet payload : Bytes} {k keys : KeyContext σ ζ}
    (made : Made c packet payload keys) (paired : Paired R Z c.keys k) :
    ∃ kn, Gives k c.seq c.authdone packet payload kn ∧ Paired R Z keys kn := by
  obtain ⟨sendable, random, clear, padlen, framed⟩ := made
  obtain ⟨_, _, _, _, kn, framed', gives, next⟩ :=
    paired.framed c.seq c.authdone random sendable.1 sendable.2
  rw [framed, Except.ok.injEq, Prod.mk.injEq, Prod.mk.injEq, Prod.mk.injEq] at framed'
  obtain ⟨-, rfl, -, rfl⟩ := framed'
  exact ⟨kn, gives, next⟩

theorem Ctx.after_paired (rings : ∀ e, Paired R Z (a.sending e) (a.receiving e))
    {r : Recv σ ζ} (paired : Paired R Z c.keys r.keys) {epoch : Nat} (same : epoch = c.epoch)
    (type : UInt8) :
    Paired R Z (c.after a type).keys
      (r.after (a.receiving (epoch + 1)) a.strictKex type).keys := by
  unfold Ctx.after Recv.after
  by_cases new : type = sshMsgNewkeys
  · rw [if_pos new, if_pos new, same]
    exact rings _
  · rw [if_neg new, if_neg new]
    split
    · exact paired
    · exact paired

/-- The keys at the end of a chain have keys that belong to them. -/
theorem Chain.paired (rings : ∀ e, Paired R Z (a.sending e) (a.receiving e))
    {payloads : List Bytes} {bytes : Bytes} (h : Chain a c payloads bytes d) :
    ∀ {k}, Paired R Z c.keys k → ∃ k', Paired R Z d.keys k' := by
  induction h with
  | nil c => exact fun paired => ⟨_, paired⟩
  | @cons c d payload packet bytes payloads keys made _ ih =>
    intro k paired
    obtain ⟨kn, -, next⟩ := made.gives paired
    exact ih (Ctx.after_paired (c := c.sent keys) (r := { keys := kn }) rings next rfl
      (packetType payload))

end

/-- What the receiver has agrees with what the next packet was made with. -/
structure Agrees (c : Ctx σ ζ) (r : Recv σ ζ) (epoch : Nat) : Prop where
  seq : r.recvseq = c.seq
  authdone : r.authdone = c.authdone
  epoch : epoch = c.epoch

section
variable (a : Agreed σ ζ) (R : σ → σ → Prop) (Z : ζ → ζ → Prop)

/-- Where the receiver is in the chain of what is still to come: before a packet or in its first
block, behind that, or with a payload that waits. -/
inductive Stage (c d : Ctx σ ζ) (r : Recv σ ζ) : List Bytes → Bytes → Bytes → Prop
  | start {k : KeyContext σ ζ} {payloads : List Bytes} {bytes sofar : Bytes} :
      Paired R Z c.keys k → Start k r sofar → r.payload = none → Chain a c payloads bytes d →
      Stage c d r payloads bytes sofar
  | body {k kn kn' : KeyContext σ ζ} {payloads : List Bytes}
      {packet payload bytes sofar : Bytes} {buf : Readbuf} :
      Made c packet payload kn → Paired R Z c.keys k → Paired R Z kn kn' →
      Body k r packet payload kn' sofar buf → sofar.length < packet.length → r.payload = none →
      Chain a ((c.sent kn).after a (packetType payload)) payloads bytes d →
      Stage c d r (payload :: payloads) (packet ++ bytes) sofar
  | ready {payload : Bytes} {payloads : List Bytes} {bytes : Bytes} :
      r.payload = some payload → Paired R Z c.keys r.keys → r.readbuf = none →
      Chain a (c.after a (packetType payload)) payloads bytes d →
      Stage c d r payloads bytes []

end

section
variable {a : Agreed σ ζ} {R : σ → σ → Prop} {Z : ζ → ζ → Prop} {c d : Ctx σ ζ} {r : Recv σ ζ}
  {payloads : List Bytes} {bytes sofar : Bytes}

theorem Stage.extend (h : Stage a R Z c d r payloads bytes sofar) {payload packet : Bytes}
    {keys : KeyContext σ ζ} (made : Made d packet payload keys) :
    Stage a R Z c ((d.sent keys).after a (packetType payload)) r (payloads ++ [payload])
      (bytes ++ packet) sofar := by
  cases h with
  | start paired start none chain => exact .start paired start none (chain.snoc made)
  | body first paired next body short none chain =>
    rw [List.cons_append, List.append_assoc]
    exact .body first paired next body short none (chain.snoc made)
  | ready some paired empty chain => exact .ready some paired empty (chain.snoc made)

theorem Stage.paired (h : Stage a R Z c d r payloads bytes sofar)
    (rings : ∀ e, Paired R Z (a.sending e) (a.receiving e)) : ∃ k, Paired R Z d.keys k := by
  cases h with
  | start paired _ _ chain => exact chain.paired rings paired
  | body _ _ next _ _ _ chain =>
    exact chain.paired rings
      (Ctx.after_paired (c := c.sent _) (r := { keys := _ }) rings next rfl _)
  | ready _ paired _ chain => exact chain.paired rings (Ctx.after_paired rings paired rfl _)

/-- After a read the receiver is further in the same chain. -/
theorem Progress.stage {k kn kn' : KeyContext σ ζ} {r' : Recv σ ζ}
    {packet payload rest unread : Bytes} {epoch : Nat} (progress : Progress k r r' packet payload kn' sofar)
    (made : Made c packet payload kn) (paired : Paired R Z c.keys k) (next : Paired R Z kn kn')
    (chain : Chain a ((c.sent kn).after a (packetType payload)) payloads rest d)
    (agrees : Agrees c r epoch) (none : r.payload = none)
    (stream : sofar ++ unread = packet ++ rest) :
    ∃ c' pending bytes sofar, Stage a R Z c' d r' pending bytes sofar ∧ Agrees c' r' epoch ∧
      r'.payload.toList ++ pending = payload :: payloads ∧ sofar ++ unread = bytes := by
  cases progress with
  | start start same =>
    have none' := same.payload.trans none
    refine ⟨c, payload :: payloads, _, sofar, .start paired start none' (.cons made chain), ?_, ?_,
      stream⟩
    · exact ⟨same.recvseq.trans agrees.seq, same.authdone.trans agrees.authdone, agrees.epoch⟩
    · rw [none']
      rfl
  | body buf body short same =>
    have none' := same.payload.trans none
    refine ⟨c, payload :: payloads, _, sofar, .body made paired next body short none' chain, ?_, ?_,
      stream⟩
    · exact ⟨same.recvseq.trans agrees.seq, same.authdone.trans agrees.authdone, agrees.epoch⟩
    · rw [none']
      rfl
  | done complete done =>
    rw [complete] at stream
    refine ⟨c.sent kn, payloads, rest, [], .ready done.payload ?_ done.readbuf chain, ?_, ?_,
      List.append_cancel_left stream⟩
    · rw [done.keys]
      exact next
    · exact ⟨done.recvseq.trans (by rw [agrees.seq]; rfl), done.authdone.trans agrees.authdone,
        agrees.epoch⟩
    · rw [done.payload]
      rfl

/-- A read takes the receiver on, and fails only if the socket does. -/
theorem Stage.reads (h : Stage a R Z c d r payloads bytes sofar) {epoch : Nat}
    (agrees : Agrees c r epoch) (none : r.payload = none) (wire later : Bytes)
    (stream : sofar ++ (wire ++ later) = bytes) {first second : Io} (good : first.good)
    (good' : second.good) :
    ∃ r' wire', readPacket r wire first second = .ok (r', wire') ∧
      ∃ c' pending bytes sofar, Stage a R Z c' d r' pending bytes sofar ∧ Agrees c' r' epoch ∧
        r'.payload.toList ++ pending = payloads ∧ sofar ++ (wire' ++ later) = bytes := by
  cases h with
  | ready some => rw [none] at some; cases some
  | @start k _ _ _ paired start _ chain =>
    cases chain with
    | nil =>
      -- nothing is on its way
      rw [List.append_eq_nil_iff, List.append_eq_nil_iff] at stream
      obtain ⟨rfl, rfl, rfl⟩ := stream
      obtain ⟨r', read, start', same⟩ := start.reads_nothing good second
      have none' := same.payload.trans none
      refine ⟨r', [], read, c, [], [], [], .start paired start' none' (.nil _), ?_, ?_, rfl⟩
      · exact ⟨same.recvseq.trans agrees.seq, same.authdone.trans agrees.authdone, agrees.epoch⟩
      · rw [none']
        rfl
    | @cons _ _ payload packet rest payloads kn made chain =>
      obtain ⟨kn', gives, next⟩ := made.gives paired
      rw [← agrees.seq, ← agrees.authdone] at gives
      have stream' : sofar ++ wire ++ later = packet ++ rest := by rwa [List.append_assoc]
      obtain ⟨n, r', there, read, progress⟩ := start.reads gives stream' good good'
      refine ⟨r', wire.drop n, read, progress.stage made paired next chain agrees none ?_⟩
      rw [List.append_assoc, ← List.append_assoc (wire.take n), List.take_append_drop, stream]
  | @body k kn kn' payloads packet payload rest _ buf made paired next body short _ chain =>
    have stream' : sofar ++ wire ++ later = packet ++ rest := by rwa [List.append_assoc]
    obtain ⟨n, r', there, read, progress⟩ := body.reads stream' first good'
    refine ⟨r', wire.drop n, read, progress.stage made paired next chain agrees none ?_⟩
    rw [List.append_assoc, ← List.append_assoc (wire.take n), List.take_append_drop, stream]

end

end Ikofi.Packet
