import Ikofi.Packet.Pipe

/-!
# What is sent is delivered in order

In every run of the two sides the payloads delivered are the first ones sent, and
all of them once nothing is left to read. It does not matter how the socket cuts
the stream, when keys change, or what waits for the end of a key exchange. The
session ends only if the socket fails.
-/

namespace Ikofi.Packet

open Wire Runs

variable {σ ζ : Type}

/-! ### The queue of packets to write -/

theorem flatten_consume (queue : List Bytes) (n : Nat) :
    (packetQueueConsume queue n).flatten = queue.flatten.drop n := by
  induction queue generalizing n with
  | nil => simp [packetQueueConsume]
  | cons packet queue ih =>
    unfold packetQueueConsume
    by_cases none : n = 0
    · simp [none]
    · rw [if_neg none]
      by_cases part : n < packet.length
      · rw [if_pos part, List.flatten_cons, List.flatten_cons,
          List.drop_append_of_le_length (Nat.le_of_lt part)]
      · rw [if_neg part, ih, List.flatten_cons, List.drop_append,
          List.drop_eq_nil_of_le (Nat.not_lt.mp part), List.nil_append]

theorem consume_full (queue : List Bytes) (n : Nat) (full : ∀ packet ∈ queue, packet ≠ []) :
    ∀ packet ∈ packetQueueConsume queue n, packet ≠ [] := by
  induction queue generalizing n with
  | nil => exact full
  | cons packet queue ih =>
    have rest := fun p (hp : p ∈ queue) => full p (List.mem_cons_of_mem _ hp)
    unfold packetQueueConsume
    split
    · exact full
    · split
      · rename_i part
        intro p hp
        rcases List.mem_cons.mp hp with rfl | hp
        · intro empty
          exact absurd (List.drop_eq_nil_iff.mp empty) (Nat.not_le.mpr part)
        · exact rest p hp
      · exact ih _ rest

/-- What a write takes is the front of what waits in the queue. -/
theorem writePacket_good {t : Trans σ ζ} (some : t.writequeue ≠ [])
    (full : ∀ packet ∈ t.writequeue, packet ≠ []) {io : Io} (good : io.good) :
    ∃ n, writePacket t io = .ok ({ t with
      writequeue := packetQueueConsume t.writequeue n
      writequeueLen := t.writequeueLen - n }, t.writequeue.flatten.take n) := by
  have waiting : (!t.writequeue.isEmpty) = true := by
    simpa [List.isEmpty_iff] using some
  have filled : ((t.writequeue.take 50).all fun packet => 0 < packet.length) = true := by
    rw [List.all_eq_true]
    intro packet mem
    exact decide_eq_true (List.length_pos_iff.mpr (full packet (List.mem_of_mem_take mem)))
  have iov : packetQueueToIovec t.writequeue = .ok (t.writequeue.take 50) := by
    simp only [packetQueueToIovec, filled, dropbearAssert_ok, bind, Except.bind, pure, Except.pure]
  cases io with
  | failed | closed => cases good
  | again =>
    refine ⟨0, ?_⟩
    have same : packetQueueConsume t.writequeue 0 = t.writequeue := by
      cases t.writequeue <;> rfl
    rw [same]
    simp [writePacket, waiting, dropbearAssert_ok, iov, bind, Except.bind, pure, Except.pure]
  | upto n =>
    have front : ((t.writequeue.take 50).flatten.take n) =
        t.writequeue.flatten.take ((t.writequeue.take 50).flatten.take n).length := by
      have split : t.writequeue.flatten =
          (t.writequeue.take 50).flatten ++ (t.writequeue.drop 50).flatten := by
        rw [← List.flatten_append, List.take_append_drop]
      rw [split, List.take_append_of_le_length (List.length_take_le' _ _)]
      exact List.prefix_iff_eq_take.mp (List.take_prefix _ _)
    refine ⟨((t.writequeue.take 50).flatten.take n).length, ?_⟩
    rw [← front]
    simp [writePacket, waiting, dropbearAssert_ok, iov, bind, Except.bind, pure, Except.pure]

/-! ### The sender -/

/-- What waits for the end of a key exchange. -/
structure Held (payload : Bytes) : Prop where
  sendable : Sendable payload
  ordinary : packetType payload ≠ sshMsgKexinit ∧ packetType payload ≠ sshMsgNewkeys ∧
    packetType payload ≠ sshMsgUserauthSuccess

/-- What has been sent is what has been delivered, what waits to be, and what is on its way. -/
structure Pipe.Sound (a : Agreed σ ζ) (R : σ → σ → Prop) (Z : ζ → ζ → Prop) (p : Pipe σ ζ) :
    Prop where
  held : ∀ payload ∈ p.trans.replyQueue, Held payload
  full : ∀ packet ∈ p.trans.writequeue, packet ≠ []
  stage : ∃ c pending bytes sofar,
    Stage a R Z c (p.trans.ctx p.transEpoch) p.recv pending bytes sofar ∧
    Agrees c p.recv p.recvEpoch ∧
    p.delivered ++ (p.recv.payload.toList ++ pending) = p.trans.sent ∧
    sofar ++ p.unread = bytes

section
variable {a : Agreed σ ζ} {R : σ → σ → Prop} {Z : ζ → ζ → Prop} {p : Pipe σ ζ}

theorem bufGetByte_some {payload : Bytes} (some : 0 < payload.length) :
    bufGetByte payload = .ok (packetType payload, payload.tail) := by
  cases payload with
  | nil => cases some
  | cons type rest => rfl

theorem encryptPacket_queued {t : Trans σ ζ} {payload : Bytes} (some : 0 < payload.length)
    (waits : (!t.dataallowed && !packetIsOkayKex (packetType payload)) = true) :
    encryptPacket t payload = .ok (enqueueReplyPacket t payload) := by
  simp only [encryptPacket, bufGetByte_some some, bind, Except.bind, if_pos waits, pure,
    Except.pure]

theorem encryptPacket_framed {t : Trans σ ζ} {payload clear packet : Bytes} {padlen : Nat}
    {keys : KeyContext σ ζ} (some : 0 < payload.length)
    (goes : (!t.dataallowed && !packetIsOkayKex (packetType payload)) = false)
    (framed : framePacket t.keys t.transseq t.authdone (fun i => t.random (t.drawn + i)) payload =
      .ok (clear, packet, padlen, keys)) :
    encryptPacket t payload = .ok (writebufEnqueue t payload clear packet padlen keys) := by
  simp [encryptPacket, bufGetByte_some some, bind, Except.bind, goes, framed, pure, Except.pure]

theorem Trans.after_replyQueue (t : Trans σ ζ) (k : KeyContext σ ζ) (strictKex : Bool)
    (type : UInt8) : (t.after k strictKex type).replyQueue = t.replyQueue ∧
      (t.after k strictKex type).writequeue = t.writequeue ∧
      (t.after k strictKex type).sent = t.sent := by
  unfold Trans.after
  split
  · exact ⟨rfl, rfl, rfl⟩
  · split
    · exact ⟨rfl, rfl, rfl⟩
    · split <;> exact ⟨rfl, rfl, rfl⟩

theorem Trans.ctx_after (t : Trans σ ζ) (epoch : Nat) (type : UInt8) :
    (t.after (a.sending (epoch + 1)) a.strictKex type).ctx (epochAfter epoch type) =
      (t.ctx epoch).after a type := by
  unfold Trans.after Ctx.after epochAfter
  by_cases kexinit : type = sshMsgKexinit
  · subst kexinit
    rfl
  · rw [if_neg kexinit]
    by_cases new : type = sshMsgNewkeys
    · rw [if_pos new, if_pos new, if_pos new]
      rfl
    · rw [if_neg new, if_neg new, if_neg new]
      split
      · rfl
      · rfl

theorem Trans.after_ordinary {payload : Bytes} (h : Held payload) (t : Trans σ ζ)
    (k : KeyContext σ ζ) (strictKex : Bool) (epoch : Nat) :
    t.after k strictKex (packetType payload) = t ∧
      epochAfter epoch (packetType payload) = epoch := by
  obtain ⟨kexinit, new, success⟩ := h.ordinary
  exact ⟨by rw [Trans.after, if_neg kexinit, if_neg new, if_neg success],
    by rw [epochAfter, if_neg new]⟩

/-- A payload that becomes a packet is the last of the chain. -/
theorem Pipe.Sound.framed (h : p.Sound a R Z)
    (rings : ∀ e, Paired R Z (a.sending e) (a.receiving e)) {payload : Bytes}
    (sendable : Sendable payload)
    (goes : (!p.trans.dataallowed && !packetIsOkayKex (packetType payload)) = false) :
    ∃ t, encryptPacket p.trans payload = .ok t ∧ t.dataallowed = p.trans.dataallowed ∧
      t.replyQueue = p.trans.replyQueue ∧ t.sent = p.trans.sent ++ [payload] ∧
      Pipe.Sound a R Z { p with
        trans := t.after (a.sending (p.transEpoch + 1)) a.strictKex (packetType payload)
        transEpoch := epochAfter p.transEpoch (packetType payload) } := by
  obtain ⟨c, pending, bytes, sofar, stage, agrees, sent, stream⟩ := h.stage
  obtain ⟨k, paired⟩ := stage.paired rings
  obtain ⟨clear, packet, padlen, keys, kn, framed, gives, next⟩ :=
    paired.framed p.trans.transseq p.trans.authdone (fun i => p.trans.random (p.trans.drawn + i))
      sendable.1 sendable.2
  have filled : packet ≠ [] := by
    obtain ⟨-, data, _, kb, ko, opens, -⟩ := gives
    have := opens.block
    have := paired.block
    have := paired.blocksize
    rintro rfl
    rw [List.length_nil] at *
    omega
  have made : Made (p.trans.ctx p.transEpoch) packet payload keys :=
    ⟨sendable, _, clear, padlen, framed⟩
  refine ⟨_, encryptPacket_framed sendable.1 goes framed, rfl, rfl, rfl, ?_⟩
  obtain ⟨queue, packets, all⟩ := Trans.after_replyQueue
    (writebufEnqueue p.trans payload clear packet padlen keys) (a.sending (p.transEpoch + 1))
    a.strictKex (packetType payload)
  constructor
  · dsimp only
    rw [queue]
    exact h.held
  · dsimp only
    rw [packets]
    intro q mem
    rcases List.mem_append.mp mem with mem | mem
    · exact h.full q mem
    · rw [List.mem_singleton.mp mem]
      exact filled
  · refine ⟨c, pending ++ [payload], bytes ++ packet, sofar, ?_, agrees, ?_, ?_⟩
    · dsimp only
      rw [Trans.ctx_after]
      exact stage.extend made
    · dsimp only
      rw [all, ← List.append_assoc p.recv.payload.toList, ← List.append_assoc, sent]
      rfl
    · unfold Pipe.unread at stream ⊢
      dsimp only
      rw [packets, ← stream]
      simp [writebufEnqueue, List.append_assoc]

/-- All that waits goes out behind what has been sent. -/
theorem Pipe.Sound.flushed (rings : ∀ e, Paired R Z (a.sending e) (a.receiving e))
    {queue : List Bytes} : ∀ {p : Pipe σ ζ}, p.Sound a R Z → p.trans.dataallowed = true →
      (∀ payload ∈ queue, Held payload) →
      ∃ t, queue.foldlM encryptPacket p.trans = .ok t ∧ t.sent = p.trans.sent ++ queue ∧
        Pipe.Sound a R Z { p with trans := t } := by
  induction queue with
  | nil => exact fun h _ _ => ⟨_, rfl, (List.append_nil _).symm, h⟩
  | cons payload queue ih =>
    intro p h allowed held
    have first := held payload List.mem_cons_self
    have goes : (!p.trans.dataallowed && !packetIsOkayKex (packetType payload)) = false := by
      rw [allowed]
      rfl
    obtain ⟨t, encrypted, same, -, sent, sound⟩ := h.framed rings first.sendable goes
    obtain ⟨after, epoch⟩ := t.after_ordinary first (a.sending (p.transEpoch + 1)) a.strictKex
      p.transEpoch
    rw [after, epoch] at sound
    obtain ⟨t', flushed, sent', sound'⟩ := ih sound (same.trans allowed)
      (fun q mem => held q (List.mem_cons_of_mem _ mem))
    refine ⟨t', ?_, ?_, sound'⟩
    · simp only [List.foldlM_cons, encrypted, bind, Except.bind, flushed]
    · rw [sent']
      dsimp only
      rw [sent, List.append_assoc]
      rfl

/-- The socket does not fail in this event. -/
def Event.good : Event → Bool
  | .write io => io.good
  | .read first second => first.good && second.good
  | .send _ | .flush | .take => true

theorem Pipe.Sound.send (h : p.Sound a R Z)
    (rings : ∀ e, Paired R Z (a.sending e) (a.receiving e)) {payload : Bytes}
    (possible : p.Possible (.send payload)) :
    ∃ p', p.turn a (.send payload) = .ok p' ∧ p'.Sound a R Z := by
  obtain ⟨some, short, outside⟩ := possible
  by_cases waits : (!p.trans.dataallowed && !packetIsOkayKex (packetType payload)) = true
  · -- it is held back, and is none of those that change anything
    have held : Held payload := by
      simp only [Bool.and_eq_true, Bool.not_eq_true'] at waits
      have never : ¬ p.trans.dataallowed = true := by rw [waits.1]; decide
      refine ⟨⟨some, short⟩, fun kexinit => never (outside (.inl kexinit)), ?_,
        fun success => never (outside (.inr success))⟩
      intro new
      rw [new] at waits
      exact absurd waits.2 (by decide)
    obtain ⟨after, epoch⟩ := (enqueueReplyPacket p.trans payload).after_ordinary held
      (a.sending (p.transEpoch + 1)) a.strictKex p.transEpoch
    refine ⟨{ p with trans := enqueueReplyPacket p.trans payload }, ?_, ?_, h.full, h.stage⟩
    · simp only [Pipe.turn, encryptPacket_queued some waits, bind, Except.bind, after, epoch, pure,
        Except.pure]
    · intro q mem
      rcases List.mem_append.mp mem with mem | mem
      · exact h.held q mem
      · rw [List.mem_singleton.mp mem]
        exact held
  · obtain ⟨t, encrypted, -, -, -, sound⟩ := h.framed rings ⟨some, short⟩ (by simpa using waits)
    refine ⟨_, ?_, sound⟩
    simp only [Pipe.turn, encrypted, bind, Except.bind, pure, Except.pure]

theorem Pipe.Sound.flush (h : p.Sound a R Z)
    (rings : ∀ e, Paired R Z (a.sending e) (a.receiving e)) :
    ∃ p', p.turn a .flush = .ok p' ∧ p'.Sound a R Z := by
  by_cases allowed : p.trans.dataallowed = true
  · obtain ⟨t, flushed, -, sound⟩ := h.flushed rings allowed h.held
    refine ⟨{ p with trans := { t with replyQueue := [] } }, ?_, ?_, sound.full, sound.stage⟩
    · simp [Pipe.turn, maybeFlushReplyQueue, allowed, flushed, bind, Except.bind, pure, Except.pure]
    · intro q mem
      cases mem
  · refine ⟨p, ?_, h⟩
    simp [Pipe.turn, maybeFlushReplyQueue, allowed, bind, Except.bind, pure, Except.pure]

theorem Pipe.Sound.write (h : p.Sound a R Z) {io : Io} (some : p.trans.writequeue ≠ [])
    (good : io.good) : ∃ p', p.turn a (.write io) = .ok p' ∧ p'.Sound a R Z := by
  obtain ⟨n, written⟩ := writePacket_good some h.full good
  obtain ⟨c, pending, bytes, sofar, stage, agrees, sent, stream⟩ := h.stage
  have turned : p.turn a (.write io) = .ok { p with
      trans := { p.trans with
        writequeue := packetQueueConsume p.trans.writequeue n
        writequeueLen := p.trans.writequeueLen - n }
      wire := p.wire ++ p.trans.writequeue.flatten.take n } := by
    simp only [Pipe.turn, written, bind, Except.bind, pure, Except.pure]
  refine ⟨_, turned, h.held, consume_full _ _ h.full, c, pending, bytes, sofar, stage, agrees, sent,
    ?_⟩
  rw [← stream]
  unfold Pipe.unread
  dsimp only
  rw [flatten_consume, List.append_assoc p.wire, List.take_append_drop]

theorem Pipe.Sound.read (h : p.Sound a R Z) {first second : Io} (none : p.recv.payload = none)
    (good : first.good) (good' : second.good) :
    ∃ p', p.turn a (.read first second) = .ok p' ∧ p'.Sound a R Z := by
  obtain ⟨c, pending, bytes, sofar, stage, agrees, sent, stream⟩ := h.stage
  obtain ⟨r, wire, read, c', pending', bytes', sofar', stage', agrees', order, stream'⟩ :=
    stage.reads agrees none p.wire p.trans.writequeue.flatten stream good good'
  have turned : p.turn a (.read first second) = .ok { p with recv := r, wire } := by
    simp only [Pipe.turn, read, bind, Except.bind, pure, Except.pure]
  refine ⟨_, turned, h.held, h.full, c', pending', bytes', sofar', stage', agrees', ?_, stream'⟩
  dsimp only
  rw [order]
  rw [none] at sent
  exact sent

theorem Pipe.Sound.take (h : p.Sound a R Z)
    (rings : ∀ e, Paired R Z (a.sending e) (a.receiving e)) (some : p.recv.payload ≠ none) :
    ∃ p', p.turn a .take = .ok p' ∧ p'.Sound a R Z := by
  obtain ⟨c, pending, bytes, sofar, stage, agrees, sent, stream⟩ := h.stage
  cases stage with
  | start _ _ none => exact absurd none some
  | body _ _ _ _ _ none => exact absurd none some
  | @ready payload _ _ waiting paired empty chain =>
    have turned : p.turn a .take = .ok { p with
        recv := { p.recv with payload := none }.after (a.receiving (p.recvEpoch + 1)) a.strictKex
          (packetType payload)
        recvEpoch := epochAfter p.recvEpoch (packetType payload)
        delivered := p.delivered ++ [payload] } := by
      simp only [Pipe.turn, waiting]
    refine ⟨_, turned, h.held, h.full, c.after a (packetType payload), pending, bytes, [], ?_, ?_,
      ?_, stream⟩
    · have paired' := Ctx.after_paired (r := { p.recv with payload := none }) rings paired
        agrees.epoch (packetType payload)
      refine .start paired' ⟨rfl, ?_, .inr ⟨rfl, ?_⟩⟩ ?_ chain
      · rw [paired'.blocksize]
        exact Nat.lt_of_lt_of_le (by decide) paired'.block.1
      · unfold Recv.after
        split
        · exact empty
        · split
          · exact empty
          · exact empty
      · unfold Recv.after
        split
        · rfl
        · split
          · rfl
          · rfl
    · unfold Ctx.after Recv.after epochAfter
      by_cases new : packetType payload = sshMsgNewkeys
      · rw [if_pos new, if_pos new, if_pos new]
        constructor
        · dsimp only
          rw [agrees.seq]
        · exact agrees.authdone
        · dsimp only
          rw [agrees.epoch]
      · rw [if_neg new, if_neg new, if_neg new]
        split
        · exact ⟨agrees.seq, rfl, agrees.epoch⟩
        · exact ⟨agrees.seq, agrees.authdone, agrees.epoch⟩
    · have consumed : ({ p.recv with payload := none }.after (a.receiving (p.recvEpoch + 1))
          a.strictKex (packetType payload)).payload = none := by
        unfold Recv.after
        split
        · rfl
        · split
          · rfl
          · rfl
      dsimp only
      rw [consumed, ← sent, waiting]
      simp

/-- An event in which the socket does not fail does not end the session. -/
theorem Pipe.Sound.turn (h : p.Sound a R Z)
    (rings : ∀ e, Paired R Z (a.sending e) (a.receiving e)) {ev : Event} (possible : p.Possible ev)
    (good : ev.good) : ∃ p', p.turn a ev = .ok p' ∧ p'.Sound a R Z := by
  cases ev with
  | send payload => exact h.send rings possible
  | flush => exact h.flush rings
  | write io => exact h.write possible good
  | read first second =>
    simp only [Event.good, Bool.and_eq_true] at good
    exact h.read possible good.1 good.2
  | take => exact h.take rings possible

/-! ### Sockets that fail -/

theorem readSome_ok {wire : Bytes} {maxlen : Nat} {io : Io} {r : Option (Bytes × Bytes)}
    (h : readSome wire maxlen io = .ok r) : io.good := by
  cases io with
  | again | upto => rfl
  | failed | closed => cases h

theorem readRest_ok {s : Recv σ ζ} {wire : Bytes} {io : Io} {buf : Readbuf}
    {r : Recv σ ζ × Bytes} (h : readRest s wire io buf = .ok r) :
    ∃ io', io'.good ∧ readRest s wire io' buf = .ok r := by
  by_cases complete : buf.len - buf.data.length = 0
  · refine ⟨.again, rfl, ?_⟩
    rw [readRest] at h ⊢
    rwa [if_pos complete] at h ⊢
  · refine ⟨io, ?_, h⟩
    rw [readRest] at h
    simp only [if_neg complete] at h
    obtain ⟨_, some, -⟩ := bind_ok.mp h
    exact readSome_ok some

/-- Calls that fail can only end the session, so a read that does not is also one with calls
that do not fail. -/
theorem readPacket_ok {s : Recv σ ζ} {wire : Bytes} {first second : Io} {r : Recv σ ζ × Bytes}
    (h : readPacket s wire first second = .ok r) :
    ∃ first' second', first'.good ∧ second'.good ∧ readPacket s wire first' second' = .ok r := by
  cases begun : s.begun with
  | some buf =>
    simp only [readPacket, begun] at h
    obtain ⟨io, good, h⟩ := readRest_ok h
    exact ⟨.again, io, rfl, good, by simpa only [readPacket, begun] using h⟩
  | none =>
    simp only [readPacket, begun] at h
    obtain ⟨⟨s', wire', ready⟩, init, h⟩ := bind_ok.mp h
    have good : first.good := by
      obtain ⟨_, some, -⟩ := bind_ok.mp init
      exact readSome_ok some
    cases buf : s'.readbuf with
    | none =>
      refine ⟨first, .again, good, rfl, ?_⟩
      simp only [readPacket, begun, init, bind, Except.bind, buf]
      simpa only [buf] using h
    | some buf' =>
      cases ready with
      | false =>
        refine ⟨first, .again, good, rfl, ?_⟩
        simp only [readPacket, begun, init, bind, Except.bind, buf]
        simpa only [buf] using h
      | true =>
        simp only [buf] at h
        obtain ⟨io, good', h⟩ := readRest_ok h
        refine ⟨first, io, good, good', ?_⟩
        simp only [readPacket, begun, init, bind, Except.bind, buf]
        exact h

theorem Pipe.Sound.step (h : p.Sound a R Z)
    (rings : ∀ e, Paired R Z (a.sending e) (a.receiving e)) {ev : Event} (possible : p.Possible ev)
    {p' : Pipe σ ζ} (step : p.step a ev = some p') : p'.Sound a R Z := by
  have ok := ok_of_toOption step
  obtain ⟨ev', good, possible', same⟩ : ∃ ev', ev'.good = true ∧ p.Possible ev' ∧
      p.turn a ev' = .ok p' := by
    cases ev with
    | send | flush | take => exact ⟨_, rfl, possible, ok⟩
    | write io =>
      refine ⟨.write io, ?_, possible, ok⟩
      cases io with
      | again | upto => rfl
      | failed | closed =>
        obtain ⟨_, written, -⟩ := bind_ok.mp ok
        obtain ⟨_, -, written⟩ := bind_ok.mp written
        obtain ⟨_, -, written⟩ := bind_ok.mp written
        cases written
    | read first second =>
      obtain ⟨r, read, rest⟩ := bind_ok.mp ok
      obtain ⟨first', second', good, good', read'⟩ := readPacket_ok read
      refine ⟨.read first' second', by simp [Event.good, good, good'], possible, ?_⟩
      simp only [Pipe.turn, read', bind, Except.bind]
      exact rest
  obtain ⟨q, turn, sound⟩ := h.turn rings possible' good
  rw [same] at turn
  cases turn
  exact sound

/-! ### Runs -/

/-- Both sides before the first packet. -/
def Pipe.start (a : Agreed σ ζ) (random : Nat → UInt8) : Pipe σ ζ where
  trans := { keys := a.sending 0, random }
  recv := { keys := a.receiving 0 }

theorem start_sound (rings : ∀ e, Paired R Z (a.sending e) (a.receiving e)) (random : Nat → UInt8) :
    (Pipe.start a random).Sound a R Z := by
  constructor
  · intro q mem
    cases mem
  · intro q mem
    cases mem
  · refine ⟨_, [], [], [], .start (rings 0) ⟨rfl, ?_, .inr ⟨rfl, rfl⟩⟩ rfl (.nil _),
      ⟨rfl, rfl, rfl⟩, rfl, rfl⟩
    have block : 8 ≤ (a.receiving 0).blocksize := (rings 0).blocksize.symm ▸ (rings 0).block.1
    exact Nat.lt_of_lt_of_le (by decide) block

theorem run_sound (rings : ∀ e, Paired R Z (a.sending e) (a.receiving e)) {random : Nat → UInt8}
    {evs : List Event} (run : Run (Pipe.step a) Pipe.Possible (Pipe.start a random) evs p) :
    p.Sound a R Z := by
  apply run.invariant (I := fun p => p.Sound a R Z)
  · exact start_sound rings random
  · intro q ev q' sound possible step
    exact sound.step rings possible step

/-! ### A run without encryption -/

def unkeyed : Agreed Unit Unit where
  sending _ := noneKeys
  receiving _ := noneKeys

theorem noneKeys_paired (e : Nat) :
    Paired (fun _ _ => True) (fun _ _ => True) (unkeyed.sending e) (unkeyed.receiving e) where
  blocksize := rfl
  hashsize := rfl
  mode := rfl
  hmac := rfl
  algoComp := rfl
  block := ⟨Nat.le_refl 8, Nat.le_add_right 8 8⟩
  hash := Nat.zero_le 64
  digest _ := Nat.zero_le _
  lawful := fun s t _ b c _ _ => ⟨b, c, s, t, t, rfl, rfl, rfl, rfl, rfl, trivial⟩
  flates := fun z z' _ src _ some _ _ =>
    ⟨src, z, z', rfl, some, Nat.le_add_right _ _, rfl, trivial⟩
  cipherState := trivial
  zstream := trivial

instance Pipe.decidablePossible (p : Pipe σ ζ) (ev : Event) : Decidable (p.Possible ev) := by
  cases ev <;> unfold Pipe.Possible <;> infer_instance

/-- Three packets, one of them for new keys, through a socket that cuts them at will. -/
def pieces : List Event :=
  [.send [5, 1, 2], .send [21], .send [6], .write (.upto 20), .read (.upto 3) .again,
    .read (.upto 9) (.upto 2), .read .again (.upto 90), .take, .write (.upto 90),
    .read (.upto 8) (.upto 8), .take, .read (.upto 8) (.upto 8), .take]

def piecewise : Option (Pipe Unit Unit) :=
  pieces.foldlM (guarded (Pipe.step unkeyed) Pipe.Possible) (Pipe.start unkeyed fun _ => 0)

/-- What is delivered is what was sent first, and all of it where nothing is left. -/
theorem payloads_in_order (rings : ∀ e, Paired R Z (a.sending e) (a.receiving e))
    {random : Nat → UInt8} {evs : List Event}
    (run : Run (Pipe.step a) Pipe.Possible (Pipe.start a random) evs p) :
    p.delivered <+: p.trans.sent ∧
      (p.unread = [] → p.recv.payload = none → p.delivered = p.trans.sent) := by
  have sound := run_sound rings run
  obtain ⟨c, pending, bytes, sofar, stage, -, sent, stream⟩ := sound.stage
  refine ⟨⟨_, sent⟩, fun empty none => ?_⟩
  rw [empty, List.append_nil] at stream
  have nothing : pending = [] := by
    cases stage with
    | ready some => rw [none] at some; cases some
    | body _ _ _ body short =>
      rw [stream, List.length_append] at short
      omega
    | start paired start _ chain =>
      cases chain with
      | nil => rfl
      | cons made _ =>
        -- a whole packet would have been read
        obtain ⟨kn, ⟨-, data, _, kb, ko, opens, -⟩, -⟩ := made.gives paired
        have := opens.block
        have := start.short
        rw [stream, List.length_append] at this
        omega
  rw [← sent, none, nothing]
  simp

theorem payloads_in_order_pieces : ∃ p, Run (Pipe.step unkeyed) Pipe.Possible
    (Pipe.start unkeyed fun _ => 0) pieces p ∧ p.delivered = [[5, 1, 2], [21], [6]] ∧
    p.delivered <+: p.trans.sent ∧
      (p.unread = [] → p.recv.payload = none → p.delivered = p.trans.sent) := by
  obtain ⟨p, eq⟩ : ∃ p, piecewise = some p := Option.isSome_iff_exists.mp (by decide)
  have run := run_of_foldlM eq
  have delivered : piecewise.map (·.delivered) = some [[5, 1, 2], [21], [6]] := by decide
  rw [eq] at delivered
  exact ⟨p, run, Option.some.inj delivered, payloads_in_order noneKeys_paired run⟩

/-- As long as the socket does not fail, nothing that can happen ends the session. -/
theorem session_goes_on (rings : ∀ e, Paired R Z (a.sending e) (a.receiving e))
    {random : Nat → UInt8} {evs : List Event}
    (run : Run (Pipe.step a) Pipe.Possible (Pipe.start a random) evs p) {ev : Event}
    (possible : p.Possible ev) (good : ev.good) : ∃ p', p.turn a ev = .ok p' := by
  obtain ⟨p', turn, -⟩ := (run_sound rings run).turn rings possible good
  exact ⟨p', turn⟩

/-- All of it but the end of the last packet. -/
def mostPieces : List Event :=
  pieces.take 11 ++ [.read (.upto 3) .again]

def halfway : Option (Pipe Unit Unit) :=
  mostPieces.foldlM (guarded (Pipe.step unkeyed) Pipe.Possible) (Pipe.start unkeyed fun _ => 0)

/-- Both sides have new keys and three bytes of a packet are there when the rest of it comes. -/
theorem session_goes_on_halfway : ∃ p, Run (Pipe.step unkeyed) Pipe.Possible
    (Pipe.start unkeyed fun _ => 0) mostPieces p ∧
    p.recvEpoch = 1 ∧ p.delivered = [[5, 1, 2], [21]] ∧ p.recv.readbuf.isSome ∧
    ∃ p', p.turn unkeyed (.read (.upto 9) (.upto 90)) = .ok p' := by
  obtain ⟨p, eq⟩ : ∃ p, halfway = some p := Option.isSome_iff_exists.mp (by decide)
  have reached : halfway.all (fun p => p.recvEpoch = 1 ∧ p.delivered = [[5, 1, 2], [21]] ∧
      p.recv.readbuf.isSome ∧ p.recv.payload = none) = true := by
    decide
  rw [eq, Option.all_some, decide_eq_true_iff] at reached
  obtain ⟨epoch, delivered, some, none⟩ := reached
  exact ⟨p, run_of_foldlM eq, epoch, delivered, some,
    session_goes_on noneKeys_paired (run_of_foldlM eq) none rfl⟩

end

end Ikofi.Packet
