import Ikofi.Lib.Runs
import Ikofi.Flow.Handling

/-!
# A channel between the server and a client

The server's end and a client are joined by two queues of messages, so either
side may be any number of messages behind the other. A client that keeps to the
rules for channels sends no more data than it has seen window for, and nothing
that its own messages rule out. What holds between the two sides is kept by every
event, as long as the client keeps at least to the second rule.
-/

namespace Ikofi.Flow

open Wire Runs

/-- What a client sends on a channel. A command is a request for a shell, a program or a
subsystem. -/
inductive In
  | data (s : Bytes)
  | windowAdjust (incr : Nat)
  | command (wantreply : Bool)
  | request (wantreply : Bool)
  | eof
  | close
  deriving DecidableEq, Repr

/-- The data of a message. -/
def In.bytes : In → Bytes
  | .data s => s
  | _ => []

/-- By how much a message opens the server's window. The number has 32 bits. -/
def In.credit : In → Nat
  | .windowAdjust incr => incr % 0x100000000
  | _ => 0

/-- Whether a message may come after another one: nothing after a close message, no data
after the end of the data, and no command once there has been data for it. -/
def In.mayFollow : In → In → Bool
  | .close, _ => false
  | .eof, .data _ | .eof, .eof | .eof, .command _ => false
  | .data _, .command _ => false
  | _, _ => true

def bytes (l : List In) : Bytes := (l.map In.bytes).flatten

def granted (l : List In) : Nat := total In.credit l

@[simp] theorem bytes_append (l k : List In) : bytes (l ++ k) = bytes l ++ bytes k := by
  simp [bytes]

@[simp] theorem bytes_singleton (m : In) : bytes [m] = m.bytes := by simp [bytes]

@[simp] theorem granted_append (l k : List In) : granted (l ++ k) = granted l + granted k :=
  total_append In.credit l k

@[simp] theorem granted_singleton (m : In) : granted [m] = m.credit := by simp [granted, total]

/-- What the operating system answers while a message is handled, and how a request that
starts nothing ends. -/
structure Answer where
  write : Write := .again
  pending : Pending := {}
  spawn : Option Spawn := none
  ret : Bool := false

/-- `getchannel_msg`, for a channel that may have left its slot. -/
def getchannelMsg (kind : Option String) (e : End) : Except Halt End :=
  if e.present then .ok e
  else match kind with
    | some kind => dropbearExit (kind ++ " for unknown channel")
    | none => dropbearExit "Unknown channel"

/-- The handler of a message that names the channel. -/
def handle (o : Opts) (a : Answer) (e : End) : In → Except Halt (Option End)
  | .data s => do commonRecvMsgChannelData o a.write (← getchannelMsg none e) (putString s)
  | .windowAdjust incr => do
    return some (← recvMsgChannelWindowAdjust (← getchannelMsg none e) (store32 incr))
  | .command wantreply => do
    let (ret, e) := startCommand (← getchannelMsg none e) a.spawn
    return some (sendReply ret wantreply e)
  | .request wantreply => do return some (sendReply a.ret wantreply (← getchannelMsg none e))
  | .eof => do return some (recvMsgChannelEof a.pending (← getchannelMsg (some "EOF") e))
  | .close => do return some (recvMsgChannelClose a.pending (← getchannelMsg (some "Close") e))

/-- Both sides: all the client has sent and how much of it has arrived, and how many of the
server's messages the client has seen. -/
structure Link where
  e : End
  client : List In := []
  arrived : Nat := 0
  seen : Nat := 0
  deriving DecidableEq, Repr

/-- The kinds of channels: a session, or a connection that has been made. -/
inductive Kind
  | session
  | stream (sock : Nat)

/-- A channel that has just been opened with the client's window and packet length. -/
def openLink (o : Opts) (kind : Kind) (transwindow transmaxpacket : Nat) : Except Halt Link := do
  let ch ← newchannel o transwindow (min transmaxpacket transMaxPayloadLen)
  match kind with
  | .session => return { e := { chan := { ch with session := some {} } } }
  | .stream sock =>
    return { e := { chan := { ch with writefd := sock, readfd := sock, bidirFd := true } } }

/-- A message is sent by the client, arrives, or is seen by the client; or something happens
on the server's side. -/
inductive Event
  | sends (m : In)
  | arrives (a : Answer)
  | sees
  | io (io : Io)
  | exited (info : ExitInfo)

def recvMaxPayloadLen : Nat := 128 * 1024

/-- What comes of an event, where it can happen. A packet holds no more than a payload. -/
def Link.turn (o : Opts) (l : Link) : Event → Option (Except Halt (Option Link))
  | .sends m =>
    if m.bytes.length ≤ recvMaxPayloadLen then
      some (.ok (some { l with client := l.client ++ [m] }))
    else none
  | .arrives a =>
    (l.client[l.arrived]?).map fun m =>
      (handle o a l.e m).map (Option.map fun e => { l with e := e, arrived := l.arrived + 1 })
  | .sees =>
    if l.seen < l.e.sent.length then some (.ok (some { l with seen := l.seen + 1 })) else none
  | .io io =>
    if l.e.present then some ((channelio o io l.e).map fun e => some { l with e := e }) else none
  | .exited info => some (.ok (some { l with e := childExited info l.e }))

def Link.step (o : Opts) (l : Link) (ev : Event) : Option Link :=
  match l.turn o ev with
  | some (.ok next) => next
  | _ => none

/-- The client sends nothing that its own messages rule out. -/
def Ordered (l : Link) : Event → Prop
  | .sends m => l.client.all (·.mayFollow m) = true
  | _ => True

/-- The client, too, sends no more data than fits in the window that it has seen. -/
def Obedient (o : Opts) (l : Link) : Event → Prop
  | .sends m => l.client.all (·.mayFollow m) = true ∧
    (bytes (l.client ++ [m])).length ≤ o.recvWindow + credits (l.e.sent.take l.seen)
  | _ => True

instance (l : Link) (ev : Event) : Decidable (Ordered l ev) := by
  cases ev <;> unfold Ordered <;> infer_instance

instance (o : Opts) (l : Link) (ev : Event) : Decidable (Obedient o l ev) := by
  cases ev <;> unfold Obedient <;> infer_instance

/-- The accounts of an end that has lost nothing of `s`. -/
structure Passed (o : Opts) (s : Bytes) (e : End) : Prop where
  order : s = e.written ++ e.chan.writebuf.contents
  stock : e.chan.recvwindow + e.chan.recvdonelen + e.chan.writebuf.used = o.recvWindow
  credit : o.recvWindow + credits e.sent = e.chan.recvwindow + s.length

/-- What holds between the two sides. -/
structure Held (o : Opts) (transwindow transmaxpacket : Nat) (l : Link) : Prop where
  stocked : Stocked o l.e.chan
  orderly : Orderly l.e
  arrived : l.arrived ≤ l.client.length
  seen : l.seen ≤ l.e.sent.length
  order : l.client.Pairwise fun a b => a.mayFollow b = true
  payload : ∀ m ∈ l.client, m.bytes.length ≤ recvMaxPayloadLen
  window : o.recvWindow + credits l.e.sent ≤
    l.e.chan.recvwindow + (bytes (l.client.take l.arrived)).length
  recvEof : l.e.chan.recvEof = true ↔
    In.eof ∈ l.client.take l.arrived ∨ In.close ∈ l.client.take l.arrived
  recvClose : l.e.chan.recvClose = true ↔ In.close ∈ l.client.take l.arrived
  unstarted : l.e.chan.Idle → Passed o [] l.e
  lossless : 0 ≤ l.e.chan.writefd → Passed o (bytes (l.client.take l.arrived)) l.e
  front : l.e.written <+: bytes (l.client.take l.arrived)
  ours : loads l.e.sent + l.e.chan.transwindow ≤
    transwindow + granted (l.client.take l.arrived)
  clamped : min 0xffffffff (transwindow + granted (l.client.take l.arrived)) ≤
    loads l.e.sent + l.e.chan.transwindow
  maxpacket : l.e.chan.transmaxpacket = min transmaxpacket transMaxPayloadLen
  packets : ∀ m ∈ l.e.sent, m.load ≤ min transmaxpacket transMaxPayloadLen

theorem openLink_held {o : Opts} {kind : Kind} {transwindow transmaxpacket : Nat} {l : Link}
    (h : openLink o kind transwindow transmaxpacket = .ok l) :
    Held o transwindow transmaxpacket l := by
  obtain ⟨ch, new, stocked, window, empty, fresh⟩ :=
    newchannel_ok o transwindow (min transmaxpacket transMaxPayloadLen)
  have used : ch.writebuf.used = 0 := by
    rw [← Circbuffer.length_contents stocked.buf, empty, List.length_nil]
  simp only [openLink, new, bind, Except.bind] at h
  cases kind with
  | session =>
    obtain rfl := Except.ok.inj h
    rw [fresh]
    refine ⟨⟨stocked.buf, stocked.size, by simp [used], .inl rfl⟩,
      ⟨rfl, by simp, by simp, by simp, by simp, by simp, ?_, by simp, by simp⟩, by simp, by simp,
      by simp, by simp, by simp, by simp, by simp, fun _ => ⟨by simp [empty], by simp [used], rfl⟩,
      fun fd => absurd fd (show ¬ (0 : Int) ≤ fdUninit by decide), ⟨[], rfl⟩, by simp,
      by simp [granted, total, Nat.min_le_right], rfl, by simp⟩
    rintro _ ⟨⟩ -
    rfl
  | stream sock =>
    obtain rfl := Except.ok.inj h
    rw [fresh]
    refine ⟨⟨stocked.buf, stocked.size, by simp [used], .inl rfl⟩,
      ⟨rfl, by simp, by simp, by simp, by simp, by simp, by simp, by simp, ?_⟩, by simp, by simp,
      by simp, by simp, by simp, by simp, by simp, fun _ => ⟨by simp [empty], by simp [used], rfl⟩,
      fun _ => ⟨by simp [empty, bytes], by simp [used], rfl⟩, ⟨[], rfl⟩, by simp,
      by simp [granted, total, Nat.min_le_right], rfl, by simp⟩
    rintro ⟨-, _, ⟨⟩, -⟩

section
variable {o : Opts} {transwindow transmaxpacket : Nat} {l : Link}

theorem take_arrived {m : In} (hm : l.client[l.arrived]? = some m) :
    l.client.take (l.arrived + 1) = l.client.take l.arrived ++ [m] := by
  rw [List.take_add_one, hm, Option.toList_some]

/-- A descriptor that is good after an event was good before it. -/
theorem Effect.open_before {s : Bytes} {a b : End} (h : Effect o s a b)
    (fd : 0 ≤ b.chan.writefd) : 0 ≤ a.chan.writefd := by
  rcases h.writefd with same | closed
  · exact same ▸ fd
  · rw [closed] at fd
    exact absurd fd (by decide)

theorem Effect.good_passed {s t : Bytes} {a b : End} (h : Effect o s a b)
    (fd : 0 ≤ b.chan.writefd) (passed : Passed o t a) : Passed o (t ++ s) b := by
  obtain ⟨order, stock⟩ := h.good fd
  have credit := h.credit
  have before := passed.credit
  refine ⟨by rw [order, passed.order], stock.trans passed.stock, ?_⟩
  rw [List.length_append]
  omega

theorem Effect.quiet_passed {t : Bytes} {a b : End} (h : Effect o [] a b)
    (fd : a.chan.writefd < 0) (passed : Passed o t a) : Passed o t b := by
  obtain ⟨written, buf, window, done⟩ := h.quiet fd
  have credit := h.credit
  have before := passed.credit
  refine ⟨by rw [written, buf, passed.order], by rw [window, done, buf, passed.stock], ?_⟩
  rw [List.length_nil] at credit
  omega

/-- What an event on the server's side keeps. -/
theorem Held.onServer (h : Held o transwindow transmaxpacket l) {b : End} (orderly : Orderly b)
    (effect : Effect o [] l.e b) :
    Held o transwindow transmaxpacket { l with e := b } ∧ l.e.sent <+: b.sent := by
  obtain ⟨added, sent, max⟩ := effect.sent
  have credit := effect.credit
  have load := effect.load
  refine ⟨⟨effect.stocked h.stocked, orderly, h.arrived, ?_, h.order, h.payload, ?_, ?_, ?_,
    fun idle => ?_, fun fd => ?_, ?_, ?_, ?_, effect.maxpacket.trans h.maxpacket, ?_⟩, added,
    sent.symm⟩
  · have := h.seen
    simp only [sent, List.length_append]
    omega
  · have := h.window
    simp only [List.length_nil] at credit
    dsimp only
    omega
  · rw [effect.recvEof]
    exact h.recvEof
  · rw [effect.recvClose]
    exact h.recvClose
  · have before := effect.idle idle
    have fd : l.e.chan.writefd < 0 := by
      rw [(h.orderly.idle before).1]
      decide
    have passed := effect.quiet_passed fd (h.unstarted before)
    exact passed
  · have passed := effect.good_passed fd (h.lossless (effect.open_before fd))
    rwa [List.append_nil] at passed
  · by_cases fd : l.e.chan.writefd < 0
    · rw [(effect.quiet fd).1]
      exact h.front
    · have front := effect.front
      rwa [← (h.lossless (Int.not_lt.mp fd)).order, List.append_nil] at front
  · have := h.ours
    dsimp only
    omega
  · have := h.clamped
    dsimp only
    omega
  · intro m mem
    dsimp only at mem
    rw [sent] at mem
    rcases List.mem_append.mp mem with mem | mem
    · exact h.packets m mem
    · exact h.maxpacket ▸ max m mem

/-- The server's end when a message has been looked at, before anything is done for the
program. -/
structure Arriving (o : Opts) (l : Link) (m : In) (mid : End) : Prop where
  stocked : Stocked o mid.chan
  sent : mid.sent = l.e.sent
  recvwindow : mid.chan.recvwindow = l.e.chan.recvwindow
  transwindow : mid.chan.transwindow ≤ l.e.chan.transwindow + m.credit
  clamped : min 0xffffffff (l.e.chan.transwindow + m.credit) ≤ mid.chan.transwindow
  maxpacket : mid.chan.transmaxpacket = l.e.chan.transmaxpacket
  recvEof : mid.chan.recvEof = true ↔ l.e.chan.recvEof = true ∨ m = .eof ∨ m = .close
  recvClose : mid.chan.recvClose = true ↔ l.e.chan.recvClose = true ∨ m = .close
  written : mid.written = l.e.written
  idle : mid.chan.Idle → mid.chan.writefd < 0 ∧ Passed o [] mid
  lossless : 0 ≤ mid.chan.writefd → Passed o (bytes (l.client.take l.arrived)) mid

theorem Held.onArrival (h : Held o transwindow transmaxpacket l) {m : In}
    (hm : l.client[l.arrived]? = some m) {mid b : End} (arriving : Arriving o l m mid)
    (orderly : Orderly b) {s : Bytes} (effect : Effect o s mid b)
    (dropped : mid.chan.writefd < 0 → s = []) (taken : 0 ≤ mid.chan.writefd → s = m.bytes) :
    Held o transwindow transmaxpacket { l with e := b, arrived := l.arrived + 1 } ∧
      l.e.sent <+: b.sent := by
  obtain ⟨added, sent, max⟩ := effect.sent
  rw [arriving.sent] at sent
  have credit := effect.credit
  have load := effect.load
  rw [arriving.sent, arriving.recvwindow] at credit
  rw [arriving.sent] at load
  have now := take_arrived hm
  have short : s.length ≤ m.bytes.length := by
    by_cases fd : mid.chan.writefd < 0
    · simp [dropped fd]
    · simp [taken (Int.not_lt.mp fd)]
  refine ⟨⟨effect.stocked arriving.stocked, orderly, ?_, ?_, h.order, h.payload, ?_, ?_, ?_,
    fun idle => ?_, fun fd => ?_, ?_, ?_, ?_,
    effect.maxpacket.trans (arriving.maxpacket.trans h.maxpacket), ?_⟩, added, sent.symm⟩
  · exact (List.getElem?_eq_some_iff.mp hm).1
  · have := h.seen
    simp only [sent, List.length_append]
    omega
  · have := h.window
    simp only [now, bytes_append, bytes_singleton, List.length_append]
    omega
  · simp only [effect.recvEof, arriving.recvEof, h.recvEof, now, List.mem_append,
      List.mem_singleton]
    constructor
    · rintro ((eof | close) | rfl | rfl) <;> simp [*]
    · rintro ((eof | rfl) | (close | rfl)) <;> simp [*]
  · simp only [effect.recvClose, arriving.recvClose, h.recvClose, now, List.mem_append,
      List.mem_singleton, eq_comm]
  · obtain ⟨fd, passed⟩ := arriving.idle (effect.idle idle)
    obtain rfl := dropped fd
    exact effect.quiet_passed fd passed
  · have before := effect.open_before fd
    have passed := effect.good_passed fd (arriving.lossless before)
    rwa [taken before, ← bytes_singleton, ← bytes_append, ← now] at passed
  · rw [now, bytes_append, bytes_singleton]
    by_cases fd : mid.chan.writefd < 0
    · rw [(effect.quiet fd).1, arriving.written]
      exact h.front.trans (List.prefix_append _ _)
    · have fd := Int.not_lt.mp fd
      have front := effect.front
      rwa [← (arriving.lossless fd).order, taken fd] at front
  · have := h.ours
    have := arriving.transwindow
    simp only [now, granted_append, granted_singleton]
    omega
  · have := h.clamped
    have := arriving.clamped
    simp only [now, granted_append, granted_singleton]
    omega
  · intro x mem
    dsimp only at mem
    rw [sent] at mem
    rcases List.mem_append.mp mem with mem | mem
    · exact h.packets x mem
    · have := max x mem
      rwa [arriving.maxpacket, h.maxpacket] at this

/-- The client's messages do not rule out the one that arrives. -/
theorem Held.before (h : Held o transwindow transmaxpacket l) {m : In}
    (hm : l.client[l.arrived]? = some m) : ∀ k ∈ l.client.take l.arrived, k.mayFollow m = true := by
  intro k mem
  obtain ⟨i, hi, rfl⟩ := List.mem_take_iff_getElem.mp mem
  obtain ⟨bound, rfl⟩ := List.getElem?_eq_some_iff.mp hm
  exact List.pairwise_iff_getElem.mp h.order i l.arrived (by omega) bound (by omega)

theorem Held.present (h : Held o transwindow transmaxpacket l) {m : In}
    (hm : l.client[l.arrived]? = some m) : l.e.present = true := by
  cases present : l.e.present with
  | true => rfl
  | false =>
    have close := h.recvClose.mp (h.orderly.gone present).2
    exact absurd (h.before hm _ close) (by simp [In.mayFollow])

/-- A message that comes only before the end of the data finds it not reached. -/
theorem Held.eof_unset (h : Held o transwindow transmaxpacket l) {m : In}
    (hm : l.client[l.arrived]? = some m) (data : In.eof.mayFollow m = false) :
    l.e.chan.recvEof = false := by
  refine Bool.eq_false_iff.mpr fun eof => ?_
  rcases h.recvEof.mp eof with mem | mem
  · exact absurd (h.before hm _ mem) (by simp [data])
  · exact absurd (h.before hm _ mem) (by simp [In.mayFollow])

/-- A message that marks nothing and starts nothing leaves the end as it is. -/
theorem Held.arriving (h : Held o transwindow transmaxpacket l) {m : In} (eof : m ≠ .eof)
    (close : m ≠ .close) (plain : m.credit = 0) : Arriving o l m l.e :=
  ⟨h.stocked, rfl, rfl, Nat.le_add_right _ _, plain ▸ Nat.min_le_right _ _, rfl,
    by simp [eof, close], by simp [close], rfl,
    fun idle => ⟨by rw [(h.orderly.idle idle).1]; decide, h.unstarted idle⟩, h.lossless⟩

theorem Held.data (h : Held o transwindow transmaxpacket l) (a : Answer) {s : Bytes}
    (hm : l.client[l.arrived]? = some (.data s))
    (fits : 0 ≤ l.e.chan.writefd → s.length ≤ l.e.chan.recvwindow) :
    ∃ b, handle o a l.e (.data s) = .ok (some b) ∧
      Held o transwindow transmaxpacket { l with e := b, arrived := l.arrived + 1 } ∧
      l.e.sent <+: b.sent := by
  have eof := h.eof_unset hm rfl
  have arriving : Arriving o l (.data s) l.e := h.arriving (by simp) (by simp) rfl
  have reach : handle o a l.e (.data s) = commonRecvMsgChannelData o a.write l.e (putString s) := by
    simp only [handle, getchannelMsg, h.present hm, if_true, bind, Except.bind]
  rw [reach]
  by_cases fd : l.e.chan.writefd < 0
  · refine ⟨l.e, by simp [commonRecvMsgChannelData, eof, fd, pure, Except.pure], ?_⟩
    exact h.onArrival hm arriving h.orderly (Effect.refl l.e) (fun _ => rfl) fun good =>
      absurd fd (Int.not_lt.mpr good)
  · have fd := Int.not_lt.mp fd
    obtain ⟨b, data, served⟩ := recvMsgChannelData_served h.stocked fd eof a.write (fits fd)
    obtain ⟨orderly, effect⟩ := served.kept h.orderly fd
    exact ⟨b, data, h.onArrival hm arriving orderly effect
      (fun bad => absurd fd (Int.not_le.mpr bad)) fun _ => rfl⟩

theorem Held.data_over (h : Held o transwindow transmaxpacket l) (a : Answer) {s : Bytes}
    (hm : l.client[l.arrived]? = some (.data s)) (fd : 0 ≤ l.e.chan.writefd)
    (beyond : l.e.chan.recvwindow < s.length) :
    handle o a l.e (.data s) =
      dropbearExit (if cbufGetavail l.e.chan.writebuf < s.length then "Oversized packet"
        else "Failed assertion: channel->recvwindow >= datalen") := by
  have payload := h.payload _ (List.mem_of_getElem? hm)
  simp only [In.bytes, recvMaxPayloadLen] at payload
  have overrun := recvMsgChannelData_over o a.write fd (h.eof_unset hm rfl) (s := s) (by omega) beyond
  simp only [handle, getchannelMsg, h.present hm, if_true, bind, Except.bind, overrun]

theorem Held.windowAdjust (h : Held o transwindow transmaxpacket l) (a : Answer) {incr : Nat}
    (hm : l.client[l.arrived]? = some (.windowAdjust incr)) :
    ∃ b, handle o a l.e (.windowAdjust incr) = .ok (some b) ∧
      Held o transwindow transmaxpacket { l with e := b, arrived := l.arrived + 1 } ∧
      l.e.sent <+: b.sent := by
  have int : bufGetInt (store32 incr) = .ok (incr % 0x100000000, []) := by
    simpa using bufGetInt_store32 incr []
  set newwin := (l.e.chan.transwindow + incr % 0x100000000) % 0x100000000 with hnew
  set win := if newwin < l.e.chan.transwindow then 0xffffffff else newwin with hwin
  have reach : handle o a l.e (.windowAdjust incr) =
      .ok (some { l.e with chan := { l.e.chan with transwindow := win } }) := by
    simp only [handle, getchannelMsg, h.present hm, if_true, recvMsgChannelWindowAdjust, int, bind,
      Except.bind, pure, Except.pure, hwin, hnew]
  have orderly := h.orderly
  have marked : Orderly { l.e with chan := { l.e.chan with transwindow := win } } :=
    ⟨orderly.grammar, orderly.eofSent, orderly.closeSent, orderly.bidir, orderly.gone,
      orderly.closed, orderly.unborn, orderly.last, orderly.idle⟩
  have grown : win ≤ l.e.chan.transwindow + incr % 0x100000000 := by
    rw [hwin]
    split <;> omega
  -- a sum that does not fit is the largest number
  have least : min 0xffffffff (l.e.chan.transwindow + incr % 0x100000000) ≤ win := by
    rw [hwin]
    split <;> omega
  have marking : Arriving o l (.windowAdjust incr)
      { l.e with chan := { l.e.chan with transwindow := win } } :=
    ⟨⟨h.stocked.buf, h.stocked.size, h.stocked.room, h.stocked.owed⟩, rfl, rfl, grown, least, rfl,
      by simp, by simp, rfl,
      fun idle => ⟨by dsimp only; rw [(orderly.idle idle).1]; decide, (h.unstarted idle).order,
        (h.unstarted idle).stock, (h.unstarted idle).credit⟩,
      fun fd => ⟨(h.lossless fd).order, (h.lossless fd).stock, (h.lossless fd).credit⟩⟩
  exact ⟨_, reach, h.onArrival hm marking marked (Effect.refl _) (fun _ => rfl) fun _ => rfl⟩

theorem Held.command (h : Held o transwindow transmaxpacket l) (a : Answer) {wantreply : Bool}
    (hm : l.client[l.arrived]? = some (.command wantreply)) :
    ∃ b, handle o a l.e (.command wantreply) = .ok (some b) ∧
      Held o transwindow transmaxpacket { l with e := b, arrived := l.arrived + 1 } ∧
      l.e.sent <+: b.sent := by
  have eof := h.eof_unset hm rfl
  have none : bytes (l.client.take l.arrived) = [] := by
    refine List.flatten_eq_nil_iff.mpr fun s mem => ?_
    obtain ⟨k, earlier, rfl⟩ := List.mem_map.mp mem
    cases k with
    | data s => exact absurd (h.before hm _ earlier) (by simp [In.mayFollow])
    | windowAdjust | command | request | eof | close => rfl
  have arriving := h.arriving (m := .command wantreply) (by simp) (by simp) rfl
  refine ⟨sendReply (startCommand l.e a.spawn).1 wantreply (startCommand l.e a.spawn).2, ?_, ?_⟩
  · simp only [handle, getchannelMsg, h.present hm, if_true, bind, Except.bind, pure, Except.pure]
  rcases startCommand_kept h.orderly eof a.spawn with same | ⟨idle, orderly, -, w, r, x, c, started⟩
  · rw [same]
    obtain ⟨orderly, effect⟩ := sendReply_kept h.orderly (startCommand l.e a.spawn).1 wantreply
    exact h.onArrival hm arriving orderly effect (fun _ => rfl) fun _ => rfl
  · obtain ⟨orderly', effect⟩ := sendReply_kept orderly (startCommand l.e a.spawn).1 wantreply
    refine h.onArrival hm ?_ orderly' effect (fun _ => rfl) fun _ => rfl
    obtain ⟨nothing, stock, credit⟩ := h.unstarted idle
    rw [started] at orderly ⊢
    exact ⟨⟨h.stocked.buf, h.stocked.size, h.stocked.room, h.stocked.owed⟩, rfl, rfl,
      Nat.le_add_right _ _, Nat.min_le_right _ _, rfl, arriving.recvEof, arriving.recvClose, rfl,
      fun idle => ⟨by rw [(orderly.idle idle).1]; decide, nothing, stock, credit⟩,
      fun _ => none ▸ ⟨nothing, stock, credit⟩⟩

theorem Held.request (h : Held o transwindow transmaxpacket l) (a : Answer) {wantreply : Bool}
    (hm : l.client[l.arrived]? = some (.request wantreply)) :
    ∃ b, handle o a l.e (.request wantreply) = .ok (some b) ∧
      Held o transwindow transmaxpacket { l with e := b, arrived := l.arrived + 1 } ∧
      l.e.sent <+: b.sent := by
  obtain ⟨orderly, effect⟩ := sendReply_kept h.orderly a.ret wantreply
  exact ⟨_, by simp only [handle, getchannelMsg, h.present hm, if_true, bind, Except.bind, pure,
    Except.pure], h.onArrival hm (h.arriving (by simp) (by simp) rfl) orderly effect (fun _ => rfl)
    fun _ => rfl⟩

theorem Held.eof (h : Held o transwindow transmaxpacket l) (a : Answer)
    (hm : l.client[l.arrived]? = some .eof) :
    ∃ b, handle o a l.e .eof = .ok (some b) ∧
      Held o transwindow transmaxpacket { l with e := b, arrived := l.arrived + 1 } ∧
      l.e.sent <+: b.sent := by
  obtain ⟨orderly, effect⟩ := recvMsgChannelEof_kept h.orderly (h.present hm) a.pending
  have marking : Arriving o l .eof { l.e with chan := { l.e.chan with recvEof := true } } :=
    ⟨⟨h.stocked.buf, h.stocked.size, h.stocked.room, h.stocked.owed⟩, rfl, rfl,
      Nat.le_add_right _ _, Nat.min_le_right _ _, rfl, by simp, by simp, rfl,
      fun idle => absurd idle.1 (by simp),
      fun fd => ⟨(h.lossless fd).order, (h.lossless fd).stock, (h.lossless fd).credit⟩⟩
  exact ⟨_, by simp only [handle, getchannelMsg, h.present hm, if_true, bind, Except.bind, pure,
    Except.pure], h.onArrival hm marking orderly effect (fun _ => rfl) fun _ => rfl⟩

theorem Held.close (h : Held o transwindow transmaxpacket l) (a : Answer)
    (hm : l.client[l.arrived]? = some .close) :
    ∃ b, handle o a l.e .close = .ok (some b) ∧
      Held o transwindow transmaxpacket { l with e := b, arrived := l.arrived + 1 } ∧
      l.e.sent <+: b.sent := by
  obtain ⟨orderly, effect⟩ := recvMsgChannelClose_kept h.orderly (h.present hm) a.pending
  have marking : Arriving o l .close
      { l.e with chan := { l.e.chan with recvEof := true, recvClose := true } } :=
    ⟨⟨h.stocked.buf, h.stocked.size, h.stocked.room, h.stocked.owed⟩, rfl, rfl,
      Nat.le_add_right _ _, Nat.min_le_right _ _, rfl, by simp, by simp, rfl,
      fun idle => absurd idle.1 (by simp),
      fun fd => ⟨(h.lossless fd).order, (h.lossless fd).stock, (h.lossless fd).credit⟩⟩
  exact ⟨_, by simp only [handle, getchannelMsg, h.present hm, if_true, bind, Except.bind, pure,
    Except.pure], h.onArrival hm marking orderly effect (fun _ => rfl) fun _ => rfl⟩

/-- What arrives for the program fits in the window that is left. -/
def Link.Fits (l : Link) : Event → Prop
  | .arrives _ => ∀ m, l.client[l.arrived]? = some m → 0 ≤ l.e.chan.writefd →
      m.bytes.length ≤ l.e.chan.recvwindow
  | _ => True

theorem Held.arrives (h : Held o transwindow transmaxpacket l) (a : Answer) {m : In}
    (hm : l.client[l.arrived]? = some m) (fits : l.Fits (.arrives a)) :
    ∃ b, handle o a l.e m = .ok (some b) ∧
      Held o transwindow transmaxpacket { l with e := b, arrived := l.arrived + 1 } ∧
      l.e.sent <+: b.sent := by
  cases m with
  | data s => exact h.data a hm (fits _ hm)
  | windowAdjust incr => exact h.windowAdjust a hm
  | command wantreply => exact h.command a hm
  | request wantreply => exact h.request a hm
  | eof => exact h.eof a hm
  | close => exact h.close a hm

/-- Whatever can happen between the two sides happens without ending the session, and keeps
what holds between them, as long as what arrives fits. -/
theorem Held.turn (h : Held o transwindow transmaxpacket l) {ev : Event} (ordered : Ordered l ev)
    (fits : l.Fits ev) {r : Except Halt (Option Link)} (turn : l.turn o ev = some r) :
    ∃ l', r = .ok (some l') ∧ Held o transwindow transmaxpacket l' ∧ l.e.sent <+: l'.e.sent := by
  cases ev with
  | sends m =>
    simp only [Link.turn, Option.ite_none_right_eq_some, Option.some.injEq] at turn
    obtain ⟨packet, rfl⟩ := turn
    have arrived : (l.client ++ [m]).take l.arrived = l.client.take l.arrived :=
      List.take_append_of_le_length h.arrived
    refine ⟨_, rfl, ⟨h.stocked, h.orderly, ?_, h.seen, ?_, ?_, ?_, ?_, ?_, h.unstarted, ?_, ?_, ?_,
      ?_, h.maxpacket, h.packets⟩, List.prefix_rfl⟩
    · simpa using Nat.le_succ_of_le h.arrived
    · refine List.pairwise_append.mpr ⟨h.order, List.pairwise_singleton _ _, fun k mem x hx => ?_⟩
      rw [List.mem_singleton.mp hx]
      exact List.all_eq_true.mp ordered k mem
    · intro k mem
      rcases List.mem_append.mp mem with mem | mem
      · exact h.payload k mem
      · exact List.mem_singleton.mp mem ▸ packet
    · simpa only [arrived] using h.window
    · simpa only [arrived] using h.recvEof
    · simpa only [arrived] using h.recvClose
    · simpa only [arrived] using h.lossless
    · simpa only [arrived] using h.front
    · simpa only [arrived] using h.ours
    · simpa only [arrived] using h.clamped
  | arrives a =>
    obtain ⟨m, hm, rfl⟩ := Option.map_eq_some_iff.mp turn
    obtain ⟨b, reach, held⟩ := h.arrives a hm fits
    exact ⟨_, by rw [reach]; rfl, held⟩
  | sees =>
    simp only [Link.turn, Option.ite_none_right_eq_some, Option.some.injEq] at turn
    obtain ⟨more, rfl⟩ := turn
    exact ⟨_, rfl, ⟨h.stocked, h.orderly, h.arrived, more, h.order, h.payload, h.window, h.recvEof,
      h.recvClose, h.unstarted, h.lossless, h.front, h.ours, h.clamped, h.maxpacket, h.packets⟩,
      List.prefix_rfl⟩
  | io io =>
    simp only [Link.turn, Option.ite_none_right_eq_some, Option.some.injEq] at turn
    obtain ⟨present, rfl⟩ := turn
    obtain ⟨b, reach, orderly, effect⟩ := channelio_kept h.stocked h.orderly present io
    exact ⟨_, by rw [reach]; rfl, h.onServer orderly effect⟩
  | exited info =>
    obtain rfl := Option.some.inj turn
    obtain ⟨orderly, effect⟩ := childExited_kept h.orderly info
    exact ⟨_, rfl, h.onServer orderly effect⟩

/-- The process ends with one of the two messages about data that is too much. -/
def Link.Overrun (o : Opts) (l : Link) (ev : Event) : Prop :=
  l.turn o ev = some (dropbearExit "Oversized packet") ∨
    l.turn o ev = some (dropbearExit "Failed assertion: channel->recvwindow >= datalen")

theorem Link.Overrun.error {ev : Event} (h : l.Overrun o ev) :
    ∃ halt, l.turn o ev = some (.error halt) := by
  rcases h with overrun | overrun
  · exact ⟨_, overrun⟩
  · exact ⟨_, overrun⟩

/-- What does not fit ends the session. -/
theorem Held.turn_over (h : Held o transwindow transmaxpacket l) {ev : Event}
    (beyond : ¬ l.Fits ev) : l.Overrun o ev := by
  cases ev with
  | arrives a =>
    simp only [Link.Fits, Classical.not_forall, Nat.not_le] at beyond
    obtain ⟨m, hm, fd, beyond⟩ := beyond
    cases m with
    | data s =>
      have overrun := h.data_over a hm fd beyond
      have turn : l.turn o (.arrives a) = some ((handle o a l.e (.data s)).map
          (Option.map fun e => { l with e := e, arrived := l.arrived + 1 })) := by
        simp only [Link.turn, hm, Option.map_some]
      rw [overrun] at turn
      split at turn
      · exact .inl turn
      · exact .inr turn
    | windowAdjust | command | request | eof | close => exact absurd beyond (Nat.not_lt_zero _)
  | sends | sees | io | exited => exact absurd trivial beyond

theorem Held.step (h : Held o transwindow transmaxpacket l) {ev : Event} (ordered : Ordered l ev)
    {l' : Link} (step : l.step o ev = some l') : Held o transwindow transmaxpacket l' := by
  unfold Link.step at step
  split at step
  · rename_i next turn
    have fits : l.Fits ev := by
      by_contra beyond
      obtain ⟨halt, error⟩ := (h.turn_over beyond).error
      rw [turn] at error
      cases error
    obtain ⟨l'', same, held, -⟩ := h.turn ordered fits turn
    obtain rfl : l' = l'' := by
      rw [step] at same
      exact Option.some.inj (Except.ok.inj same)
    exact held
  · cases step

theorem run_held {start : Link} {kind : Kind} {evs : List Event}
    (opened : openLink o kind transwindow transmaxpacket = .ok start)
    (run : Run (Link.step o) Ordered start evs l) : Held o transwindow transmaxpacket l :=
  run.invariant (openLink_held opened) fun _ _ _ held ordered step => held.step ordered step

end

end Ikofi.Flow
