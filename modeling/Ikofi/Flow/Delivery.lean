import Ikofi.Flow.Link

/-!
# What the two sides can rely on

The results about a channel, in every run of the two sides from its opening.
The session ends on what goes beyond the window and on nothing else. What the
client sends is written in order and without loss as long as the descriptor is
good, and the window opens again when it has been. What the server sends stays
within the client's window and ends properly.
-/

namespace Ikofi.Flow

open Wire Runs

/-- A window of eight bytes. -/
def small : Opts where
  recvWindow := 8
  positive := Nat.zero_lt_succ 7
  bounded := Nat.le_of_ble_eq_true rfl

def fresh : Link :=
  { e := { chan := {
      recvwindow := 8
      transwindow := 3
      transmaxpacket := 50
      writebuf := { size := 8 }
      session := some {} } } }

/-- A program is started, and one of three bytes is written to it at once. The client goes on
beyond the window that it has seen. -/
def crowding : List Event :=
  [.sends (.command true), .arrives { spawn := some ⟨5, 6, some 7, 99, by decide⟩ },
    .sends (.data [1, 2, 3]), .arrives { write := .took 1 }, .sends (.data [4, 5, 6, 7, 8, 9])]

def crowded : Link :=
  { e := {
      chan := {
        recvwindow := 5
        transwindow := 3
        recvdonelen := 1
        transmaxpacket := 50
        writefd := 5
        readfd := 6
        errfd := 7
        writebuf := { data := some [2, 3, 0, 0, 0, 0, 0, 0], size := 8, used := 2, writepos := 2 }
        session := some { pid := 99 } }
      sent := [.success]
      written := [1] }
    client := [.command true, .data [1, 2, 3], .data [4, 5, 6, 7, 8, 9]]
    arrived := 2 }

/-- The program puts out more than the client's window takes at first. The client sends six
more bytes when it has seen that the server's window is open again. -/
def working : List Event :=
  [.sends (.command true), .arrives { spawn := some ⟨5, 6, some 7, 99, by decide⟩ },
    .sends (.data [1, 2, 3]), .arrives { write := .took 1 },
    .io { read := some (.got [10, 11, 12, 13]) }, .sends (.windowAdjust 20), .arrives {},
    .io { read := some (.got [13]), err := some (.got [14]), write := some (.took 2) }, .sees,
    .sees, .sees, .sees, .sees, .sends (.data [4, 5, 6, 7, 8, 9])]

def worked : Link :=
  { e := {
      chan := {
        recvwindow := 8
        transwindow := 18
        transmaxpacket := 50
        writefd := 5
        readfd := 6
        errfd := 7
        writebuf :=
          { data := some [2, 3, 0, 0, 0, 0, 0, 0], size := 8, readpos := 2, writepos := 2 }
        session := some { pid := 99 } }
      sent := [.success, .data [10, 11, 12], .data [13], .extended [14], .windowAdjust 3]
      written := [1, 2, 3] }
    client := [.command true, .data [1, 2, 3], .windowAdjust 20, .data [4, 5, 6, 7, 8, 9]]
    arrived := 3
    seen := 5 }

def ended : Link :=
  { e := {
      chan := {
        recvwindow := 8
        transwindow := 18
        transmaxpacket := 50
        writefd := fdClosed
        readfd := fdClosed
        errfd := fdClosed
        writebuf :=
          { data := some [2, 3, 8, 9, 0, 0, 0, 0], size := 8, readpos := 4, writepos := 4 }
        sentClose := true
        recvClose := true
        recvEof := true
        sentEof := true
        flushing := true
        session := some { pid := 99, exit := some {} } }
      present := false
      sent := [.success, .data [10, 11, 12], .data [13], .extended [14], .windowAdjust 3,
        .windowAdjust 4, .windowAdjust 2, .eof, .exitStatus 0, .close]
      written := [1, 2, 3, 4, 5, 6, 7, 8, 9] }
    client := [.command true, .data [1, 2, 3], .windowAdjust 20, .data [4, 5, 6, 7, 8, 9], .eof,
      .close]
    arrived := 6
    seen := 5 }

theorem openLink_fresh : openLink small .session 3 50 = .ok fresh := rfl

theorem crowding_ordered : Run (Link.step small) Ordered fresh crowding crowded :=
  run_of_foldlM (by decide)

theorem working_obedient : Run (Link.step small) (Obedient small) fresh working worked :=
  run_of_foldlM (by decide)

section
variable {o : Opts} {kind : Kind} {transwindow transmaxpacket : Nat} {start l : Link}
  {evs : List Event}

/-- With a client that keeps the order of messages, the session goes on after an event exactly
if what arrives for the program fits in the window that is left. Otherwise the process ends with
one of the two messages about data that is too much. -/
theorem goes_on_iff_fits (opened : openLink o kind transwindow transmaxpacket = .ok start)
    (run : Run (Link.step o) Ordered start evs l) {ev : Event} (ordered : Ordered l ev)
    (possible : (l.turn o ev).isSome = true) :
    ((∃ l', l.turn o ev = some (.ok (some l'))) ↔ l.Fits ev) ∧
      (l.Overrun o ev ↔ ¬ l.Fits ev) := by
  have held := run_held opened run
  obtain ⟨r, turn⟩ := Option.isSome_iff_exists.mp possible
  by_cases fits : l.Fits ev
  · obtain ⟨l', rfl, -⟩ := held.turn ordered fits turn
    have onward : ¬ l.Overrun o ev := fun overrun => by
      obtain ⟨halt, error⟩ := overrun.error
      rw [turn] at error
      cases error
    exact ⟨iff_of_true ⟨l', turn⟩ fits, iff_of_false onward (not_not_intro fits)⟩
  · have overrun := held.turn_over fits
    obtain ⟨halt, error⟩ := overrun.error
    exact ⟨iff_of_false (by simp [error]) fits, iff_of_true overrun fits⟩

/-- Six bytes fit in the buffer but not in the window. -/
theorem goes_on_iff_fits_crowded : crowded.Overrun small (.arrives {}) := by
  have ordered : Ordered crowded (.arrives {}) := trivial
  refine (goes_on_iff_fits openLink_fresh crowding_ordered ordered rfl).2.mpr fun fits => ?_
  exact absurd (fits _ rfl (by decide)) (by decide)

theorem Obedient.ordered {ev : Event} (h : Obedient o l ev) : Ordered l ev := by
  cases ev with
  | sends m => exact h.1
  | arrives | sees | io | exited => trivial

/-- All that an obedient client has sent fits in the window that it has seen. -/
def Within (o : Opts) (l : Link) : Prop :=
  (bytes l.client).length ≤ o.recvWindow + credits (l.e.sent.take l.seen)

theorem credits_take_le (l : List Out) {n m : Nat} (h : n ≤ m) :
    credits (l.take n) ≤ credits (l.take m) := by
  obtain ⟨k, rfl⟩ := Nat.exists_eq_add_of_le h
  rw [List.take_add, credits_append]
  exact Nat.le_add_right _ _

theorem Held.fits (h : Held o transwindow transmaxpacket l) (within : Within o l) (ev : Event) :
    l.Fits ev := by
  cases ev with
  | arrives a =>
    intro m hm _
    have whole : (bytes (l.client.take l.arrived)).length + m.bytes.length ≤
        (bytes l.client).length := by
      conv_rhs => rw [← List.take_append_drop (l.arrived + 1) l.client]
      simp only [take_arrived hm, bytes_append, bytes_singleton, List.length_append]
      omega
    have seen : credits (l.e.sent.take l.seen) ≤ credits l.e.sent := by
      simpa using credits_take_le l.e.sent h.seen
    have := h.window
    unfold Within at within
    omega
  | sends | sees | io | exited => trivial

theorem Held.obedient_turn (h : Held o transwindow transmaxpacket l) (within : Within o l)
    {ev : Event} (obedient : Obedient o l ev) {r : Except Halt (Option Link)}
    (turn : l.turn o ev = some r) :
    ∃ l', r = .ok (some l') ∧ Held o transwindow transmaxpacket l' ∧ Within o l' := by
  obtain ⟨l', rfl, held, added, sent⟩ := h.turn obedient.ordered (h.fits within ev) turn
  refine ⟨l', rfl, held, ?_⟩
  -- The server's messages only become more, so the part that was seen stays as it is.
  have seen : l'.e.sent.take l.seen = l.e.sent.take l.seen := by
    rw [← sent, List.take_append_of_le_length h.seen]
  have client : (∃ m, ev = .sends m ∧ l'.client = l.client ++ [m] ∧ l'.seen = l.seen) ∨
      l'.client = l.client ∧ l.seen ≤ l'.seen := by
    cases ev with
    | sends m =>
      simp only [Link.turn, Option.ite_none_right_eq_some, Option.some.injEq, Except.ok.injEq] at turn
      obtain ⟨-, rfl⟩ := turn
      exact .inl ⟨m, rfl, rfl, rfl⟩
    | arrives a =>
      obtain ⟨m, -, result⟩ := Option.map_eq_some_iff.mp turn
      cases handled : handle o a l.e m with
      | error halt => simp [handled, Except.map] at result
      | ok b =>
        simp only [handled, Except.map, Except.ok.injEq] at result
        obtain ⟨b, -, rfl⟩ := Option.map_eq_some_iff.mp result
        exact .inr ⟨rfl, Nat.le_refl _⟩
    | sees =>
      simp only [Link.turn, Option.ite_none_right_eq_some, Option.some.injEq, Except.ok.injEq] at turn
      obtain ⟨-, rfl⟩ := turn
      exact .inr ⟨rfl, Nat.le_succ _⟩
    | io io =>
      simp only [Link.turn, Option.ite_none_right_eq_some, Option.some.injEq] at turn
      obtain ⟨-, result⟩ := turn
      cases served : channelio o io l.e with
      | error halt => simp [served, Except.map] at result
      | ok b =>
        simp only [served, Except.map, Except.ok.injEq, Option.some.injEq] at result
        subst result
        exact .inr ⟨rfl, Nat.le_refl _⟩
    | exited info =>
      simp only [Link.turn, Option.some.injEq, Except.ok.injEq] at turn
      subst turn
      exact .inr ⟨rfl, Nat.le_refl _⟩
  unfold Within at within ⊢
  rcases client with ⟨m, rfl, client, same⟩ | ⟨client, more⟩
  · rw [client, same, seen]
    exact obedient.2
  · have more := credits_take_le l'.e.sent more
    rw [seen] at more
    rw [client]
    omega

theorem run_obedient (opened : openLink o kind transwindow transmaxpacket = .ok start)
    (run : Run (Link.step o) (Obedient o) start evs l) :
    Held o transwindow transmaxpacket l ∧ Within o l := by
  refine run.invariant (I := fun l => Held o transwindow transmaxpacket l ∧ Within o l)
    ⟨openLink_held opened, ?_⟩ ?_
  · have fresh : start.client = [] := by
      unfold openLink at opened
      obtain ⟨ch, -, rest⟩ := bind_ok.mp opened
      cases kind <;> · obtain rfl := Except.ok.inj rest; rfl
    simp [Within, fresh, bytes]
  · rintro t ev u ⟨held, within⟩ obedient step
    unfold Link.step at step
    split at step
    · rename_i next turn
      obtain ⟨l', same, kept⟩ := held.obedient_turn within obedient turn
      obtain rfl : u = l' := by
        rw [step] at same
        exact Option.some.inj (Except.ok.inj same)
      exact kept
    · cases step

/-- No order of events ends the session of a client that keeps to the rules: no assertion
fails, no packet is too long, no channel is unknown and no loop goes on for ever. -/
theorem obedient_never_ends (opened : openLink o kind transwindow transmaxpacket = .ok start)
    (run : Run (Link.step o) (Obedient o) start evs l) {ev : Event} (obedient : Obedient o l ev)
    (possible : (l.turn o ev).isSome = true) : ∃ l', l.turn o ev = some (.ok (some l')) := by
  obtain ⟨held, within⟩ := run_obedient opened run
  obtain ⟨r, turn⟩ := Option.isSome_iff_exists.mp possible
  obtain ⟨l', rfl, -⟩ := held.obedient_turn within obedient turn
  exact ⟨l', turn⟩

theorem obedient_never_ends_worked :
    ∃ l', worked.turn small (.arrives { write := .took 4 }) = some (.ok (some l')) :=
  obedient_never_ends openLink_fresh working_obedient trivial rfl

/-- What the descriptor has taken is always the front of what the client has sent. As long as
it is good, the rest waits in the buffer or is still on its way. -/
theorem delivered_in_order (opened : openLink o kind transwindow transmaxpacket = .ok start)
    (run : Run (Link.step o) Ordered start evs l) :
    l.e.written <+: bytes l.client ∧
      (0 ≤ l.e.chan.writefd → bytes l.client =
        l.e.written ++ l.e.chan.writebuf.contents ++ bytes (l.client.drop l.arrived)) := by
  have held := run_held opened run
  have parts :
      bytes l.client = bytes (l.client.take l.arrived) ++ bytes (l.client.drop l.arrived) := by
    rw [← bytes_append, List.take_append_drop]
  constructor
  · rw [parts]
    exact held.front.trans (List.prefix_append _ _)
  · intro fd
    rw [parts, (held.lossless fd).order]

theorem delivered_in_order_crowded :
    crowded.e.written <+: bytes crowded.client ∧ (0 ≤ crowded.e.chan.writefd →
      bytes crowded.client = crowded.e.written ++ crowded.e.chan.writebuf.contents ++
        bytes (crowded.client.drop crowded.arrived)) :=
  delivered_in_order openLink_fresh crowding_ordered

/-- When all is seen on both sides and the descriptor has taken all there was, the client may
send at least two thirds of the window at once: the flow does not come to a standstill. -/
theorem window_reopens (opened : openLink o kind transwindow transmaxpacket = .ok start)
    (run : Run (Link.step o) Ordered start evs l) (fd : 0 ≤ l.e.chan.writefd)
    (eof : l.e.chan.recvEof = false) (arrived : l.arrived = l.client.length)
    (seen : l.seen = l.e.sent.length) (taken : cbufGetused l.e.chan.writebuf = 0) {s : Bytes}
    (third : s.length ≤ o.recvWindow - o.recvWindow / 3) : Obedient o l (.sends (.data s)) := by
  have held := run_held opened run
  have passed := held.lossless fd
  have whole : l.client.take l.arrived = l.client := by rw [arrived, List.take_length]
  constructor
  · refine List.all_eq_true.mpr fun k mem => ?_
    rw [← whole] at mem
    have unset := fun marks => Bool.eq_false_iff.mp eof (held.recvEof.mpr marks)
    cases k with
    | eof => exact absurd (.inl mem) unset
    | close => exact absurd (.inr mem) unset
    | data | windowAdjust | command | request => rfl
  · have credit := passed.credit
    have stock := passed.stock
    have owed := held.stocked.owed
    simp only [cbufGetused] at taken
    simp only [whole] at credit
    simp only [Opts.recvWindowextend] at owed
    rw [bytes_append, bytes_singleton, List.length_append, seen, List.take_length]
    simp only [In.bytes]
    omega

/-- The program has taken all three bytes, and the client has seen every message. -/
def idling : List Event :=
  [.sends (.command true), .arrives { spawn := some ⟨5, 6, some 7, 99, by decide⟩ },
    .sends (.data [1, 2, 3]), .arrives { write := .took 3 }, .sees, .sees]

def idled : Link :=
  { e := {
      chan := {
        recvwindow := 8
        transwindow := 3
        transmaxpacket := 50
        writefd := 5
        readfd := 6
        errfd := 7
        writebuf := { size := 8 }
        session := some { pid := 99 } }
      sent := [.success, .windowAdjust 3]
      written := [1, 2, 3] }
    client := [.command true, .data [1, 2, 3]]
    arrived := 2
    seen := 2 }

theorem idling_ordered : Run (Link.step small) Ordered fresh idling idled :=
  run_of_foldlM (by decide)

theorem window_reopens_idled : Obedient small idled (.sends (.data [4, 5, 6, 7, 8])) :=
  window_reopens openLink_fresh idling_ordered (by decide) rfl rfl rfl rfl (by decide)

/-- The server never sends more data than the client's windows add up to, nor more in one
packet than the client takes and a payload holds. What it has not used of the windows is kept,
up to the largest number of 32 bits. -/
theorem sends_within (opened : openLink o kind transwindow transmaxpacket = .ok start)
    (run : Run (Link.step o) Ordered start evs l) :
    loads l.e.sent + l.e.chan.transwindow ≤ transwindow + granted (l.client.take l.arrived) ∧
      min 0xffffffff (transwindow + granted (l.client.take l.arrived)) ≤
        loads l.e.sent + l.e.chan.transwindow ∧
      ∀ m ∈ l.e.sent, m.load ≤ transmaxpacket ∧ m.load ≤ transMaxPayloadLen := by
  have held := run_held opened run
  exact ⟨held.ours, held.clamped, fun m mem => Nat.le_min.mp (held.packets m mem)⟩

theorem sends_within_worked :
    loads worked.e.sent + worked.e.chan.transwindow ≤
        3 + granted (worked.client.take worked.arrived) ∧
      min 0xffffffff (3 + granted (worked.client.take worked.arrived)) ≤
        loads worked.e.sent + worked.e.chan.transwindow ∧
      ∀ m ∈ worked.e.sent, m.load ≤ 50 ∧ m.load ≤ transMaxPayloadLen :=
  sends_within openLink_fresh (working_obedient.mono fun _ _ => Obedient.ordered)

/-- The end of the data closes a session that waits for its command. -/
theorem eof_closes_idle (p : Pending) {e : End} (h : Orderly e) (idle : e.chan.Idle) :
    Out.close ∈ (recvMsgChannelEof p e).sent ∧ (recvMsgChannelEof p e).chan.sentClose = true ∧
      ∃ child, (recvMsgChannelEof p e).chan.session = some child ∧ child.pid = 0 := by
  obtain ⟨writefd, readfd, errfd, unsent, single⟩ := h.idle idle
  obtain ⟨eof, child, session, pid⟩ := idle
  have exit := h.unborn child session pid
  have unclosed : e.chan.recvClose = false :=
    Bool.eq_false_iff.mpr fun close => by simp [h.closed close] at eof
  have open_ : e.chan.sentClose = false :=
    Bool.eq_false_iff.mpr fun close => by simp [(h.closeSent close).1] at unsent
  clear h
  rcases e with ⟨⟨_, _, _, _, _, _, _, _, buf, _, _, _, _, flushing, _⟩, _, _, _⟩
  rcases child with ⟨_, _⟩
  dsimp only at *
  subst writefd readfd errfd unsent single session pid exit unclosed open_
  cases flushing <;>
    simp [recvMsgChannelEof, checkClose, closeAllowed, sesscheckclose, flush, flushFd, halfClose,
      writePending, closeChanFd, sendMsgChannelEof, sendMsgChannelClose, closehandler, fdUninit,
      fdClosed]

/-- The rule that no command comes after the end of the data is needed. A session that waits for
its command is closed by the end of the data. A command is still started on it, and the process
ends at the first thing there is to read from the program. -/
theorem command_after_eof_ends (opened : openLink o kind transwindow transmaxpacket = .ok start)
    (run : Run (Link.step o) Ordered start evs l) (idle : l.e.chan.Idle) (p : Pending) (sp : Spawn)
    {io : Io} (ready : io.read.isSome = true) :
    Out.close ∈ (recvMsgChannelEof p l.e).sent ∧
      (startCommand (recvMsgChannelEof p l.e) (some sp)).1 = true ∧
      channelio o io (startCommand (recvMsgChannelEof p l.e) (some sp)).2 =
        dropbearExit "Failed assertion: !channel->sent_close" := by
  obtain ⟨close, sent, child, session, pid⟩ :=
    eof_closes_idle p (run_held opened run).orderly idle
  obtain ⟨r, read⟩ := Option.isSome_iff_exists.mp ready
  have fd : ¬ (sp.readfd : Int) < 0 := Int.not_lt.mpr (Int.natCast_nonneg _)
  refine ⟨close, by simp [startCommand, session, pid], ?_⟩
  simp [startCommand, session, pid, channelio, serveRead, read, channelFd, fd, sendMsgChannelData,
    sent, dropbearAssert, dropbearExit, bind, Except.bind, Except.map]

theorem command_after_eof_ends_fresh :
    Out.close ∈ (recvMsgChannelEof {} fresh.e).sent ∧
      (startCommand (recvMsgChannelEof {} fresh.e) (some ⟨5, 6, some 7, 99, by decide⟩)).1 = true ∧
      channelio small { read := some (.got [1]) }
          (startCommand (recvMsgChannelEof {} fresh.e) (some ⟨5, 6, some 7, 99, by decide⟩)).2 =
        dropbearExit "Failed assertion: !channel->sent_close" :=
  command_after_eof_ends openLink_fresh .start ⟨rfl, _, rfl, rfl⟩ _ _ rfl

end

end Ikofi.Flow
