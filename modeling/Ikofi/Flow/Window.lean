import Ikofi.Flow.Model

/-!
# The receive window

What a channel may still receive, what it has passed on since the window was last
opened and what waits in the buffer add up to at most the size of the buffer. A
packet within the window therefore fits, and what was read, what waits and what
has just come keep their order.
-/

namespace Ikofi.Flow

open Wire

/-- By how much a message opens the client's window. -/
def Out.credit : Out → Nat
  | .windowAdjust incr => incr
  | _ => 0

/-- The sum of what the messages of a list count for. -/
def total {α : Type} (f : α → Nat) : List α → Nat
  | [] => 0
  | m :: l => f m + total f l

@[simp] theorem total_append {α : Type} (f : α → Nat) (l k : List α) :
    total f (l ++ k) = total f l + total f k := by
  induction l with
  | nil => simp [total]
  | cons m l ih => simp [total, ih, Nat.add_assoc]

def credits (l : List Out) : Nat := total Out.credit l

@[simp] theorem credits_append (l k : List Out) : credits (l ++ k) = credits l + credits k :=
  total_append Out.credit l k

@[simp] theorem credits_nil : credits [] = 0 := rfl

@[simp] theorem credits_singleton (m : Out) : credits [m] = m.credit := by
  simp [credits, total]

/-- The accounts of the receive window. -/
structure Stocked (o : Opts) (ch : Channel) : Prop where
  buf : ch.writebuf.Valid
  size : ch.writebuf.size = o.recvWindow
  room : ch.recvwindow + ch.recvdonelen + ch.writebuf.used ≤ o.recvWindow
  owed : ch.recvdonelen = 0 ∨ ch.recvdonelen < o.recvWindowextend

/-- A new channel has the whole window to receive in. -/
theorem newchannel_ok (o : Opts) (transwindow transmaxpacket : Nat) :
    ∃ ch, newchannel o transwindow transmaxpacket = .ok ch ∧ Stocked o ch ∧
      ch.recvwindow = o.recvWindow ∧ ch.writebuf.contents = [] ∧
      ch = { recvwindow := o.recvWindow, transwindow, transmaxpacket, writebuf := ch.writebuf } := by
  have small : o.recvWindow ≤ maxCbufSize := Nat.le_trans o.bounded (by decide)
  obtain ⟨c, new, valid, size, empty⟩ := Circbuffer.cbufNew_valid o.positive small
  have used : c.used = 0 := by rw [← Circbuffer.length_contents valid, empty, List.length_nil]
  refine ⟨_, by rw [newchannel, new]; rfl, ⟨valid, size, ?_, .inl rfl⟩, rfl, empty, rfl⟩
  simp [used]

/-- What a write does: it takes bytes off the front of what the buffer and the packet hold
together, or finds the descriptor broken and takes nothing. -/
inductive Wrote (e : End) (fd : Int) (more : Bytes) : End × Nat × Bool → Prop
  | took (s : Bytes) (b : Circbuffer) (consumed : Nat) (valid : b.Valid)
      (size : b.size = e.chan.writebuf.size) (le : consumed ≤ more.length)
      (order : s ++ b.contents ++ more.drop consumed = e.chan.writebuf.contents ++ more) :
      Wrote e fd more ({ e with
        chan := { e.chan with
          writebuf := b
          recvdonelen := e.chan.recvdonelen + s.length }
        written := e.written ++ s }, consumed, true)
  | broken : Wrote e fd more ({ e with chan := closeChanFd e.chan fd .wr }, 0, false)

theorem Wrote.nothing {e : End} (h : e.chan.writebuf.Valid) (fd : Int) (more : Bytes) :
    Wrote e fd more (e, 0, true) := by
  have took : Wrote e fd more _ :=
    .took [] e.chan.writebuf 0 h rfl (Nat.zero_le _) (by simp)
  simpa using took

theorem writechannelWritev_ok {e : End} (h : e.chan.writebuf.Valid) (w : Write) (fd : Int)
    (more : Option Bytes) :
    ∃ r, writechannelWritev w e fd more = .ok r ∧ Wrote e fd (more.getD []) r := by
  have pieces := Circbuffer.readptrs_contents h
  have used := Circbuffer.length_contents h
  unfold writechannelWritev
  generalize cbufReadptrs e.chan.writebuf = ptrs at pieces ⊢
  obtain ⟨p1, p2⟩ := ptrs
  have length : p1.length + p2.length = e.chan.writebuf.used := by
    rw [← List.length_append, pieces, used]
  simp only [pieces, length]
  split
  · exact ⟨_, rfl, .nothing h _ _⟩
  · split
    · exact ⟨_, rfl, .broken⟩
    · split
      · exact ⟨_, rfl, .nothing h _ _⟩
      · set offered := e.chan.writebuf.contents ++ more.getD [] with hoffered
        set n := w.len offered with hn
        have bound : n ≤ offered.length := by
          rw [hn]
          cases w with
          | took k => exact Nat.min_le_right _ _
          | again | failed => exact Nat.zero_le _
        have whole : offered.length = e.chan.writebuf.used + (more.getD []).length := by
          rw [hoffered, List.length_append, used]
        obtain ⟨b, read, valid, holds, size, -⟩ :=
          Circbuffer.incrread_ok h (Nat.min_le_left e.chan.writebuf.used n)
        have rest : b.contents ++ (more.getD []).drop (n - min e.chan.writebuf.used n) =
            offered.drop n := by
          rw [holds, hoffered, List.drop_append, used]
          rcases Nat.le_total e.chan.writebuf.used n with all | some
          · have gone : ∀ k, e.chan.writebuf.used ≤ k → e.chan.writebuf.contents.drop k = [] :=
              fun k le => List.drop_eq_nil_of_le (by rw [used]; exact le)
            rw [Nat.min_eq_left all, gone _ (Nat.le_refl _), gone _ all]
          · rw [Nat.min_eq_right some, Nat.sub_self, Nat.sub_eq_zero_of_le some]
        have took : Wrote e fd (more.getD []) _ :=
          .took (offered.take n) b (n - min e.chan.writebuf.used n) valid size (by omega)
            (by rw [List.append_assoc, rest, List.take_append_drop])
        rw [List.length_take_of_le bound] at took
        exact ⟨_, by simp only [read, bind, Except.bind, pure, Except.pure], took⟩

/-- Either what has been passed on is too little to tell, or the window is opened by it. -/
inductive Adjusted (o : Opts) (e : End) : End → Prop
  | later (little : e.chan.recvdonelen < o.recvWindowextend) : Adjusted o e e
  | now : Adjusted o e { e with
      chan := { e.chan with
        recvwindow := e.chan.recvwindow + e.chan.recvdonelen
        recvdonelen := 0 }
      sent := e.sent ++ [.windowAdjust e.chan.recvdonelen] }

theorem windowAdjust_adjusted (o : Opts) (e : End) : Adjusted o e (windowAdjust o e) := by
  unfold windowAdjust
  split
  · exact .now
  · rename_i little
    exact .later (Nat.lt_of_not_le little)

/-- A write and what follows from it for the window. What the packet holds has been taken off
the window before and not been put into the buffer yet. -/
theorem writechannel_ok {o : Opts} {e : End} (valid : e.chan.writebuf.Valid)
    (size : e.chan.writebuf.size = o.recvWindow) (w : Write) (fd : Int) (more : Option Bytes)
    (room : e.chan.recvwindow + e.chan.recvdonelen + e.chan.writebuf.used + (more.getD []).length ≤
      o.recvWindow) :
    ∃ mid b consumed ret, writechannel o w e fd more = .ok (b, consumed, ret) ∧
      Wrote e fd (more.getD []) (mid, consumed, ret) ∧ Adjusted o mid b := by
  obtain ⟨⟨mid, consumed, ret⟩, writev, wrote⟩ := writechannelWritev_ok valid w fd more
  have adjusted := windowAdjust_adjusted o mid
  refine ⟨mid, windowAdjust o mid, consumed, ret, ?_, wrote, adjusted⟩
  have bounds : (windowAdjust o mid).chan.recvwindow ≤ o.recvWindow ∧
      (windowAdjust o mid).chan.recvwindow ≤ cbufGetavail (windowAdjust o mid).chan.writebuf := by
    have stock : mid.chan.recvwindow + mid.chan.recvdonelen + mid.chan.writebuf.used ≤
        mid.chan.writebuf.size ∧ mid.chan.writebuf.size = o.recvWindow := by
      cases wrote with
      | took s b consumed valid' size' le order =>
        have lengths := congrArg List.length order
        simp only [List.length_append, List.length_drop, Circbuffer.length_contents valid,
          Circbuffer.length_contents valid'] at lengths
        exact ⟨by dsimp only; omega, size'.trans size⟩
      | broken => exact ⟨by simp only [closeChanFd, size]; omega, size⟩
    generalize windowAdjust o mid = b at adjusted ⊢
    cases adjusted with
    | later => exact ⟨by omega, by unfold cbufGetavail; omega⟩
    | now => exact ⟨by dsimp only; omega, by dsimp only [cbufGetavail]; omega⟩
  simp only [writechannel, writev, bind, Except.bind, dropbearAssert, bounds.1, bounds.2,
    decide_true, if_true, pure, Except.pure]

/-- What serving the program does to an end, when `s` has come for it: a window's worth of
accounts is kept, and as long as the descriptor is good nothing is lost and the order stays.
Apart from that the descriptor may have been closed. -/
structure Served (o : Opts) (s : Bytes) (a b : End) : Prop where
  stocked : Stocked o b.chan
  present : b.present = a.present
  frame : ∃ ch, (ch = a.chan ∨ ch = closeChanFd a.chan a.chan.writefd .wr) ∧
    b.chan = { ch with
      recvwindow := b.chan.recvwindow
      recvdonelen := b.chan.recvdonelen
      writebuf := b.chan.writebuf }
  sent : b.sent = a.sent ∨ ∃ n, b.sent = a.sent ++ [.windowAdjust n]
  credit : credits b.sent + a.chan.recvwindow = credits a.sent + b.chan.recvwindow + s.length
  front : b.written <+: a.written ++ a.chan.writebuf.contents ++ s
  good : b.chan.writefd = a.chan.writefd →
    b.written ++ b.chan.writebuf.contents = a.written ++ a.chan.writebuf.contents ++ s ∧
    b.chan.recvwindow + b.chan.recvdonelen + b.chan.writebuf.used =
      a.chan.recvwindow + a.chan.recvdonelen + a.chan.writebuf.used

theorem closeChanFd_writefd (ch : Channel) (how : How) (h : how ≠ .rd) :
    (closeChanFd ch ch.writefd how).writefd = fdClosed := by
  cases how <;> simp_all [closeChanFd]

/-- `channelio` writes what waits in the buffer. -/
theorem writechannel_served {o : Opts} {e : End} (h : Stocked o e.chan)
    (fd : 0 ≤ e.chan.writefd) (w : Write) :
    ∃ b consumed ret, writechannel o w e e.chan.writefd none = .ok (b, consumed, ret) ∧
      Served o [] e b := by
  obtain ⟨mid, b, consumed, ret, write, wrote, adjusted⟩ :=
    writechannel_ok h.buf h.size w e.chan.writefd none h.room
  refine ⟨b, consumed, ret, write, ?_⟩
  have room := h.room
  have owed := h.owed
  cases wrote with
  | took s c _ valid size _ order =>
    have lengths := congrArg List.length order
    simp only [Option.getD_none, List.drop_nil, List.append_nil, List.length_append,
      Circbuffer.length_contents h.buf, Circbuffer.length_contents valid] at order lengths
    have size' := size.trans h.size
    have front : e.written ++ s <+: e.written ++ e.chan.writebuf.contents ++ [] :=
      ⟨c.contents, by simp [← order]⟩
    cases adjusted with
    | later little =>
      exact ⟨⟨valid, size', by dsimp only; omega, .inr little⟩, rfl, ⟨_, .inl rfl, rfl⟩, .inl rfl,
        by simp, front, fun _ => ⟨by simp [← order], by dsimp only; omega⟩⟩
    | now =>
      exact ⟨⟨valid, size', by dsimp only; omega, .inl rfl⟩, rfl, ⟨_, .inl rfl, rfl⟩,
        .inr ⟨_, rfl⟩, by simp [Out.credit]; omega, front,
        fun _ => ⟨by simp [← order], by dsimp only; omega⟩⟩
  | broken =>
    have closed := closeChanFd_writefd e.chan .wr (by decide)
    have changed : ¬ fdClosed = e.chan.writefd := by
      unfold fdClosed
      omega
    have front : e.written <+: e.written ++ e.chan.writebuf.contents ++ [] :=
      ⟨e.chan.writebuf.contents, by simp⟩
    cases adjusted with
    | later =>
      exact ⟨⟨h.buf, h.size, room, owed⟩, rfl, ⟨_, .inr rfl, rfl⟩, .inl rfl, by simp [closeChanFd],
        front, fun same => absurd (closed.symm.trans same) changed⟩
    | now =>
      refine ⟨⟨h.buf, h.size, ?_, .inl rfl⟩, rfl, ⟨_, .inr rfl, rfl⟩, .inr ⟨_, rfl⟩, ?_, front,
        fun same => absurd (closed.symm.trans same) changed⟩
      · simp only [closeChanFd]
        omega
      · simp only [closeChanFd, credits_append, credits_singleton, Out.credit, List.length_nil]
        omega

/-- The data of a packet is taken that has been taken off the window already. -/
theorem takeData_served {o : Opts} {e : End} (buf : e.chan.writebuf.Valid)
    (size : e.chan.writebuf.size = o.recvWindow) (fd : 0 ≤ e.chan.writefd) (w : Write) {s : Bytes}
    (room : e.chan.recvwindow + e.chan.recvdonelen + e.chan.writebuf.used + s.length ≤
      o.recvWindow) :
    ∃ b, takeData o w e s = .ok (some b) ∧
      Served o s { e with chan := { e.chan with recvwindow := e.chan.recvwindow + s.length } } b := by
  obtain ⟨mid, b, consumed, ret, write, wrote, adjusted⟩ :=
    writechannel_ok buf size w e.chan.writefd (some s) room
  cases wrote with
  | took t c _ valid size' le order =>
    simp only [Option.getD_some] at le order
    have lengths := congrArg List.length order
    simp only [List.length_append, Circbuffer.length_contents buf,
      Circbuffer.length_contents valid] at lengths
    have kept : b.chan.writebuf = c ∧ b.written = e.written ++ t := by
      cases adjusted <;> exact ⟨rfl, rfl⟩
    have size := size'.trans size
    obtain ⟨d, fill, filled, holds, size''⟩ := Circbuffer.fill_ok valid (s := s.drop consumed)
      (by rw [cbufGetavail, size]; omega) (.inr (Nat.le_refl _))
    have used : d.used = c.used + (s.drop consumed).length := by
      rw [← Circbuffer.length_contents filled, holds, List.length_append,
        Circbuffer.length_contents valid]
    have whole : e.written ++ t ++ d.contents = e.written ++ e.chan.writebuf.contents ++ s := by
      rw [holds, List.append_assoc, ← List.append_assoc t, order, List.append_assoc]
    refine ⟨{ b with chan := { b.chan with writebuf := d } }, ?_, ?_⟩
    · simp only [takeData, write, bind, Except.bind, if_true, kept.1, fill, pure, Except.pure]
    · have size := size''.trans size
      have front : e.written ++ t <+: e.written ++ e.chan.writebuf.contents ++ s :=
        ⟨d.contents, whole⟩
      cases adjusted with
      | later little =>
        exact ⟨⟨filled, size, by dsimp only; omega, .inr little⟩, rfl, ⟨_, .inl rfl, rfl⟩,
          .inl rfl, by dsimp only; omega, front, fun _ => ⟨whole, by dsimp only; omega⟩⟩
      | now =>
        exact ⟨⟨filled, size, by dsimp only; omega, .inl rfl⟩, rfl, ⟨_, .inl rfl, rfl⟩,
          .inr ⟨_, rfl⟩, by simp [Out.credit]; omega, front,
          fun _ => ⟨whole, by dsimp only; omega⟩⟩
  | broken =>
    have closed := closeChanFd_writefd e.chan .wr (by decide)
    have changed : ¬ fdClosed = e.chan.writefd := by
      unfold fdClosed
      omega
    have front : e.written <+: e.written ++ e.chan.writebuf.contents ++ s :=
      ⟨e.chan.writebuf.contents ++ s, by simp⟩
    refine ⟨b, by simp [takeData, write, bind, Except.bind, pure, Except.pure], ?_⟩
    cases adjusted with
    | later little =>
      refine ⟨⟨buf, size, ?_, .inr little⟩, rfl, ⟨_, .inr rfl, rfl⟩, .inl rfl, ?_, front,
        fun same => absurd (closed.symm.trans same) changed⟩
      · simp only [closeChanFd]
        omega
      · simp only [closeChanFd]
        omega
    | now =>
      refine ⟨⟨buf, size, ?_, .inl rfl⟩, rfl, ⟨_, .inr rfl, rfl⟩, .inr ⟨_, rfl⟩, ?_, front,
        fun same => absurd (closed.symm.trans same) changed⟩
      · simp only [closeChanFd]
        omega
      · simp only [closeChanFd, credits_append, credits_singleton, Out.credit]
        omega

/-- A packet within the window is taken. -/
theorem recvMsgChannelData_served {o : Opts} {e : End} (h : Stocked o e.chan)
    (fd : 0 ≤ e.chan.writefd) (eof : e.chan.recvEof = false) (w : Write) {s : Bytes}
    (fits : s.length ≤ e.chan.recvwindow) :
    ∃ b, commonRecvMsgChannelData o w e (putString s) = .ok (some b) ∧ Served o s e b := by
  have room := h.room
  have bounded : o.recvWindow ≤ 10 * 1024 * 1024 := o.bounded
  have int : bufGetInt (putString s) = .ok (s.length, s) := by
    simpa [show s.length % 0x100000000 = s.length by omega] using bufGetInt_putString s []
  have ptr : bufGetPtr s s.length = .ok s := by
    have ptr : bufGetPtr (s ++ []) s.length = .ok s :=
      bufGetPtr_append (by unfold bufMaxIncr; omega)
    rwa [List.append_nil] at ptr
  have avail : ¬ cbufGetavail e.chan.writebuf < s.length := by
    rw [cbufGetavail, h.size]
    omega
  have below : e.chan.recvwindow - s.length ≤ o.recvWindow := by omega
  obtain ⟨b, take, served⟩ := takeData_served (o := o)
    (e := { e with chan := { e.chan with recvwindow := e.chan.recvwindow - s.length } })
    h.buf h.size fd w (s := s) (by dsimp only; omega)
  refine ⟨b, ?_, ?_⟩
  · simp only [commonRecvMsgChannelData, if_neg (show ¬ e.chan.recvEof = true by simp [eof]),
      if_neg (show ¬ e.chan.writefd < 0 by omega), int, bind, Except.bind, if_neg avail,
      dropbearAssert, fits, decide_true, if_true, below, ptr, take]
  · simpa [Nat.sub_add_cancel fits] using served

/-- A packet beyond the window ends the session, even where the buffer has room for it. -/
theorem recvMsgChannelData_over (o : Opts) (w : Write) {e : End} (fd : 0 ≤ e.chan.writefd)
    (eof : e.chan.recvEof = false) {s : Bytes} (packet : s.length < 0x100000000)
    (beyond : e.chan.recvwindow < s.length) :
    commonRecvMsgChannelData o w e (putString s) =
      dropbearExit (if cbufGetavail e.chan.writebuf < s.length then "Oversized packet"
        else "Failed assertion: channel->recvwindow >= datalen") := by
  have int : bufGetInt (putString s) = .ok (s.length, s) := by
    simpa [Nat.mod_eq_of_lt packet] using bufGetInt_putString s []
  have fd : ¬ e.chan.writefd < 0 := Int.not_lt.mpr fd
  rw [commonRecvMsgChannelData, eof, if_neg Bool.false_ne_true, if_neg fd, int]
  simp only [bind, Except.bind]
  split
  · rfl
  · rw [dropbearAssert, if_neg (by simpa using beyond)]
    rfl

end Ikofi.Flow
