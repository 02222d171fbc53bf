import Ikofi.Flow.Window

/-!
# What one event does to a channel

An invariant ties the descriptors to what has been sent: no data follows the end
of file, nothing follows the close message, and the slot is left only when both
sides have closed. A second description says by how much an event moves the two
windows and what it does to the bytes on their way. Each function keeps the first
and meets the second.
-/

namespace Ikofi.Flow

/-- How much of the client's window a message takes. -/
def Out.load : Out → Nat
  | .data s | .extended s => s.length
  | _ => 0

def loads (l : List Out) : Nat := total Out.load l

@[simp] theorem loads_append (l k : List Out) : loads (l ++ k) = loads l + loads k :=
  total_append Out.load l k

@[simp] theorem loads_nil : loads [] = 0 := rfl

@[simp] theorem loads_singleton (m : Out) : loads [m] = m.load := by simp [loads, total]

/-- How far the server has ended what it sends. -/
inductive Phase
  | flowing
  | ended
  | exiting
  | closed
  deriving DecidableEq, Repr

/-- What may be sent, and what that leaves: data until the end of file, the exit of the
program only directly before the close message, and nothing after that. -/
def Out.next : Phase → Out → Option Phase
  | .flowing, .data _ | .flowing, .extended _ => some .flowing
  | .flowing, .eof => some .ended
  | .flowing, .windowAdjust _ | .flowing, .success | .flowing, .failure => some .flowing
  | .ended, .windowAdjust _ | .ended, .success | .ended, .failure => some .ended
  | .flowing, .exitStatus _ | .flowing, .exitSignal _ _ => some .exiting
  | .ended, .exitStatus _ | .ended, .exitSignal _ _ => some .exiting
  | .flowing, .close | .ended, .close | .exiting, .close => some .closed
  | _, _ => none

def Channel.phase (ch : Channel) : Phase :=
  if ch.sentClose then .closed else if ch.sentEof then .ended else .flowing

/-- A session in which no command has been started and whose input has not ended. -/
def Channel.Idle (ch : Channel) : Prop :=
  ch.recvEof = false ∧ ∃ child, ch.session = some child ∧ child.pid = 0

/-- What the flags, the descriptors and the messages have to do with each other. -/
structure Orderly (e : End) : Prop where
  grammar : e.sent.foldlM Out.next .flowing = some e.chan.phase
  eofSent : e.chan.sentEof = true → e.chan.readfd = fdClosed ∧ e.chan.errfd = fdClosed
  closeSent : e.chan.sentClose = true → e.chan.sentEof = true ∧ e.chan.writefd = fdClosed
  bidir : e.chan.bidirFd = true → e.chan.errfd = fdClosed
  gone : e.present = false → e.chan.sentClose = true ∧ e.chan.recvClose = true
  closed : e.chan.recvClose = true → e.chan.recvEof = true
  unborn : ∀ child, e.chan.session = some child → child.pid = 0 → child.exit = none
  last : e.chan.sentClose = true → ∀ child, e.chan.session = some child → ∃ before old,
    e.sent = before ++ sendExitsignalstatus old ++ [.close] ∧ old.pid = child.pid ∧
      (old.pid = 0 ∨ old.exit.isSome = true)
  idle : e.chan.Idle → e.chan.writefd = fdUninit ∧ e.chan.readfd = fdUninit ∧
    e.chan.errfd = fdClosed ∧ e.chan.sentEof = false ∧ e.chan.bidirFd = false

/-- What an event that accepts `s` for the program does, apart from the flags. -/
structure Effect (o : Opts) (s : Bytes) (a b : End) : Prop where
  stocked : Stocked o a.chan → Stocked o b.chan
  sent : ∃ l, b.sent = a.sent ++ l ∧ ∀ m ∈ l, m.load ≤ a.chan.transmaxpacket
  maxpacket : b.chan.transmaxpacket = a.chan.transmaxpacket
  credit : credits b.sent + a.chan.recvwindow = credits a.sent + b.chan.recvwindow + s.length
  load : loads b.sent + b.chan.transwindow = loads a.sent + a.chan.transwindow
  writefd : b.chan.writefd = a.chan.writefd ∨ b.chan.writefd = fdClosed
  good : 0 ≤ b.chan.writefd →
    b.written ++ b.chan.writebuf.contents = a.written ++ a.chan.writebuf.contents ++ s ∧
    b.chan.recvwindow + b.chan.recvdonelen + b.chan.writebuf.used =
      a.chan.recvwindow + a.chan.recvdonelen + a.chan.writebuf.used
  recvEof : b.chan.recvEof = a.chan.recvEof
  recvClose : b.chan.recvClose = a.chan.recvClose
  front : b.written <+: a.written ++ a.chan.writebuf.contents ++ s
  idle : b.chan.Idle → a.chan.Idle
  quiet : a.chan.writefd < 0 → b.written = a.written ∧ b.chan.writebuf = a.chan.writebuf ∧
    b.chan.recvwindow = a.chan.recvwindow ∧ b.chan.recvdonelen = a.chan.recvdonelen

variable {o : Opts}

theorem Effect.refl (e : End) : Effect o [] e e :=
  ⟨id, ⟨[], by simp⟩, rfl, by simp, rfl, .inl rfl, fun _ => by simp, rfl, rfl,
    ⟨_, (List.append_assoc ..).symm⟩, id, fun _ => ⟨rfl, rfl, rfl, rfl⟩⟩

theorem Effect.trans {s t : Bytes} {a b c : End} (h : Effect o s a b) (k : Effect o t b c) :
    Effect o (s ++ t) a c := by
  have hopen : 0 ≤ c.chan.writefd → 0 ≤ b.chan.writefd := by
    rcases k.writefd with same | closed
    · rw [same]
      exact id
    · rw [closed]
      exact fun positive => absurd positive (by decide)
  obtain ⟨l, hl, hmax⟩ := h.sent
  obtain ⟨m, km, kmax⟩ := k.sent
  constructor
  · exact fun stocked => k.stocked (h.stocked stocked)
  · refine ⟨l ++ m, by rw [km, hl, List.append_assoc], fun x mem => ?_⟩
    rcases List.mem_append.mp mem with mem | mem
    · exact hmax x mem
    · exact h.maxpacket ▸ kmax x mem
  · exact k.maxpacket.trans h.maxpacket
  · have := h.credit
    have := k.credit
    simp only [List.length_append]
    omega
  · have := h.load
    have := k.load
    omega
  · rcases k.writefd with same | closed
    · rw [same]
      exact h.writefd
    · exact .inr closed
  · intro fd
    obtain ⟨order, stock⟩ := k.good fd
    obtain ⟨order', stock'⟩ := h.good (hopen fd)
    exact ⟨by rw [order, order', List.append_assoc], stock.trans stock'⟩
  · exact k.recvEof.trans h.recvEof
  · exact k.recvClose.trans h.recvClose
  · by_cases fd : b.chan.writefd < 0
    · rw [(k.quiet fd).1]
      exact h.front.trans ⟨t, List.append_assoc ..⟩
    · have front := k.front
      rw [(h.good (Int.not_lt.mp fd)).1] at front
      simpa only [List.append_assoc] using front
  · exact fun idle => h.idle (k.idle idle)
  · intro fd
    obtain ⟨written, buf, window, done⟩ := h.quiet fd
    have fd' : b.chan.writefd < 0 := by
      rcases h.writefd with same | closed
      · omega
      · rw [closed]
        decide
    obtain ⟨written', buf', window', done'⟩ := k.quiet fd'
    exact ⟨written'.trans written, buf'.trans buf, window'.trans window, done'.trans done⟩

theorem closeChanFd_closed (ch : Channel) (fd : Int) (how : How) :
    ((closeChanFd ch fd how).writefd = ch.writefd ∨ (closeChanFd ch fd how).writefd = fdClosed) ∧
    ((closeChanFd ch fd how).readfd = ch.readfd ∨ (closeChanFd ch fd how).readfd = fdClosed) ∧
    ((closeChanFd ch fd how).errfd = ch.errfd ∨ (closeChanFd ch fd how).errfd = fdClosed) := by
  simp only [closeChanFd]
  refine ⟨?_, ?_, ?_⟩ <;> split <;> simp

theorem closeChanFd_effect (e : End) (fd : Int) (how : How) :
    Effect o [] e { e with chan := closeChanFd e.chan fd how } :=
  ⟨fun h => ⟨h.buf, h.size, h.room, h.owed⟩, ⟨[], by simp⟩, rfl, rfl, rfl,
    (closeChanFd_closed _ _ _).1, fun _ => ⟨by simp [closeChanFd], rfl⟩, rfl, rfl,
    ⟨_, (List.append_assoc ..).symm⟩, id, fun _ => ⟨rfl, rfl, rfl, rfl⟩⟩

/-- Closing a descriptor is in order unless the session still waits for its command. -/
theorem closeChanFd_orderly {e : End} (h : Orderly e) (busy : ¬ e.chan.Idle) (fd : Int)
    (how : How) : Orderly { e with chan := closeChanFd e.chan fd how } := by
  obtain ⟨writefd, readfd, errfd⟩ := closeChanFd_closed e.chan fd how
  have stays : ∀ {new old : Int}, new = old ∨ new = fdClosed → old = fdClosed → new = fdClosed :=
    fun h closed => h.elim (fun same => same.trans closed) id
  exact ⟨h.grammar, fun eof => ⟨stays readfd (h.eofSent eof).1, stays errfd (h.eofSent eof).2⟩,
    fun close => ⟨(h.closeSent close).1, stays writefd (h.closeSent close).2⟩,
    fun bidir => stays errfd (h.bidir bidir), h.gone, h.closed, h.unborn,
    h.last, fun idle => absurd idle busy⟩

theorem Orderly.busy_of_open {e : End} (h : Orderly e)
    (fd : 0 ≤ e.chan.writefd ∨ 0 ≤ e.chan.readfd ∨ 0 ≤ e.chan.errfd) : ¬ e.chan.Idle := by
  intro idle
  obtain ⟨writefd, readfd, errfd, -⟩ := h.idle idle
  rw [writefd, readfd, errfd] at fd
  exact absurd fd (by decide)

theorem Orderly.phase_open {e : End} (h : Orderly e) (fd : 0 ≤ e.chan.writefd) :
    e.chan.phase = if e.chan.sentEof then .ended else .flowing := by
  have unsent : ¬ e.chan.sentClose = true := fun close => by
    have closed := (h.closeSent close).2
    rw [closed] at fd
    exact absurd fd (by decide)
  rw [Channel.phase, if_neg unsent]

theorem Orderly.phase_reading {e : End} (h : Orderly e)
    (fd : 0 ≤ e.chan.readfd ∨ 0 ≤ e.chan.errfd) :
    e.chan.phase = .flowing ∧ e.chan.sentClose = false := by
  have unsent : ¬ e.chan.sentEof = true := fun eof => by
    obtain ⟨readfd, errfd⟩ := h.eofSent eof
    rw [readfd, errfd] at fd
    exact absurd fd (by decide)
  have open_ : ¬ e.chan.sentClose = true := fun close => unsent (h.closeSent close).1
  exact ⟨by rw [Channel.phase, if_neg open_, if_neg unsent], by simpa using open_⟩

theorem flushFd_kept {e : End} (h : Orderly e) (pending : Bool) {fd : Int}
    (reads : fd = e.chan.readfd ∨ fd = e.chan.errfd) :
    Orderly { e with chan := flushFd pending e.chan fd } ∧
      Effect o [] e { e with chan := flushFd pending e.chan fd } := by
  unfold flushFd
  split
  · rename_i pends
    simp only [Bool.and_eq_true, decide_eq_true_eq] at pends
    have busy : ¬ e.chan.Idle := by
      refine h.busy_of_open (.inr ?_)
      rcases reads with rfl | rfl
      · exact .inl pends.1
      · exact .inr pends.1
    exact ⟨closeChanFd_orderly h busy _ _, closeChanFd_effect e _ _⟩
  · exact ⟨h, Effect.refl e⟩

theorem flush_kept {e : End} (h : Orderly e) (p : Pending) :
    Orderly { e with chan := flush p e.chan } ∧ Effect o [] e { e with chan := flush p e.chan } := by
  unfold flush
  split
  · obtain ⟨orderly, effect⟩ := flushFd_kept h p.readfd (.inl rfl)
    obtain ⟨orderly', effect'⟩ := flushFd_kept orderly p.errfd (.inr rfl)
    exact ⟨orderly', effect.trans effect'⟩
  · exact ⟨h, Effect.refl e⟩

theorem sendMsgChannelEof_kept {e : End} (h : Orderly e) (unsent : e.chan.sentEof = false)
    (readfd : e.chan.readfd = fdClosed) (errfd : e.chan.errfd = fdClosed) :
    Orderly (sendMsgChannelEof e) ∧ Effect o [] e (sendMsgChannelEof e) := by
  have open_ : ¬ e.chan.sentClose = true := fun close => by simp [(h.closeSent close).1] at unsent
  have phase : e.chan.phase = .flowing := by simp [Channel.phase, open_, unsent]
  refine ⟨⟨?_, fun _ => ⟨readfd, errfd⟩, fun close => absurd close open_, h.bidir, h.gone, h.closed,
    h.unborn, fun close => absurd close open_, ?_⟩, ?_⟩
  · simp only [sendMsgChannelEof, List.foldlM_append, h.grammar, phase]
    simp [Channel.phase, open_, Out.next]
  · intro idle
    have uninit := (h.idle idle).2.1
    rw [readfd] at uninit
    cases uninit
  · exact ⟨fun h => ⟨h.buf, h.size, h.room, h.owed⟩, ⟨[.eof], rfl, by simp [Out.load]⟩, rfl,
      by simp [sendMsgChannelEof, Out.credit], by simp [sendMsgChannelEof, Out.load], .inl rfl,
      fun _ => by simp [sendMsgChannelEof], rfl, rfl, ⟨_, (List.append_assoc ..).symm⟩, id,
      fun _ => ⟨rfl, rfl, rfl, rfl⟩⟩

/-- Between the phases that are left for the close message, at most the exit of the program
is sent. -/
theorem closehandler_close (ch : Channel) {phase : Phase}
    (open_ : phase = .flowing ∨ phase = .ended) :
    (closehandler ch ++ [Out.close]).foldlM Out.next phase = some .closed ∧
      credits (closehandler ch) = 0 ∧ loads (closehandler ch) = 0 ∧
      ∀ m ∈ closehandler ch, m.load = 0 := by
  have cases : closehandler ch = [] ∨ (∃ status, closehandler ch = [.exitStatus status]) ∨
      ∃ signame core, closehandler ch = [.exitSignal signame core] := by
    simp only [closehandler]
    rcases ch.session with _ | ⟨pid, _ | ⟨status, _ | sig, core⟩⟩
    · exact .inl rfl
    · exact .inl rfl
    · exact .inr (.inl ⟨_, rfl⟩)
    · cases name : signames.lookup sig with
      | none => exact .inl (by simp [sendExitsignalstatus, name])
      | some signame =>
        exact .inr (.inr ⟨signame, core, by simp [sendExitsignalstatus, name]⟩)
  rcases cases with none | ⟨status, sent⟩ | ⟨signame, core, sent⟩
  · rcases open_ with rfl | rfl <;> simp [none, Out.next]
  · rcases open_ with rfl | rfl <;> simp [sent, Out.next, Out.credit, Out.load]
  · rcases open_ with rfl | rfl <;> simp [sent, Out.next, Out.credit, Out.load]

theorem closeChanFd_stays (ch : Channel) (fd : Int) (how : How) :
    (ch.writefd = fdClosed → (closeChanFd ch fd how).writefd = fdClosed) ∧
    (ch.readfd = fdClosed → (closeChanFd ch fd how).readfd = fdClosed) ∧
    (ch.errfd = fdClosed → (closeChanFd ch fd how).errfd = fdClosed) := by
  obtain ⟨writefd, readfd, errfd⟩ := closeChanFd_closed ch fd how
  exact ⟨fun closed => writefd.elim (·.trans closed) id,
    fun closed => readfd.elim (·.trans closed) id, fun closed => errfd.elim (·.trans closed) id⟩

theorem sendMsgChannelClose_fds {e : End} (bidir : e.chan.bidirFd = true → e.chan.errfd = fdClosed) :
    (sendMsgChannelClose e).chan.writefd = fdClosed ∧
      (sendMsgChannelClose e).chan.readfd = fdClosed ∧
      (sendMsgChannelClose e).chan.errfd = fdClosed := by
  simp only [sendMsgChannelClose]
  set ch := { e.chan with sentEof := true, sentClose := true } with hch
  set first := closeChanFd ch ch.readfd .rd with hfirst
  set second := closeChanFd first first.errfd .rdwr with hsecond
  have readfd : first.readfd = fdClosed := by simp [hfirst, closeChanFd]
  have errfd : second.errfd = fdClosed := by
    by_cases both : e.chan.bidirFd = true
    · exact (closeChanFd_stays _ _ _).2.2 ((closeChanFd_stays _ _ _).2.2 (bidir both))
    · have single : first.bidirFd = false := Bool.eq_false_iff.mpr both
      simp [hsecond, closeChanFd, single]
  exact ⟨closeChanFd_writefd _ _ (by decide),
    (closeChanFd_stays _ _ _).2.1 ((closeChanFd_stays _ _ _).2.1 readfd),
    (closeChanFd_stays _ _ _).2.2 errfd⟩

/-- No program of the session is running. -/
def Channel.Reaped (ch : Channel) : Prop :=
  ∀ child, ch.session = some child → child.pid = 0 ∨ child.exit.isSome = true

theorem sendMsgChannelClose_kept {e : End} (h : Orderly e) (unsent : e.chan.sentClose = false)
    (busy : ¬ e.chan.Idle) (reaped : e.chan.Reaped) :
    Orderly (sendMsgChannelClose e) ∧ Effect o [] e (sendMsgChannelClose e) := by
  obtain ⟨writefd, readfd, errfd⟩ := sendMsgChannelClose_fds h.bidir
  have phase : e.chan.phase = .flowing ∨ e.chan.phase = .ended := by
    simp only [Channel.phase, unsent, Bool.false_eq_true, if_false]
    split
    · exact .inr rfl
    · exact .inl rfl
  obtain ⟨grammar, credit, total, load⟩ := closehandler_close e.chan phase
  have stays : e.present = false → False := fun gone => by simp [(h.gone gone).1] at unsent
  refine ⟨⟨?_, fun _ => ⟨readfd, errfd⟩, fun _ => ⟨rfl, writefd⟩, fun _ => errfd,
    fun gone => (stays gone).elim, h.closed, h.unborn, fun _ child session => ?_,
    fun idle => absurd idle busy⟩, ?_⟩
  · have sent : (sendMsgChannelClose e).sent = e.sent ++ (closehandler e.chan ++ [.close]) := by
      simp [sendMsgChannelClose]
    rw [sent, List.foldlM_append, h.grammar]
    exact grammar
  · have session : e.chan.session = some child := session
    refine ⟨e.sent, child, ?_, rfl, reaped child session⟩
    simp [sendMsgChannelClose, closehandler, session]
  · refine ⟨fun h => ⟨h.buf, h.size, h.room, h.owed⟩, ⟨closehandler e.chan ++ [.close],
      by simp [sendMsgChannelClose], fun m mem => ?_⟩, rfl, ?_, ?_, .inr writefd, fun fd => ?_, rfl,
      rfl, ⟨_, (List.append_assoc ..).symm⟩, id, fun _ => ⟨rfl, rfl, rfl, rfl⟩⟩
    · rcases List.mem_append.mp mem with mem | mem
      · simp [load m mem]
      · simp [List.mem_singleton.mp mem, Out.load]
    · simp [sendMsgChannelClose, credit, Out.credit, closeChanFd]
    · simp [sendMsgChannelClose, total, Out.load, closeChanFd]
    · rw [writefd] at fd
      exact absurd fd (by decide)

theorem halfClose_kept {e : End} (h : Orderly e) (stays : e.present = true) {allowed : Bool}
    (reaped : allowed = true → e.chan.sentClose = false → e.chan.Reaped) :
    Orderly (halfClose allowed e) ∧ Effect o [] e (halfClose allowed e) ∧
      (halfClose allowed e).present = true := by
  have not_idle : ∀ {e : End}, Orderly e → e.chan.readfd = fdClosed → ¬ e.chan.Idle := by
    intro e h readfd idle
    have uninit := (h.idle idle).2.1
    rw [readfd] at uninit
    cases uninit
  unfold halfClose
  extract_lets ch ch' e1 e2
  have same : ch'.session = e.chan.session ∧ ch'.sentClose = e.chan.sentClose := by
    simp only [ch']
    split <;> exact ⟨rfl, rfl⟩
  have first : Orderly e1 ∧ Effect o [] e e1 := by
    show Orderly { e with chan := ch' } ∧ Effect o [] e { e with chan := ch' }
    simp only [ch']
    split
    · rename_i close
      refine ⟨closeChanFd_orderly h (fun idle => ?_) _ _, closeChanFd_effect e _ _⟩
      have uninit := (h.idle idle).1
      simp [ch, idle.1, uninit] at close
    · exact ⟨h, Effect.refl e⟩
  have second : Orderly e2 ∧ Effect o [] e e2 ∧ e2.present = true ∧ e2.chan.readfd = ch'.readfd ∧
      e2.chan.sentClose = ch'.sentClose ∧ e2.chan.session = ch'.session := by
    simp only [e2]
    split
    · rename_i eof
      simp only [Bool.and_eq_true, Bool.not_eq_true', beq_iff_eq] at eof
      obtain ⟨orderly, effect⟩ := sendMsgChannelEof_kept first.1 eof.1.1 eof.1.2 eof.2
      exact ⟨orderly, first.2.trans effect, stays, rfl, rfl, rfl⟩
    · exact ⟨first.1, first.2, stays, rfl, rfl, rfl⟩
  obtain ⟨orderly, effect, stays, readfd, sentClose, session⟩ := second
  split
  · rename_i close
    simp only [Bool.and_eq_true, Bool.not_eq_true', beq_iff_eq] at close
    have unsent : e.chan.sentClose = false := same.2.symm.trans close.1.1.2
    obtain ⟨orderly', effect'⟩ := sendMsgChannelClose_kept orderly
      (sentClose.trans close.1.1.2) (not_idle orderly (readfd.trans close.1.1.1.1.1))
      (by rw [Channel.Reaped, session, same.1]; exact reaped close.1.2 unsent)
    exact ⟨orderly', effect.trans effect', stays⟩
  · exact ⟨orderly, effect, stays⟩

theorem closeAllowed_kept {e : End} (h : Orderly e) :
    Orderly { e with chan := (closeAllowed e.chan).2 } ∧
      Effect o [] e { e with chan := (closeAllowed e.chan).2 } := by
  have same : (closeAllowed e.chan).2 = e.chan ∨
      (closeAllowed e.chan).2 = { e.chan with flushing := true } := by
    unfold closeAllowed sesscheckclose
    split
    · exact .inl rfl
    · split
      · exact .inl rfl
      · dsimp only
        split
        · exact .inr rfl
        · exact .inl rfl
  rcases same with same | same
  · rw [same]
    exact ⟨h, Effect.refl e⟩
  · rw [same]
    exact ⟨⟨h.grammar, h.eofSent, h.closeSent, h.bidir, h.gone, h.closed, h.unborn, h.last,
        h.idle⟩, ⟨fun h => ⟨h.buf, h.size, h.room, h.owed⟩, ⟨[], by simp⟩, rfl, rfl, rfl, .inl rfl,
        fun _ => by simp, rfl, rfl, ⟨_, (List.append_assoc ..).symm⟩, id,
        fun _ => ⟨rfl, rfl, rfl, rfl⟩⟩⟩

theorem closeAllowed_fields (ch : Channel) :
    (closeAllowed ch).2.session = ch.session ∧ (closeAllowed ch).2.sentClose = ch.sentClose := by
  unfold closeAllowed sesscheckclose
  split
  · exact ⟨rfl, rfl⟩
  · split
    · exact ⟨rfl, rfl⟩
    · dsimp only
      split <;> exact ⟨rfl, rfl⟩

theorem closeAllowed_reaped {ch : Channel} (allowed : (closeAllowed ch).1 = true)
    (unsent : ch.sentClose = false) : ch.Reaped := by
  intro child session
  simpa [closeAllowed, session, unsent, sesscheckclose] using allowed

theorem flush_fields (p : Pending) (ch : Channel) :
    (flush p ch).session = ch.session ∧ (flush p ch).sentClose = ch.sentClose := by
  unfold flush flushFd
  split
  · dsimp only
    split <;> split <;> exact ⟨rfl, rfl⟩
  · exact ⟨rfl, rfl⟩

theorem checkClose_kept {e : End} (h : Orderly e) (stays : e.present = true) (p : Pending) :
    Orderly (checkClose p e) ∧ Effect o [] e (checkClose p e) := by
  obtain ⟨orderly, effect⟩ := closeAllowed_kept (o := o) h
  obtain ⟨orderly', effect'⟩ := flush_kept orderly p
  replace effect' := effect.trans effect'
  have reaped : (closeAllowed e.chan).1 = true →
      (flush p (closeAllowed e.chan).2).sentClose = false →
      (flush p (closeAllowed e.chan).2).Reaped := by
    intro allowed unsent
    obtain ⟨session, sentClose⟩ := flush_fields p (closeAllowed e.chan).2
    obtain ⟨session', sentClose'⟩ := closeAllowed_fields e.chan
    rw [Channel.Reaped, session, session']
    exact closeAllowed_reaped allowed (by rw [← sentClose', ← sentClose, unsent])
  unfold checkClose
  generalize closeAllowed e.chan = verdict at orderly' effect' reaped ⊢
  obtain ⟨allowed, ch⟩ := verdict
  dsimp only at orderly' effect' reaped ⊢
  split
  · rename_i closing
    simp only [Bool.and_eq_true] at closing
    have busy : ¬ (flush p ch).Idle := fun idle => by
      have eof := orderly'.closed closing.1.1
      simp [idle.1] at eof
    have last : ∀ {b : End}, Orderly b → Effect o [] e b → b.chan.sentClose = true →
        b.chan.recvClose = true →
        Orderly (removeChannel b) ∧ Effect o [] e (removeChannel b) := by
      intro b hb effect sent recv
      exact ⟨⟨hb.grammar, hb.eofSent, hb.closeSent, hb.bidir, fun _ => ⟨sent, recv⟩, hb.closed,
        hb.unborn, hb.last, hb.idle⟩, ⟨effect.stocked, effect.sent, effect.maxpacket, effect.credit, effect.load,
        effect.writefd, effect.good, effect.recvEof, effect.recvClose, effect.front, effect.idle,
        effect.quiet⟩⟩
    split
    · rename_i sent
      exact last orderly' effect' sent closing.1.1
    · rename_i unsent
      have unsent : (flush p ch).sentClose = false := by simpa using unsent
      obtain ⟨orderly, effect⟩ := sendMsgChannelClose_kept orderly' unsent busy
        (reaped closing.2 unsent)
      exact last orderly (effect'.trans effect) rfl closing.1.1
  · obtain ⟨orderly, effect, -⟩ := halfClose_kept orderly' stays reaped
    exact ⟨orderly, effect'.trans effect⟩

/-- Serving the program keeps the order: a window is only opened while the descriptor was
good, so before the close message. -/
theorem Served.kept {o : Opts} {s : Bytes} {a b : End} (h : Orderly a)
    (fd : 0 ≤ a.chan.writefd) (served : Served o s a b) : Orderly b ∧ Effect o s a b := by
  obtain ⟨stocked, present, ⟨ch, frame, chan⟩, sent, credit, front, good⟩ := served
  have orderly : Orderly { a with chan := ch } ∧ Effect o [] a { a with chan := ch } := by
    rcases frame with rfl | rfl
    · exact ⟨h, Effect.refl a⟩
    · exact ⟨closeChanFd_orderly h (h.busy_of_open (.inl fd)) _ _, closeChanFd_effect a _ _⟩
  obtain ⟨h', effect⟩ := orderly
  have phase : a.chan.phase = .flowing ∨ a.chan.phase = .ended := by
    rw [h.phase_open fd]
    split
    · exact .inr rfl
    · exact .inl rfl
  have same : b.chan.phase = a.chan.phase := by
    rw [chan]
    rcases frame with rfl | rfl <;> rfl
  have grammar : b.sent.foldlM Out.next .flowing = some b.chan.phase := by
    rw [same]
    rcases sent with sent | ⟨n, sent⟩
    · rw [sent, h.grammar]
    · rw [sent, List.foldlM_append, h.grammar]
      rcases phase with phase | phase <;> simp [phase, Out.next]
  have added : ∃ l, b.sent = a.sent ++ l ∧ loads l = 0 ∧ ∀ m ∈ l, m.load = 0 := by
    rcases sent with sent | ⟨n, sent⟩
    · exact ⟨[], by simp [sent], rfl, by simp⟩
    · exact ⟨[.windowAdjust n], sent, rfl, by simp [Out.load]⟩
  obtain ⟨l, added, load, each⟩ := added
  constructor
  · have open_ : ¬ ch.sentClose = true := fun close => by
      have closed : a.chan.sentClose = true := by rcases frame with rfl | rfl <;> exact close
      have := (h.closeSent closed).2
      rw [this] at fd
      exact absurd fd (by decide)
    refine ⟨grammar, ?_, ?_, ?_, ?_, ?_, ?_, ?_, ?_⟩ <;> rw [chan]
    · exact h'.eofSent
    · exact h'.closeSent
    · exact h'.bidir
    · rw [present]
      exact h'.gone
    · exact h'.closed
    · exact h'.unborn
    · exact fun close => absurd close open_
    · exact h'.idle
  · refine ⟨fun _ => stocked, ⟨l, added, fun m mem => by rw [each m mem]; exact Nat.zero_le _⟩, ?_,
      credit, ?_, ?_,
      fun fd' => good ?_, ?_, ?_, front, ?_, fun closed => absurd fd (by omega)⟩
    · rw [chan]
      exact effect.maxpacket
    · rw [added, loads_append, load, chan]
      have := effect.load
      dsimp only at this ⊢
      omega
    · rw [chan]
      exact effect.writefd
    · rcases effect.writefd with same | closed
      · rw [chan]
        exact same
      · rw [chan] at fd'
        dsimp only at fd' closed
        rw [closed] at fd'
        exact absurd fd' (by decide)
    · rw [chan]
      exact effect.recvEof
    · rw [chan]
      exact effect.recvClose
    · rw [chan]
      exact effect.idle

theorem sendRead_kept {e : End} (h : Orderly e) (isextended : Bool)
    (fd : 0 ≤ channelFd e.chan isextended) {read : Option Bytes}
    (short : ∀ s ∈ read, s.length ≤ maxlen e.chan isextended) :
    Orderly (sendRead e isextended read) ∧ Effect o [] e (sendRead e isextended read) ∧
      (sendRead e isextended read).present = e.present := by
  have reading : 0 ≤ e.chan.readfd ∨ 0 ≤ e.chan.errfd := by
    cases isextended with
    | true => exact .inr fd
    | false => exact .inl fd
  match read with
  | none => exact ⟨h, Effect.refl e, rfl⟩
  | some [] =>
    exact ⟨closeChanFd_orderly h (h.busy_of_open (.inr reading)) _ _, closeChanFd_effect e _ _, rfl⟩
  | some (b :: s) =>
    obtain ⟨phase, unsent⟩ := h.phase_reading reading
    have within := short _ rfl
    unfold maxlen at within
    have load : ∀ s : Bytes, (if isextended = true then Out.extended s else .data s).load =
        s.length ∧ (if isextended = true then Out.extended s else .data s).credit = 0 := by
      cases isextended <;> exact fun _ => ⟨rfl, rfl⟩
    refine ⟨⟨?_, h.eofSent, h.closeSent, h.bidir, h.gone, h.closed, h.unborn,
        fun close => absurd (unsent.symm.trans close) (by decide), h.idle⟩,
      ⟨fun h => ⟨h.buf, h.size, h.room, h.owed⟩, ⟨_, rfl, ?_⟩, rfl, ?_, ?_, .inl rfl,
        fun _ => by simp [sendRead], rfl, rfl, ⟨_, (List.append_assoc ..).symm⟩, id,
        fun _ => ⟨rfl, rfl, rfl, rfl⟩⟩, rfl⟩
    · change _ = some e.chan.phase
      rw [sendRead, List.foldlM_append, h.grammar, phase]
      cases isextended <;> rfl
    · intro m mem
      rw [List.mem_singleton.mp mem, (load _).1]
      omega
    · simp [sendRead, (load _).2]
    · simp only [sendRead, loads_append, loads_singleton, (load _).1]
      omega

/-- Reading from an open descriptor sends what was read, within the client's window and its
packet length, or closes the descriptor. -/
theorem sendMsgChannelData_kept {e : End} (h : Orderly e) (r : Read) (isextended : Bool)
    (fd : 0 ≤ channelFd e.chan isextended) :
    ∃ b, sendMsgChannelData r e isextended = .ok b ∧ Orderly b ∧ Effect o [] e b ∧
      b.present = e.present := by
  have reading : 0 ≤ e.chan.readfd ∨ 0 ≤ e.chan.errfd := by
    cases isextended with
    | true => exact .inr fd
    | false => exact .inl fd
  have unsent : (!e.chan.sentClose) = true := by simp [(h.phase_reading reading).2]
  refine ⟨if maxlen e.chan isextended = 0 then e else
    sendRead e isextended (r.len (maxlen e.chan isextended)), ?_, ?_⟩
  · simp only [sendMsgChannelData, dropbearAssert, unsent, if_true, fd, decide_true, bind,
      Except.bind, pure, Except.pure]
  split
  · exact ⟨h, Effect.refl e, rfl⟩
  · refine sendRead_kept h isextended fd fun s mem => ?_
    cases r with
    | got t =>
      obtain rfl := Option.some.inj mem
      exact List.length_take_le _ _
    | interrupted => cases mem
    | failed =>
      obtain rfl := Option.some.inj mem
      exact Nat.zero_le _

theorem serveRead_kept {e : End} (h : Orderly e) (r : Option Read) (isextended : Bool) :
    ∃ b served, serveRead r isextended e = .ok (b, served) ∧ Orderly b ∧ Effect o [] e b ∧
      b.present = e.present := by
  cases r with
  | none => exact ⟨e, false, rfl, h, Effect.refl e, rfl⟩
  | some r =>
    by_cases fd : channelFd e.chan isextended < 0
    · exact ⟨e, false, if_pos fd, h, Effect.refl e, rfl⟩
    · obtain ⟨b, data, kept⟩ := sendMsgChannelData_kept h r isextended (Int.not_lt.mp fd) (o := o)
      exact ⟨b, true, by simp only [serveRead, if_neg fd, data, Except.map], kept⟩

theorem serveWrite_kept {e : End} (stocked : Stocked o e.chan) (h : Orderly e)
    (w : Option Write) :
    ∃ b served, serveWrite o w e = .ok (b, served) ∧ Orderly b ∧ Effect o [] e b ∧
      b.present = e.present := by
  cases w with
  | none => exact ⟨e, false, rfl, h, Effect.refl e, rfl⟩
  | some w =>
    by_cases fd : e.chan.writefd < 0
    · exact ⟨e, false, if_pos fd, h, Effect.refl e, rfl⟩
    · obtain ⟨b, consumed, ret, write, served⟩ :=
        writechannel_served stocked (Int.not_lt.mp fd) w
      obtain ⟨orderly, effect⟩ := served.kept h (Int.not_lt.mp fd)
      exact ⟨b, true, by simp only [serveWrite, if_neg fd, write, Except.map], orderly, effect,
        served.present⟩

/-- One turn of `channelio` fails on nothing. -/
theorem channelio_kept {e : End} (stocked : Stocked o e.chan) (h : Orderly e)
    (stays : e.present = true) (io : Io) :
    ∃ b, channelio o io e = .ok b ∧ Orderly b ∧ Effect o [] e b := by
  obtain ⟨b, read, data, hb, ab, pb⟩ := serveRead_kept h io.read false (o := o)
  obtain ⟨c, err, extended, hc, bc, pc⟩ := serveRead_kept hb io.err true (o := o)
  obtain ⟨d, write, writes, hd, cd, pd⟩ :=
    serveWrite_kept (bc.stocked (ab.stocked stocked)) hc io.write
  have present : d.present = true := by rw [pd, pc, pb, stays]
  have whole : Effect o [] e d := (ab.trans bc).trans cd
  obtain ⟨checked, effect⟩ := checkClose_kept hd present io.pending (o := o)
  refine ⟨if read || err || write || io.signalPending then checkClose io.pending d else d, ?_, ?_⟩
  · simp only [channelio, data, extended, writes, bind, Except.bind, pure, Except.pure]
  split
  · exact ⟨checked, whole.trans effect⟩
  · exact ⟨hd, whole⟩

theorem recvMsgChannelEof_kept {e : End} (h : Orderly e) (stays : e.present = true) (p : Pending) :
    Orderly (recvMsgChannelEof p e) ∧
      Effect o [] { e with chan := { e.chan with recvEof := true } } (recvMsgChannelEof p e) := by
  have marked : Orderly { e with chan := { e.chan with recvEof := true } } :=
    ⟨h.grammar, h.eofSent, h.closeSent, h.bidir, h.gone, fun _ => rfl, h.unborn,
      h.last, fun idle => absurd idle.1 (by simp)⟩
  exact checkClose_kept marked stays p

theorem recvMsgChannelClose_kept {e : End} (h : Orderly e) (stays : e.present = true)
    (p : Pending) :
    Orderly (recvMsgChannelClose p e) ∧
      Effect o [] { e with chan := { e.chan with recvEof := true, recvClose := true } }
        (recvMsgChannelClose p e) := by
  have marked : Orderly { e with chan := { e.chan with recvEof := true, recvClose := true } } :=
    ⟨h.grammar, h.eofSent, h.closeSent, h.bidir, fun gone => ⟨(h.gone gone).1, rfl⟩, fun _ => rfl,
      h.unborn, h.last, fun idle => absurd idle.1 (by simp)⟩
  exact checkClose_kept marked stays p

/-- The first command of a session comes to descriptors that nothing has been done with. -/
theorem startCommand_kept {e : End} (h : Orderly e) (eof : e.chan.recvEof = false)
    (spawn : Option Spawn) :
    (startCommand e spawn).2 = e ∨ e.chan.Idle ∧ Orderly (startCommand e spawn).2 ∧
      0 ≤ (startCommand e spawn).2.chan.writefd ∧
      ∃ writefd readfd errfd session, (startCommand e spawn).2 = { e with chan := { e.chan with
        writefd := writefd
        readfd := readfd
        errfd := errfd
        bidirFd := false
        session := session } } := by
  unfold startCommand
  split
  · rename_i child sp session
    split
    · rename_i pid
      have idle : e.chan.Idle := ⟨eof, child, session, pid⟩
      have unsent := (h.idle idle).2.2.2.1
      refine .inr ⟨idle, ⟨h.grammar, fun eof => ?_, fun close => ?_, ?_, h.gone, h.closed, ?_,
        fun close => ?_, ?_⟩, Int.natCast_nonneg _, _, _, _, _, rfl⟩
      · simp [unsent] at eof
      · have eof := (h.closeSent close).1
        simp [unsent] at eof
      · simp
      · rintro _ ⟨⟩ zero
        exact absurd zero (Nat.ne_of_gt sp.positive)
      · have eof := (h.closeSent close).1
        simp [unsent] at eof
      · rintro ⟨-, _, ⟨⟩, zero⟩
        exact absurd zero (Nat.ne_of_gt sp.positive)
    · exact .inl rfl
  · exact .inl rfl

theorem sendReply_kept {e : End} (h : Orderly e) (ret wantreply : Bool) :
    Orderly (sendReply ret wantreply e) ∧ Effect o [] e (sendReply ret wantreply e) := by
  unfold sendReply
  split
  · rename_i reply
    simp only [Bool.and_eq_true, Bool.not_eq_true'] at reply
    refine ⟨⟨?_, h.eofSent, h.closeSent, h.bidir, h.gone, h.closed, h.unborn,
        fun close => absurd (reply.2.symm.trans close) (by decide), h.idle⟩,
      ⟨fun h => ⟨h.buf, h.size, h.room, h.owed⟩, ⟨_, rfl, ?_⟩, rfl, ?_, ?_, .inl rfl,
        fun _ => by simp, rfl, rfl, ⟨_, (List.append_assoc ..).symm⟩, id,
        fun _ => ⟨rfl, rfl, rfl, rfl⟩⟩⟩
    · change _ = some e.chan.phase
      rw [List.foldlM_append, h.grammar]
      simp only [Channel.phase, reply.2, Bool.false_eq_true, if_false]
      cases ret <;> split <;> rfl
    · cases ret <;> simp [Out.load]
    · cases ret <;> simp [Out.credit]
    · cases ret <;> simp [Out.load]
  · exact ⟨h, Effect.refl e⟩

theorem childExited_kept {e : End} (h : Orderly e) (info : ExitInfo) :
    Orderly (childExited info e) ∧ Effect o [] e (childExited info e) := by
  have born : ∀ child, (childExited info e).chan.session = some child →
      ∃ old, e.chan.session = some old ∧ child.pid = old.pid ∧
        (child.pid = 0 → child.exit = old.exit) := by
    intro child session
    obtain ⟨old, before, rfl⟩ := Option.map_eq_some_iff.mp session
    refine ⟨old, before, ?_⟩
    split
    · exact ⟨rfl, fun _ => rfl⟩
    · rename_i pid
      exact ⟨rfl, fun zero => absurd zero pid⟩
  refine ⟨⟨h.grammar, h.eofSent, h.closeSent, h.bidir, h.gone, h.closed, ?_, ?_, ?_⟩,
    ⟨fun h => ⟨h.buf, h.size, h.room, h.owed⟩, ⟨[], by simp [childExited]⟩, rfl, rfl, rfl, .inl rfl,
      fun _ => by simp [childExited], rfl, rfl, ⟨_, (List.append_assoc ..).symm⟩, ?_, fun _ => ⟨rfl, rfl, rfl, rfl⟩⟩⟩
  · intro child session pid
    obtain ⟨old, session, same, exit⟩ := born child session
    rw [exit pid]
    exact h.unborn old session (same ▸ pid)
  · intro close child session
    obtain ⟨old, session, same, -⟩ := born child session
    obtain ⟨before, first, sent, pid, ended⟩ := h.last close old session
    exact ⟨before, first, sent, pid.trans same.symm, ended⟩
  · rintro ⟨eof, child, session, pid⟩
    obtain ⟨old, session, same, -⟩ := born child session
    exact h.idle ⟨eof, old, session, same ▸ pid⟩
  · rintro ⟨eof, child, session, pid⟩
    obtain ⟨old, session, same, -⟩ := born child session
    exact ⟨eof, old, session, same ▸ pid⟩

end Ikofi.Flow
