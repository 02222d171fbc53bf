import Ikofi.Flow.CircBuffer

/-!
# One channel of the server

What comes on a channel is written to a descriptor of the program behind it, and
what the program puts out is sent, each direction within a window. The server's
channels have no buffer for extended data, so the third descriptor is only read.
What the operating system answers comes with each event. The numbers of the
channel in its messages are left out, and so are the priority of the connection
and the answer to a signal that is not known by name.
-/

namespace Ikofi.Flow

open Wire

def fdUninit : Int := -2

def fdClosed : Int := -1

def transMaxPayloadLen : Nat := 16384

def maxRecvWindow : Nat := 10 * 1024 * 1024

/-- `opts.recv_window`. No option sets it outside these bounds. -/
structure Opts where
  recvWindow : Nat := 512 * 1024
  positive : 0 < recvWindow := by decide
  bounded : recvWindow ≤ maxRecvWindow := by decide

def Opts.recvWindowextend (o : Opts) : Nat := o.recvWindow / 3

/-- What is sent on a channel. -/
inductive Out
  | data (s : Bytes)
  | extended (s : Bytes)
  | windowAdjust (incr : Nat)
  | success
  | failure
  | eof
  | exitStatus (status : Nat)
  | exitSignal (signame : Bytes) (core : Bool)
  | close
  deriving DecidableEq, Repr

/-- `struct exitinfo` of a child that has exited. -/
structure ExitInfo where
  exitstatus : Nat := 0
  exitsignal : Option Nat := none
  exitcore : Bool := false
  deriving DecidableEq, Repr

/-- What a session channel knows of its child. -/
structure Child where
  pid : Nat := 0
  exit : Option ExitInfo := none
  deriving DecidableEq, Repr

/-- `struct Channel`. Only a session channel has a child, and with it the handlers of its
type. -/
structure Channel where
  recvwindow : Nat
  transwindow : Nat
  recvdonelen : Nat := 0
  transmaxpacket : Nat
  writefd : Int := fdUninit
  readfd : Int := fdUninit
  errfd : Int := fdClosed
  bidirFd : Bool := false
  writebuf : Circbuffer
  sentClose : Bool := false
  recvClose : Bool := false
  recvEof : Bool := false
  sentEof : Bool := false
  flushing : Bool := false
  session : Option Child := none
  deriving DecidableEq, Repr

/-- The server's end: the channel, whether it is still in its slot, what has been sent on it
and what its descriptor has taken. -/
structure End where
  chan : Channel
  present : Bool := true
  sent : List Out := []
  written : Bytes := []
  deriving DecidableEq, Repr

def newchannel (o : Opts) (transwindow transmaxpacket : Nat) : Except Halt Channel := do
  let writebuf ← cbufNew o.recvWindow
  return { recvwindow := o.recvWindow, transwindow, transmaxpacket, writebuf }

/-- The directions that `shutdown` knows. -/
inductive How
  | rd
  | wr
  | rdwr
  deriving DecidableEq, Repr

/-- A descriptor that serves both directions is shut down in one, any other is closed. -/
def closeChanFd (ch : Channel) (fd : Int) (how : How) : Channel :=
  let closein := !ch.bidirFd || how != .rd
  let closeout := !ch.bidirFd || how == .rd
  { ch with
    readfd := if closeout && fd == ch.readfd then fdClosed else ch.readfd
    errfd := if closeout && fd == ch.errfd then fdClosed else ch.errfd
    writefd := if closein && fd == ch.writefd then fdClosed else ch.writefd }

/-- What a write to a descriptor comes to. It takes no more than it is offered. -/
inductive Write
  | took (n : Nat)
  | again
  | failed
  deriving DecidableEq, Repr

/-- What a read from a descriptor comes to. Nothing read is the end of the file. -/
inductive Read
  | got (s : Bytes)
  | interrupted
  | failed
  deriving DecidableEq, Repr

/-- What `fd_read_pending` says of the two descriptors that are read. -/
structure Pending where
  readfd : Bool := false
  errfd : Bool := false

def signames : List (Nat × Bytes) :=
  [(6, "ABRT"), (14, "ALRM"), (7, "BUS"), (8, "FPE"), (1, "HUP"), (4, "ILL"), (2, "INT"),
    (9, "KILL"), (13, "PIPE"), (3, "QUIT"), (11, "SEGV"), (15, "TERM"), (5, "TRAP"), (10, "USR1"),
    (12, "USR2")].map fun (sig, name) => (sig, lit name)

/-- `send_exitsignalstatus`: what is sent about a child that has exited. -/
def sendExitsignalstatus (child : Child) : List Out :=
  match child.exit with
  | none => []
  | some info =>
    match info.exitsignal with
    | none => [.exitStatus info.exitstatus]
    | some sig => ((signames.lookup sig).map (Out.exitSignal · info.exitcore)).toList

/-- `closechansess` for a session, nothing for other channels. -/
def closehandler (ch : Channel) : List Out := (ch.session.map sendExitsignalstatus).getD []

def sendMsgChannelEof (e : End) : End :=
  { e with chan := { e.chan with sentEof := true }, sent := e.sent ++ [.eof] }

def sendMsgChannelClose (e : End) : End :=
  let ch := { e.chan with sentEof := true, sentClose := true }
  let ch := closeChanFd ch ch.readfd .rd
  let ch := closeChanFd ch ch.errfd .rdwr
  let ch := closeChanFd ch ch.writefd .wr
  { e with chan := ch, sent := e.sent ++ closehandler e.chan ++ [.close] }

def removeChannel (e : End) : End := { e with present := false }

def writePending (ch : Channel) : Bool := 0 ≤ ch.writefd && 0 < cbufGetused ch.writebuf

/-- `sesscheckclose`: no child is running. One that has exited leaves the channel flushing. -/
def sesscheckclose (child : Child) (ch : Channel) : Bool × Channel :=
  (child.pid == 0 || child.exit.isSome,
    if child.exit.isSome then { ch with flushing := true } else ch)

/-- The first part of `check_close`: the channel may close unless its child is running. -/
def closeAllowed (ch : Channel) : Bool × Channel :=
  match ch.session with
  | none => (true, ch)
  | some child => if ch.sentClose then (true, ch) else sesscheckclose child ch

/-- A descriptor that is read and has nothing pending is closed. -/
def flushFd (pending : Bool) (ch : Channel) (fd : Int) : Channel :=
  if 0 ≤ fd && !pending then closeChanFd ch fd .rd else ch

/-- In flushing mode a descriptor is closed as soon as nothing is pending on it. -/
def flush (p : Pending) (ch : Channel) : Channel :=
  if ch.flushing then
    let ch := flushFd p.readfd ch ch.readfd
    flushFd p.errfd ch ch.errfd
  else ch

/-- What `check_close` does if the channel stays. -/
def halfClose (allowed : Bool) (e : End) : End :=
  let ch := e.chan
  let ch := if ch.recvEof && !writePending ch ||
      ch.writefd != fdUninit && ch.session.isSome && allowed then
    closeChanFd ch ch.writefd .wr else ch
  let e := { e with chan := ch }
  let e := if !ch.sentEof && ch.readfd == fdClosed && ch.errfd == fdClosed then
    sendMsgChannelEof e else e
  if ch.readfd == fdClosed && ch.writefd == fdClosed && ch.errfd == fdClosed && !ch.sentClose &&
      allowed && !writePending ch then
    sendMsgChannelClose e else e

def checkClose (p : Pending) (e : End) : End :=
  let (allowed, ch) := closeAllowed e.chan
  let e := { e with chan := flush p ch }
  if e.chan.recvClose && !writePending e.chan && allowed then
    removeChannel (if e.chan.sentClose then e else sendMsgChannelClose e)
  else halfClose allowed e

/-- What `writev` takes of what it is offered. -/
def Write.len (w : Write) (offered : Bytes) : Nat :=
  match w with
  | took n => min n offered.length
  | again | failed => 0

/-- `writechannel_writev`: the two pieces of the buffer and what is to follow them. Returns
how much was taken of the latter, and whether the descriptor is still good. -/
def writechannelWritev (w : Write) (e : End) (fd : Int) (more : Option Bytes) :
    Except Halt (End × Nat × Bool) := do
  let (p1, p2) := cbufReadptrs e.chan.writebuf
  if p1.isEmpty && p2.isEmpty && more.isNone then return (e, 0, true)
  else if w = .failed then return ({ e with chan := closeChanFd e.chan fd .wr }, 0, false)
  else if w = .again then return (e, 0, true)
  else
    let offered := p1 ++ p2 ++ more.getD []
    let written := w.len offered
    let cbufWritten := min (p1.length + p2.length) written
    let writebuf ← cbufIncrread e.chan.writebuf cbufWritten
    let ch := { e.chan with writebuf := writebuf, recvdonelen := e.chan.recvdonelen + written }
    return ({ e with chan := ch, written := e.written ++ offered.take written },
      written - cbufWritten, true)

def sendMsgChannelWindowAdjust (e : End) (incr : Nat) : End :=
  { e with sent := e.sent ++ [.windowAdjust incr] }

/-- The window is opened again by what has been done since, once that is enough. -/
def windowAdjust (o : Opts) (e : End) : End :=
  if o.recvWindowextend ≤ e.chan.recvdonelen then
    let e := sendMsgChannelWindowAdjust e e.chan.recvdonelen
    { e with chan := { e.chan with
        recvwindow := e.chan.recvwindow + e.chan.recvdonelen
        recvdonelen := 0 } }
  else e

def writechannel (o : Opts) (w : Write) (e : End) (fd : Int) (more : Option Bytes) :
    Except Halt (End × Nat × Bool) := do
  let (e, consumed, ret) ← writechannelWritev w e fd more
  let e := windowAdjust o e
  dropbearAssert (e.chan.recvwindow ≤ o.recvWindow) "channel->recvwindow <= opts.recv_window"
  dropbearAssert (e.chan.recvwindow ≤ cbufGetavail e.chan.writebuf)
    "channel->recvwindow <= cbuf_getavail(channel->writebuf)"
  return (e, consumed, ret)

/-- The second half of `common_recv_msg_channel_data`: what cannot be written at once is
copied into the buffer, unless the write failed. Nothing comes back if the loop does not
end. -/
def takeData (o : Opts) (w : Write) (e : End) (data : Bytes) : Except Halt (Option End) := do
  let (e, consumed, ret) ← writechannel o w e e.chan.writefd (some data)
  if ret then
    let rest := data.drop consumed
    match ← cbufFill rest.length e.chan.writebuf rest with
    | some writebuf => return some { e with chan := { e.chan with writebuf := writebuf } }
    | none => return none
  else return some e

/-- `common_recv_msg_channel_data`, with what is left of the packet. -/
def commonRecvMsgChannelData (o : Opts) (w : Write) (e : End) (buf : Bytes) :
    Except Halt (Option End) := do
  if e.chan.recvEof then dropbearExit "Received data after eof"
  -- After a failed write, or before there is a program, the data is dropped.
  else if e.chan.writefd < 0 then return some e
  else
    let (datalen, buf) ← bufGetInt buf
    if cbufGetavail e.chan.writebuf < datalen then dropbearExit "Oversized packet"
    else
      dropbearAssert (datalen ≤ e.chan.recvwindow) "channel->recvwindow >= datalen"
      let e := { e with chan := { e.chan with recvwindow := e.chan.recvwindow - datalen } }
      dropbearAssert (e.chan.recvwindow ≤ o.recvWindow) "channel->recvwindow <= opts.recv_window"
      let data ← bufGetPtr buf datalen
      takeData o w e data

/-- A window that passes 32 bits is set to the largest number. -/
def recvMsgChannelWindowAdjust (e : End) (buf : Bytes) : Except Halt End := do
  let (incr, _) ← bufGetInt buf
  let newwin := (e.chan.transwindow + incr) % 0x100000000
  let newwin := if newwin < e.chan.transwindow then 0xffffffff else newwin
  return { e with chan := { e.chan with transwindow := newwin } }

def recvMsgChannelEof (p : Pending) (e : End) : End :=
  checkClose p { e with chan := { e.chan with recvEof := true } }

def recvMsgChannelClose (p : Pending) (e : End) : End :=
  checkClose p { e with chan := { e.chan with recvEof := true, recvClose := true } }

/-- What `read` put into the payload: nothing after an error as at the end of the file. -/
def Read.len (maxlen : Nat) : Read → Option Bytes
  | got s => some (s.take maxlen)
  | interrupted => none
  | failed => some []

def channelFd (ch : Channel) (isextended : Bool) : Int := if isextended then ch.errfd else ch.readfd

/-- How much the client's window, its packets and the payload leave room for. -/
def maxlen (ch : Channel) (isextended : Bool) : Nat :=
  min (min ch.transwindow ch.transmaxpacket)
    (transMaxPayloadLen - 1 - 4 - 4 - if isextended then 4 else 0)

/-- `send_msg_channel_data` from the `read` on. -/
def sendRead (e : End) (isextended : Bool) : Option Bytes → End
  | none => e
  | some [] => { e with chan := closeChanFd e.chan (channelFd e.chan isextended) .rd }
  | some (b :: s) =>
    { e with
      chan := { e.chan with transwindow := e.chan.transwindow - (b :: s).length }
      sent := e.sent ++ [if isextended then .extended (b :: s) else .data (b :: s)] }

def sendMsgChannelData (r : Read) (e : End) (isextended : Bool) : Except Halt End := do
  dropbearAssert (!e.chan.sentClose) "!channel->sent_close"
  dropbearAssert (0 ≤ channelFd e.chan isextended) "fd >= 0"
  let maxlen := maxlen e.chan isextended
  return if maxlen = 0 then e else sendRead e isextended (r.len maxlen)

/-- What `select` found for the channel's descriptors, with what comes of them. -/
structure Io where
  read : Option Read := none
  err : Option Read := none
  write : Option Write := none
  signalPending : Bool := false
  pending : Pending := {}

/-- A descriptor that is ready to be read, and whether it was served: not if it has been
closed since. -/
def serveRead (r : Option Read) (isextended : Bool) (e : End) : Except Halt (End × Bool) :=
  match r with
  | none => .ok (e, false)
  | some r =>
    if channelFd e.chan isextended < 0 then .ok (e, false)
    else (sendMsgChannelData r e isextended).map (·, true)

def serveWrite (o : Opts) (w : Option Write) (e : End) : Except Halt (End × Bool) :=
  match w with
  | none => .ok (e, false)
  | some w =>
    if e.chan.writefd < 0 then .ok (e, false)
    else (writechannel o w e e.chan.writefd none).map fun (e, _) => (e, true)

/-- One channel's turn in `channelio`. -/
def channelio (o : Opts) (io : Io) (e : End) : Except Halt End := do
  let (e, read) ← serveRead io.read false e
  let (e, err) ← serveRead io.err true e
  let (e, write) ← serveWrite o io.write e
  return if read || err || write || io.signalPending then checkClose io.pending e else e

/-- The descriptors and the process id of a program that was started. With a terminal, one
descriptor is both written and read, and there is no third. -/
structure Spawn where
  writefd : Nat
  readfd : Nat
  errfd : Option Nat
  pid : Nat
  positive : 0 < pid

/-- What a channel request does to the channel: the first command of a session that can be
started puts the descriptors in place. -/
def startCommand (e : End) (spawn : Option Spawn) : Bool × End :=
  match e.chan.session, spawn with
  | some child, some sp =>
    if child.pid = 0 then
      (true, { e with chan := { e.chan with
        writefd := sp.writefd
        readfd := sp.readfd
        errfd := (sp.errfd.map Int.ofNat).getD e.chan.errfd
        bidirFd := false
        session := some { child with pid := sp.pid } } })
    else (false, e)
  | _, _ => (false, e)

/-- The reply to a request, unless the channel has been closed. -/
def sendReply (ret wantreply : Bool) (e : End) : End :=
  if wantreply && !e.chan.sentClose then
    { e with sent := e.sent ++ [if ret then .success else .failure] }
  else e

/-- `svr_chansess_checksignal` has learnt that the child exited. -/
def childExited (info : ExitInfo) (e : End) : End :=
  { e with chan := { e.chan with
    session := e.chan.session.map fun child =>
      if child.pid = 0 then child else { child with exit := some info } } }

end Ikofi.Flow
