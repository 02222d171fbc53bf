import Ikofi.Wire
import Ikofi.Lib.Shell

/-!
# Channel requests of one session

The requests on session channels, down to the `execv` of the child. A channel has
at most one child. What the operating system answers comes with the request. The
terminal modes are read but not followed further, and so is the environment of
the child.
-/

namespace Ikofi.Channel

open Wire

def maxNameLen : Nat := 64

def maxTermLen : Nat := 200

def maxCmdLen : Nat := 9000

/-- The preferences and options a session runs with. The platform installs the native
libraries under a plain absolute path. The options of the public key that
authenticated the session may force a command and forbid terminals. -/
structure Config where
  libPath : Bytes
  installed : Posix.isPath libPath = true
  shellExe : Bytes
  home : Option Bytes
  enableServiceShellAccess : Bool
  forcedCommand : Option Bytes := none
  pubkeyForcedCommand : Option Bytes := none
  pubkeyAllowsPty : Bool := true

/-- A call of `execv`. -/
structure Exec where
  path : Bytes
  argv : List Bytes
  deriving DecidableEq, Repr

/-- `struct ChanSess`. The master side and the name of a terminal are set together. -/
structure ChanSess where
  cmd : Option Bytes := none
  originalCommand : Option Bytes := none
  pid : Option Nat := none
  term : Option Bytes := none
  pty : Bool := false
  deriving DecidableEq, Repr

/-- What the operating system answers while one request is handled. -/
structure Os where
  pipe : Bool := true
  fork : Option Nat := some 1
  ptyAllocate : Bool := true
  tcgetattr : Bool := true
  chdir : Bool := true
  kill : Bool := true

def ikofiExeToLib (libPath cmd : Bytes) : Bytes :=
  if (lit "scp ").isPrefixOf cmd then libPath ++ lit "/libscp.so " ++ cmd.drop 4
  else if (lit "rsync ").isPrefixOf cmd then libPath ++ lit "/librsync.so " ++ cmd.drop 6
  else if (lit "sftp-server").isPrefixOf cmd then libPath ++ lit "/libsftp-server.so"
  else cmd

def expandHomedirPath (home : Option Bytes) (path : Bytes) : Bytes :=
  match home with
  | some home => if (lit "~/").isPrefixOf path then home ++ lit "/" ++ path.drop 2 else path
  | none => path

def getUserShell (c : Config) : Bytes := if c.shellExe.isEmpty then lit "/bin/sh" else c.shellExe

/-- `basename`: the last component, without the slashes behind it. -/
def basename (path : Bytes) : Bytes :=
  if path.isEmpty then lit "."
  else
    let name := path.reverse.dropWhile (· == 47)
    if name.isEmpty then lit "/" else (name.takeWhile (· != 47)).reverse

/-- The `execv` that `run_shell_command` comes to, if any. -/
def runShellCommand (c : Config) (cmd : Option Bytes) (usershell : Bytes) : Option Exec :=
  match cmd with
  | some cmd => some ⟨usershell, [basename usershell, lit "-c", ikofiExeToLib c.libPath cmd]⟩
  | none =>
    if c.enableServiceShellAccess then some ⟨usershell, [lit "-" ++ basename usershell]⟩ else none

/-- What the child does. It ends if it can enter neither the home directory nor `/`. -/
def execchild (c : Config) (os : Os) (ch : ChanSess) : Option Exec :=
  if os.chdir then runShellCommand c ch.cmd (getUserShell c) else none

/-- The result of a request on a channel: whether it succeeded, the channel, the
programs that its child executes, and the signals that are sent. -/
structure Turn where
  ret : Bool
  ch : ChanSess
  execs : List Exec := []
  kills : List (Nat × Bytes) := []

def failure (ch : ChanSess) : Turn := { ret := false, ch := ch }

/-- The parent notes the child, which executes its command. -/
def spawn (c : Config) (os : Os) (ch : ChanSess) : Turn :=
  match os.fork with
  | none => failure ch
  | some pid =>
    { ret := true, ch := { ch with pid := some pid }, execs := (execchild c os ch).toList }

def noptycommand (c : Config) (os : Os) (ch : ChanSess) : Turn :=
  if os.pipe then spawn c os ch else failure ch

def ptycommand (c : Config) (os : Os) (ch : ChanSess) : Turn :=
  if ch.pty then spawn c os ch else failure ch

/-- The command of an `exec` or `subsystem` request, where it is not refused; only a
command that is read now has a length. -/
def readCommand (ch : ChanSess) (buf : Bytes) : Except Halt (Option (Bytes × Nat)) :=
  match ch.cmd with
  | some cmd => .ok (some (cmd, 0))
  | none => do
    let (cmd, _) ← bufGetString buf
    return if maxCmdLen < cmd.length then none else some (cmd, cmd.length)

/-- The command that the request asks for, as a C string. -/
def requestedCommand (c : Config) (ch : ChanSess) (issubsys : Bool) (buf : Bytes) :
    Except Halt (Option Bytes) := do
  match ← readCommand ch buf with
  | none => return none
  | some (cmd, cmdlen) =>
    if issubsys then
      if cmdlen = 4 ∧ cmd.take 4 = lit "sftp" then
        return some (expandHomedirPath c.home (ikofiExeToLib c.libPath (lit "sftp-server")))
      else return none
    else return some (cstr cmd)

/-- The command forced by an option or by the public key takes the place of any other. -/
def forceCommand (c : Config) (ch : ChanSess) : ChanSess :=
  match c.forcedCommand.or c.pubkeyForcedCommand with
  | some forced => { ch with originalCommand := some (ch.cmd.getD []), cmd := some forced }
  | none => ch

/-- The end of `sessioncommand`. After a failure the command is forgotten. -/
def startCommand (c : Config) (os : Os) (ch : ChanSess) : Turn :=
  let ch := forceCommand c ch
  let turn := if ch.term.isNone then noptycommand c os ch else ptycommand c os ch
  if turn.ret then turn else { turn with ch := { turn.ch with cmd := none } }

def sessioncommand (c : Config) (os : Os) (ch : ChanSess) (iscmd issubsys : Bool) (buf : Bytes) :
    Except Halt Turn :=
  if ch.pid.isSome then .ok (failure ch)
  else if iscmd then do
    match ← requestedCommand c ch issubsys buf with
    | none => return failure { ch with cmd := none }
    | some cmd => return startCommand c os { ch with cmd := some cmd }
  else .ok (startCommand c os ch)

/-- `sessionwinchange`, with what is left of the request. -/
def sessionwinchange (ch : ChanSess) (buf : Bytes) : Except Halt (Turn × Bytes) :=
  if ch.pty then do
    let (_, buf) ← bufGetInt buf
    let (_, buf) ← bufGetInt buf
    let (_, buf) ← bufGetInt buf
    let (_, buf) ← bufGetInt buf
    return ({ ret := true, ch := ch }, buf)
  else .ok (failure ch, buf)

/-- The loop over the terminal modes: an opcode and a number, until an end mark. -/
def termcodes : Bytes → Except Halt Unit
  | [] => dropbearExit "Bad buf_getbyte"
  | opcode :: rest =>
    if opcode = 0 ∨ 159 < opcode then .ok ()
    else match rest with
      | _ :: _ :: _ :: _ :: rest => termcodes rest
      | _ => dropbearExit "Bad buf_getptr"

def getTermmodes (os : Os) (buf : Bytes) : Except Halt Unit :=
  if os.tcgetattr then do
    let (len, buf) ← bufGetInt buf
    if len ≠ buf.length then dropbearExit "Bad term mode string"
    else if len = 0 then return ()
    else termcodes buf
  else .ok ()

def sessionpty (c : Config) (os : Os) (ch : ChanSess) (buf : Bytes) : Except Halt Turn :=
  if !c.pubkeyAllowsPty then .ok (failure ch)
  else do
    let (term, buf) ← bufGetString buf
    let ch := { ch with term := some (cstr term) }
    if maxTermLen < term.length then return failure ch
    else if ch.pty then dropbearExit "Multiple pty requests"
    else if !os.ptyAllocate then return failure ch
    else
      let ch := { ch with pty := true }
      let (_, buf) ← sessionwinchange ch buf
      getTermmodes os buf
      return { ret := true, ch := ch }

def signames : List Bytes :=
  ["ABRT", "ALRM", "BUS", "FPE", "HUP", "ILL", "INT", "KILL", "PIPE", "QUIT", "SEGV", "TERM",
    "TRAP", "USR1", "USR2"].map lit

def sessionsignal (c : Config) (os : Os) (ch : ChanSess) (buf : Bytes) : Except Halt Turn :=
  match ch.pid with
  | none => .ok (failure ch)
  | some pid =>
    if (c.forcedCommand.or c.pubkeyForcedCommand).isSome then .ok (failure ch)
    else do
      let (signame, _) ← bufGetString buf
      if cstr signame ∈ signames then
        return { ret := os.kill, ch := ch, kills := [(pid, cstr signame)] }
      else return failure ch

/-- The choice of `chansessionrequest`; the type is compared as a C string. -/
def dispatch (c : Config) (os : Os) (ch : ChanSess) (type buf : Bytes) : Except Halt Turn :=
  if maxNameLen < type.length then .ok (failure ch)
  else if cstr type = lit "window-change" then (sessionwinchange ch buf).map Prod.fst
  else if cstr type = lit "shell" then sessioncommand c os ch false false buf
  else if cstr type = lit "pty-req" then sessionpty c os ch buf
  else if cstr type = lit "exec" then sessioncommand c os ch true false buf
  else if cstr type = lit "subsystem" then sessioncommand c os ch true true buf
  else if cstr type = lit "signal" then sessionsignal c os ch buf
  else .ok (failure ch)

/-- The handler of one request, with whether the client wants a reply. -/
def chansessionrequest (c : Config) (os : Os) (ch : ChanSess) (buf : Bytes) :
    Except Halt (Turn × Bool) := do
  let (type, buf) ← bufGetString buf
  let (wantreply, buf) ← bufGetBool buf
  let turn ← dispatch c os ch type buf
  return (turn, wantreply)

/-- The channels of a session, and what came of the requests on them. -/
structure Ses where
  channels : List (Option ChanSess) := []
  execs : List Exec := []
  kills : List (Nat × Bytes) := []
  replies : List (Nat × Bool) := []
  deriving DecidableEq, Repr

/-- The first free place for a new channel. -/
def newchannel (ch : ChanSess) : List (Option ChanSess) → List (Option ChanSess)
  | [] => [some ch]
  | none :: cs => some ch :: cs
  | some d :: cs => some d :: newchannel ch cs

/-- A session channel is opened, a request comes in on one, or one is removed. -/
inductive Event
  | opened
  | request (payload : Bytes) (os : Os)
  | removed (i : Nat)

def recvMsgChannelRequest (c : Config) (os : Os) (s : Ses) (payload : Bytes) : Except Halt Ses := do
  let (i, buf) ← bufGetInt payload
  match s.channels[i]? with
  | some (some ch) =>
    let (turn, wantreply) ← chansessionrequest c os ch buf
    return { s with
      channels := s.channels.set i (some turn.ch)
      execs := s.execs ++ turn.execs
      kills := s.kills ++ turn.kills
      replies := s.replies ++ if wantreply then [(i, turn.ret)] else [] }
  | _ => dropbearExit ("Unknown channel " ++ toString i)

/-- The session goes on after an event unless the process ends. -/
def step (c : Config) (s : Ses) : Event → Option Ses
  | .opened => some { s with channels := newchannel {} s.channels }
  | .request payload os => (recvMsgChannelRequest c os s payload).toOption
  | .removed i => some { s with channels := s.channels.set i none }

end Ikofi.Channel
