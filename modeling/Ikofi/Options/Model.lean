import Ikofi.Lib.Match
import Ikofi.Text

/-!
# The command line of the server

From the text of the extra options to the options that `svr_getopts` sets. The
Java side splits the text and builds the arguments, the JNI code makes C strings
of them, and the option loop walks over them by index. The array has exactly
`argc` entries: nothing follows the last argument.
-/

namespace Ikofi.Options

open Match

/-- `\s`. -/
def isSpace (u : UInt16) : Bool := (9 ≤ u && u ≤ 13) || u == 32

def quote : UInt16 := 34

/-- `\S*"([^"]*)"\S*|(\S+)`. -/
def cmdOptionsPattern (s : JString) : Option JString :=
  (many (! isSpace ·) (one (· == quote) (many (· != quote) (one (· == quote)
    (many (! isSpace ·) some)))) s).or
  (one (! isSpace ·) (many (! isSpace ·) some) s)

def splitOptions (options : JString) : List JString := findAll cmdOptionsPattern options

/-- The arguments that `startSshd` passes on. -/
def startSshdArgs (options : JString) (port : Int32) : List JString :=
  let userOptions := splitOptions options
  [jlit "sshd", jlit "-e", jlit "-R", jlit "-F"]
    ++ (if jlit "-p" ∈ userOptions then [] else [jlit "-p", jlit (toString port.toInt)])
    ++ userOptions

/-- One unit in the encoding of `GetStringUTFChars`, which has no byte zero. -/
def modifiedUtf8 (u : UInt16) : Bytes :=
  let n := u.toNat
  if n ≠ 0 ∧ n < 0x80 then [UInt8.ofNat n]
  else if n < 0x800 then [UInt8.ofNat (0xC0 + n / 64), UInt8.ofNat (0x80 + n % 64)]
  else [UInt8.ofNat (0xE0 + n / 4096), UInt8.ofNat (0x80 + n / 64 % 64), UInt8.ofNat (0x80 + n % 64)]

def fromJavaString (s : JString) : Bytes := s.flatMap modifiedUtf8

/-- `argv` as `start_sshd` fills it. -/
def startSshdArgv (options : JString) (port : Int32) : List Bytes :=
  (startSshdArgs options port).map fromJavaString

/-- How reading the options may end early: `dropbear_exit`, `exit` after printing the
version or the help, a null pointer, or an index that is not in the array. -/
inductive Stop
  | exit (message : Bytes)
  | success
  | failure
  | segv
  | outOfBounds (i : Nat)
  deriving DecidableEq, Repr

/-- The switches, some of which this build ignores. -/
inductive Flag
  | delayHostkey | foreground | passOnEnv | nolocaltcp | noremotefwd | listenFwdAll
  | norootlogin | disableIpTos | ignored
  deriving DecidableEq, Repr

/-- The variables that `next` may point to. -/
inductive Arg
  | bannerfile | forcedCommand | keyfile | authorizedKeysDir | reexecFd | pidfile | interface
  | restrictGroup | recvWindow | keepalive | idleTimeout | maxDuration | maxauthtries | algoPrint
  deriving DecidableEq, Repr

inductive Letter
  | flag (f : Flag)
  | next (a : Arg)
  | nextisport
  | printhelp
  | printVersion
  | invalid
  deriving DecidableEq, Repr

/-- The `switch` of the option loop, as this build compiles it: no syslog, no inetd
mode, no message of the day, no password options of its own, no plugins and no trace. -/
def letter (c : UInt8) : Letter :=
  match Char.ofNat c.toNat with
  | 'b' => .next .bannerfile
  | 'c' => .next .forcedCommand
  | 'd' | 'r' => .next .keyfile
  | 'D' => .next .authorizedKeysDir
  | 'R' => .flag .delayHostkey
  | 'F' => .flag .foreground
  | 'e' => .flag .passOnEnv
  | 'j' => .flag .nolocaltcp
  | 'k' => .flag .noremotefwd
  | 'a' => .flag .listenFwdAll
  | '2' => .next .reexecFd
  | 'p' => .nextisport
  | 'P' => .next .pidfile
  | 'l' => .next .interface
  | 'm' => .flag .ignored
  | 'w' => .flag .norootlogin
  | 'G' => .next .restrictGroup
  | 'W' => .next .recvWindow
  | 'K' => .next .keepalive
  | 'I' => .next .idleTimeout
  | 'M' => .next .maxDuration
  | 'T' => .next .maxauthtries
  | 's' | 'g' => .flag .ignored
  | 'Q' => .next .algoPrint
  | 'h' => .printhelp
  | 'u' => .flag .ignored
  | 'V' => .printVersion
  | 'z' => .flag .disableIpTos
  | _ => .invalid

def dropbearMaxPorts : Nat := 10

def maxHostkeys : Nat := 4

/-- What the command line has set so far: the switches, the last value for each
variable, the addresses with their ports, and the host key files. The last four are
cleared at first, and the letters for them are not compiled in or do nothing. -/
structure SvrOpts where
  flag : Flag → Bool := fun _ => false
  value : Arg → Option Bytes := fun _ => none
  ports : List (Bytes × Bytes) := []
  hostkeyFiles : List Bytes := []
  noauthpass : Bool := false
  norootpass : Bool := false
  allowblankpass : Bool := false
  multiauthmethod : Bool := false

def dropbearExit {α : Type} (message : Bytes) : Except Stop α := .error (.exit message)

/-- The part before the last colon, and the part after it where there is one. -/
def splitLastColon (spec : Bytes) : Bytes × Option Bytes :=
  let after := spec.reverse.takeWhile (· != 58)
  match spec.reverse.drop after.length with
  | [] => (spec, none)
  | _ :: before => (before.reverse, some after.reverse)

/-- Both parts of a specification; the first is `none` where it is empty. -/
def splitAddressPort (spec : Bytes) : Option (Option Bytes × Option Bytes) :=
  let first (addr : Bytes) := if addr.isEmpty then none else some addr
  match spec with
  | 91 :: addr =>
    match addr.dropWhile (· != 93) with
    | [] => none
    | [_] => some (first (addr.takeWhile (· != 93)), none)
    | _ :: 58 :: port => some (first (addr.takeWhile (· != 93)), some port)
    | _ => none
  | _ =>
    let (addr, port) := splitLastColon spec
    some (first addr, port)

/-- The address and the port of a `-p` argument. The default address is empty. -/
def binding (spec : Bytes) : Except Stop (Bytes × Bytes) :=
  match splitAddressPort spec with
  | none => dropbearExit (lit "Bad -p argument")
  | some (first, second) =>
    -- a bare port stands in the first part
    let (address, port) := if second.isNone then (none, first) else (first, second)
    match port with
    | none => .error .segv
    | some port =>
      if port.isEmpty then dropbearExit (lit "Bad port") else .ok (address.getD [], port)

def addportandaddress (spec : Bytes) (o : SvrOpts) : Except Stop SvrOpts :=
  if dropbearMaxPorts ≤ o.ports.length then .ok o
  else (binding spec).map fun b => { o with ports := o.ports ++ [b] }

def addhostkey (keyfile : Bytes) (o : SvrOpts) : Except Stop SvrOpts :=
  if maxHostkeys ≤ o.hostkeyFiles.length then dropbearExit (lit "Too many hostkeys")
  else .ok { o with hostkeyFiles := o.hostkeyFiles ++ [keyfile] }

/-- What an option waits for: a port, or a value for `next`. -/
inductive Target
  | port
  | next (a : Arg)
  deriving DecidableEq, Repr

/-- The end of one turn of the loop. A key file is added at once and forgotten; the
pointer that is stored is never null. -/
def store (target : Target) (value : Bytes) (o : SvrOpts) : Except Stop SvrOpts :=
  match target with
  | .port => addportandaddress value o
  | .next .keyfile => addhostkey value o
  | .next a => .ok { o with value := fun b => if b = a then some value else o.value b }

/-- The inner loop, over the letters of one argument. It stops behind the first letter
that waits for something, with the rest of the argument. -/
def cluster (o : SvrOpts) : Bytes → Except Stop (SvrOpts × Option Target × Bytes)
  | [] => .ok (o, none, [])
  | c :: rest =>
    match letter c with
    | .flag f => cluster { o with flag := fun g => g == f || o.flag g } rest
    | .next a => .ok (o, some (.next a), rest)
    | .nextisport => .ok (o, some .port, rest)
    | .printhelp | .printVersion => .error .success
    | .invalid => .error .failure

/-- `argv[i]`. -/
def entry (argv : List Bytes) (i : Nat) : Except Stop Bytes :=
  match argv[i]? with
  | some arg => .ok arg
  | none => .error (.outOfBounds i)

def isOption : Bytes → Bool
  | 45 :: _ :: _ => true
  | _ => false

/-- The option loop of `svr_getopts` from index `i` on. -/
def optionLoop (argv : List Bytes) (i : Nat) (o : SvrOpts) : Except Stop SvrOpts :=
  if i < argv.length then do
    let arg ← entry argv i
    if !isOption arg then dropbearExit (lit "Invalid argument: " ++ arg)
    else
      let (o, target, rest) ← cluster o arg.tail
      match target with
      | none => optionLoop argv (i + 1) o
      | some target =>
        if rest.isEmpty then
          let value ← entry argv (i + 1)
          let o ← store target value o
          optionLoop argv (i + 2) o
        else
          let o ← store target rest o
          optionLoop argv (i + 1) o
  else .ok o
termination_by argv.length - i

/-- `svr_getopts` up to the end of its loop. What it does behind it with the values that were
given may still end the process, and sets nothing of what is set here but the default port. -/
def svrGetoptsLoop (argv : List Bytes) : Except Stop SvrOpts := optionLoop argv 1 {}

end Ikofi.Options
