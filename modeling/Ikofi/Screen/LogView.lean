import Mathlib.Algebra.Ring.Int.Defs
import Ikofi.Lib.Generations
import Ikofi.Lib.Runs
import Ikofi.PasswordFile.Settings

/-!
# The log view

`ServiceViewModel` polls `dropbear.err` on a thread of its own. It samples the time and
the length, and if one of them has changed it reads the file, shows the last lines and
remembers the samples. Servers write to their logs at any time, and `start_sshd` puts a
new file in the place of the old one.
-/

namespace Ikofi.Screen

open PasswordFile Generations Runs

/-- `BuildConfig.NR_OF_LOG_LINES`. -/
def nrOfLogLines (debug : Bool) : Nat := if debug then 500 else 50

/-- The end of `collectLogLines`. -/
def subList (debug : Bool) (lines : List JString) : List JString :=
  if nrOfLogLines debug < lines.length then lines.drop (lines.length - nrOfLogLines debug)
  else lines

/-- The files that were called `dropbear.err`, with `lastModified` as their stamp. -/
abbrev Logs := Store UInt8 Int

/-- What `start_sshd` does to the log before it serves. It is the `i`-th one. -/
def startSshd (i : Nat) (mod : Int) : List (Change UInt8 Int) :=
  -- rename, unlink, open
  [.remove, .remove, .create mod, .append i (lit "Starting dropbear\n") mod]

/-- A `BufferedReader` on the file that was opened: how far it has come, the bytes it has
not decoded, the text it has not given out, and the lines that it has. -/
structure Reader where
  log : Nat
  pos : Nat := 0
  bytes : Bytes := []
  text : JString := []
  given : List JString := []
  deriving DecidableEq, Repr

/-- The last line of the text has no end yet. -/
def unfinished (text : JString) : Bool := text.getLast?.any (! isLineEnd ·)

/-- One read, of `n + 1` bytes at most. At the end of the file what is left is decoded,
and an unfinished line is given out, before the lines end; the file is read again each
time. -/
def Reader.read (r : Reader) (content : Bytes) (n : Nat) : Reader ⊕ List JString :=
  if r.pos < content.length then
    .inl { r with
      pos := min (r.pos + (n + 1)) content.length
      bytes := r.bytes ++ (content.drop r.pos).take (n + 1) }
  else if r.bytes ≠ [] then .inl { r with bytes := [], text := r.text ++ fileReader r.bytes }
  else if unfinished r.text then .inl { r with text := [], given := r.given ++ lines r.text }
  else .inr (r.given ++ lines r.text)

/-- What the loop does next. -/
inductive Pc
  | cancelRequested
  | lastModified
  | length (mod : Int)
  | compare (mod : Int) (len : Nat)
  | fileExists (mod : Int) (len : Nat)
  | newFileReader (mod : Int) (len : Nat)
  | readLine (mod : Int) (len : Nat) (r : Reader)
  | postValue (mod : Int) (len : Nat) (lines : List JString)
  | sleep
  deriving DecidableEq, Repr

/-- The loop with its variables and the list that it has posted last. -/
structure Loop where
  lastModified : Int := 0
  lastLength : Nat := 0
  posted : Option (List JString) := none
  pc : Pc := .cancelRequested
  deriving DecidableEq, Repr

/-- The log and the view model. The executor runs one loop at a time, and others wait. -/
structure LogView where
  logs : Logs
  forceLogUpdate : Bool := false
  cancelRequested : Bool := false
  queued : Nat := 0
  logData : Option (List JString) := none
  loop : Option Loop := none

namespace LogView

def goto (v : LogView) (l : Loop) (pc : Pc) : LogView := { v with loop := some { l with pc := pc } }

/-- One step of the loop. -/
def poll (debug : Bool) (v : LogView) (l : Loop) (n : Nat) : LogView :=
  match l.pc with
  | .cancelRequested =>
    if v.cancelRequested then { v with loop := none } else v.goto l .lastModified
  | .lastModified => v.goto l (.length v.logs.stamp)
  | .length mod => v.goto l (.compare mod v.logs.length)
  | .compare mod len =>
    let update := v.forceLogUpdate || mod != l.lastModified || len != l.lastLength
    { v with forceLogUpdate := false }.goto l (if update then .fileExists mod len else .sleep)
  | .fileExists mod len =>
    if v.logs.file.isSome then v.goto l (.newFileReader mod len)
    else v.goto l (.postValue mod len (subList debug []))
  | .newFileReader mod len =>
    match v.logs.current with
    -- the exception is ignored
    | none => v.goto l (.postValue mod len (subList debug []))
    | some i => v.goto l (.readLine mod len { log := i })
  | .readLine mod len r =>
    match r.read (v.logs.content r.log) n with
    | .inl r => v.goto l (.readLine mod len r)
    | .inr lines => v.goto l (.postValue mod len (subList debug lines))
  | .postValue mod len lines =>
    { v with
      logData := some lines
      loop := some { lastModified := mod, lastLength := len, posted := some lines, pc := .sleep } }
  | .sleep => v.goto l .cancelRequested

inductive Event
  | log (c : Change UInt8 Int)
  | startUpdateThread
  | cancelUpdateThread
  | forceLogUpdate
  | execute
  | interrupt
  | poll (n : Nat)
  deriving DecidableEq, Repr

def step (debug : Bool) (v : LogView) : Event → Option LogView
  | .log c => some { v with logs := v.logs.after c }
  | .startUpdateThread => some { v with cancelRequested := false, queued := v.queued + 1 }
  | .cancelUpdateThread => some { v with cancelRequested := true }
  | .forceLogUpdate => some { v with forceLogUpdate := true }
  | .execute =>
    if v.loop.isNone && 0 < v.queued then some { v with queued := v.queued - 1, loop := some {} }
    else none
  | .interrupt =>
    match v.loop with
    | some l =>
      if l.pc = .sleep then some ({ v with cancelRequested := true }.goto l .cancelRequested)
      else none
    | none => none
  | .poll n => v.loop.map fun l => v.poll debug l n

/-- A step of the loop itself. -/
def Event.polls : Event → Bool
  | .poll _ => true
  | _ => false

/-- The name is taken from a log, or given to one. -/
def Event.rotates : Event → Bool
  | .log .remove | .log (.create _) => true
  | _ => false

end LogView

end Ikofi.Screen
