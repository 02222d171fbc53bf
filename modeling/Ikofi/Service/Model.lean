import Ikofi.Lib.Runs

/-!
# `SshdService` and its children

One instance of `SshdService` seen as two threads over a lock: the main thread,
which runs the service callbacks, and the single executor thread, which runs
the watchdog tasks in the order they were submitted. The atomic steps are the
`synchronized` blocks, the fork inside `start_sshd`, `kill` and the return of
`waitpid`. A thread about to `kill` still holds the lock, so no block of the
other thread runs until it has.

Process ids are reused: a fork may return any positive id that no process still
waiting to be reaped has.
-/

namespace Ikofi.Service

/-- A process forked by `start_sshd`. -/
structure Child where
  pid : Int
  alive : Bool := true
  killed : Bool := false
  reaped : Bool := false
  deriving DecidableEq, Repr

/-- Alive, and no `SIGKILL` is on its way. -/
def Child.Live (c : Child) : Prop := c.alive = true ∧ c.killed = false

instance (c : Child) : Decidable c.Live := inferInstanceAs (Decidable (_ ∧ _))

/-- Inside `stopSshd`: before its block, or past reading `sshdPid` with the
lock still held. -/
inductive StopPc
  | block
  | kill (pid : Int)
  deriving DecidableEq, Repr

/-- Inside `startSshd`. `record` holds the value that `start_sshd` returned. -/
inductive StartPc
  | stop (pc : StopPc)
  | fork
  | record (pid : Int)
  deriving DecidableEq, Repr

/-- The main thread. `onCreate` is its block, past `readPidFile`. -/
inductive Main
  | absent
  | idle
  | onCreate (pid : Int)
  | onStartCommand (pc : StartPc)
  | onDestroy (pc : StopPc)
  deriving DecidableEq, Repr

/-- The executor thread, with the pid its watchdog task captured. -/
inductive Watchdog
  | idle
  | begin (pid : Int)
  | wait (pid : Int)
  | decide (pid : Int)
  | restart (pc : StartPc)
  deriving DecidableEq, Repr

/-- `destroyed` records that `onDestroy` has completed and no `onStartCommand`
has run since. `tasks` is the queue of `EXECUTOR_SERVICE`. -/
structure Svc where
  sshdPid : Int := 0
  sshdStartTime : Int := 0
  sshdDuration : Int := 0
  main : Main := .absent
  watchdog : Watchdog := .idle
  tasks : List Int := []
  children : List Child := []
  destroyed : Bool := false
  deriving DecidableEq, Repr

inductive Thread
  | main
  | watchdog
  deriving DecidableEq, Repr

def Thread.other : Thread → Thread
  | .main => .watchdog
  | .watchdog => .main

/-- One step of the system. `onCreate` carries what `readPidFile` returns,
`fork` what `fork` returns, `begin` and `decide` the clock the block reads. -/
inductive Action
  | onCreate (pidFile : Int)
  | onStartCommand
  | onDestroy
  | stopSshd (t : Thread)
  | kill (t : Thread)
  | fork (t : Thread) (pid : Int)
  | record (t : Thread)
  | take
  | begin (nanoTime : Int)
  | waitpid
  | decide (currentTimeMillis : Int)
  | die (pid : Int)
  deriving DecidableEq, Repr

/-- A Java `long`: two's complement, 64 bits. -/
def long (x : Int) : Int := x.bmod 0x10000000000000000

def minDurationMs : Int := 10000

/-- What the operating system does to the process that holds `pid`. -/
def onPid (pid : Int) (f : Child → Child) (cs : List Child) : List Child :=
  cs.map fun c => if c.pid = pid ∧ c.reaped = false then f c else c

namespace Svc

/-- No thread is between the two halves of a `stopSshd` block. -/
def lockFree (s : Svc) : Bool :=
  match s.main, s.watchdog with
  | .onCreate _, _ => false
  | .onStartCommand (.stop (.kill _)), _ => false
  | .onDestroy (.kill _), _ => false
  | _, .restart (.stop (.kill _)) => false
  | _, _ => true

/-- The thread's position inside `startSshd`. -/
def starting (s : Svc) : Thread → Option StartPc
  | .main => match s.main with
    | .onStartCommand pc => some pc
    | _ => none
  | .watchdog => match s.watchdog with
    | .restart pc => some pc
    | _ => none

def goto (s : Svc) (t : Thread) (pc : StartPc) : Svc :=
  match t with
  | .main => { s with main := .onStartCommand pc }
  | .watchdog => { s with watchdog := .restart pc }

/-- `startSshd` returns; on the executor thread this ends the watchdog task. -/
def leave (s : Svc) : Thread → Svc
  | .main => { s with main := .idle }
  | .watchdog => { s with watchdog := .idle }

def signal (s : Svc) (pid : Int) (f : Child → Child) : Svc :=
  { s with children := onPid pid f s.children }

/-- A pid that `fork` may give to a new process. -/
def pidFree (s : Svc) (pid : Int) : Bool :=
  decide (0 < pid) && s.children.all fun c => c.reaped || c.pid != pid

def spawn (s : Svc) (pid : Int) : Svc :=
  { s with children := s.children ++ [{ pid := pid }] }

/-- `waitpid(pid)` has nothing to wait for. It blocks while the child lives; if
there is no such child it fails at once. -/
def waitpidReturns (s : Svc) (pid : Int) : Bool :=
  s.children.all fun c => c.reaped || c.pid != pid || !c.alive

/-- The first block of the watchdog task. -/
def noteStart (s : Svc) (now : Int) : Svc :=
  { s with
    sshdDuration := if s.sshdStartTime = 0 then 0 else long (now - s.sshdStartTime)
    sshdStartTime := now }

/-- The restart test of the watchdog's second block. -/
def shouldRestart (s : Svc) (currentTimeMillis : Int) : Bool :=
  decide (s.sshdDuration = 0)
    || decide (minDurationMs ≤ s.sshdDuration)
    || decide (minDurationMs ≤ long (currentTimeMillis - s.sshdStartTime))

end Svc

def step (s : Svc) : Action → Option Svc
  | .onCreate pidFile =>
    match s.main with
    | .absent =>
      if 0 < pidFile then some { s with sshdPid := 0, main := .onCreate pidFile }
      else some { s with sshdPid := pidFile, main := .idle }
    | _ => none
  | .onStartCommand =>
    match s.main with
    | .idle => some { s with main := .onStartCommand (.stop .block), destroyed := false }
    | _ => none
  | .onDestroy =>
    match s.main with
    | .idle => some { s with main := .onDestroy .block }
    | _ => none
  | .stopSshd t =>
    if s.lockFree then
      let pid := s.sshdPid
      match s.starting t, t, s.main with
      | some (.stop .block), _, _ =>
        if 0 < pid then some ({ s with sshdPid := 0 }.goto t (.stop (.kill pid)))
        else some ({ s with sshdPid := 0 }.goto t .fork)
      | none, .main, .onDestroy .block =>
        if 0 < pid then some { s with sshdPid := 0, main := .onDestroy (.kill pid) }
        else some { s with sshdPid := 0, main := .idle, destroyed := true }
      | _, _, _ => none
    else none
  | .kill t =>
    let killed (pid : Int) := s.signal pid fun c => { c with killed := true }
    match s.starting t, t, s.main with
    | some (.stop (.kill pid)), _, _ => some ((killed pid).goto t .fork)
    | none, .main, .onCreate pid => some { killed pid with main := .idle }
    | none, .main, .onDestroy (.kill pid) =>
      some { killed pid with main := .idle, destroyed := true }
    | _, _, _ => none
  | .fork t pid =>
    match s.starting t with
    | some .fork =>
      if pid = -1 then some (s.goto t (.record pid))
      else if s.pidFree pid then some ((s.spawn pid).goto t (.record pid))
      else none
    | _ => none
  | .record t =>
    if s.lockFree then
      match s.starting t with
      | some (.record pid) =>
        if pid = -1 then some ({ s with sshdPid := 0 }.leave t)
        else some ({ s with sshdPid := pid, tasks := s.tasks ++ [pid] }.leave t)
      | _ => none
    else none
  | .take =>
    match s.watchdog, s.tasks with
    | .idle, pid :: rest => some { s with watchdog := .begin pid, tasks := rest }
    | _, _ => none
  | .begin now =>
    match s.watchdog with
    | .begin pid => if s.lockFree then some { s.noteStart now with watchdog := .wait pid } else none
    | _ => none
  | .waitpid =>
    match s.watchdog with
    | .wait pid =>
      if s.waitpidReturns pid then
        some { s.signal pid (fun c => { c with reaped := true }) with watchdog := .decide pid }
      else none
    | _ => none
  | .decide millis =>
    match s.watchdog with
    | .decide pid =>
      if s.lockFree then
        if s.sshdPid = pid then
          if s.shouldRestart millis then
            some { s with sshdPid := 0, watchdog := .restart (.stop .block) }
          else some { s with sshdPid := 0, watchdog := .idle }
        else some { s with watchdog := .idle }
      else none
    | _ => none
  | .die pid => some (s.signal pid fun c => { c with alive := false })

/-- A service instance before `onCreate`. -/
def init : Svc := {}

/-- Everything a step can do, one case for each way through its code. -/
inductive Does (s : Svc) : Action → Svc → Prop
  | createStale {pid : Int} : s.main = .absent → 0 < pid →
      Does s (.onCreate pid) { s with sshdPid := 0, main := .onCreate pid }
  | create {pid : Int} : s.main = .absent → ¬ 0 < pid →
      Does s (.onCreate pid) { s with sshdPid := pid, main := .idle }
  | startCommand : s.main = .idle →
      Does s .onStartCommand { s with main := .onStartCommand (.stop .block), destroyed := false }
  | destroy : s.main = .idle → Does s .onDestroy { s with main := .onDestroy .block }
  | stop {t : Thread} : s.lockFree = true → s.starting t = some (.stop .block) → 0 < s.sshdPid →
      Does s (.stopSshd t) ({ s with sshdPid := 0 }.goto t (.stop (.kill s.sshdPid)))
  | stopNone {t : Thread} : s.lockFree = true → s.starting t = some (.stop .block) →
      ¬ 0 < s.sshdPid → Does s (.stopSshd t) ({ s with sshdPid := 0 }.goto t .fork)
  | destroyStop : s.lockFree = true → s.main = .onDestroy .block → 0 < s.sshdPid →
      Does s (.stopSshd .main) { s with sshdPid := 0, main := .onDestroy (.kill s.sshdPid) }
  | destroyNone : s.lockFree = true → s.main = .onDestroy .block → ¬ 0 < s.sshdPid →
      Does s (.stopSshd .main) { s with sshdPid := 0, main := .idle, destroyed := true }
  | kill {t : Thread} {pid : Int} : s.starting t = some (.stop (.kill pid)) →
      Does s (.kill t) ((s.signal pid fun c => { c with killed := true }).goto t .fork)
  | createKill {pid : Int} : s.main = .onCreate pid →
      Does s (.kill .main) { s.signal pid (fun c => { c with killed := true }) with main := .idle }
  | destroyKill {pid : Int} : s.main = .onDestroy (.kill pid) →
      Does s (.kill .main)
        { s.signal pid (fun c => { c with killed := true }) with main := .idle, destroyed := true }
  | forkFail {t : Thread} : s.starting t = some .fork →
      Does s (.fork t (-1)) (s.goto t (.record (-1)))
  | fork {t : Thread} {pid : Int} : s.starting t = some .fork → s.pidFree pid = true →
      Does s (.fork t pid) ((s.spawn pid).goto t (.record pid))
  | recordFail {t : Thread} : s.lockFree = true → s.starting t = some (.record (-1)) →
      Does s (.record t) ({ s with sshdPid := 0 }.leave t)
  | record {t : Thread} {pid : Int} : s.lockFree = true → s.starting t = some (.record pid) →
      pid ≠ -1 →
      Does s (.record t) ({ s with sshdPid := pid, tasks := s.tasks ++ [pid] }.leave t)
  | take {pid : Int} {rest : List Int} : s.watchdog = .idle → s.tasks = pid :: rest →
      Does s .take { s with watchdog := .begin pid, tasks := rest }
  | begin {pid now : Int} : s.lockFree = true → s.watchdog = .begin pid →
      Does s (.begin now) { s.noteStart now with watchdog := .wait pid }
  | waitpid {pid : Int} : s.watchdog = .wait pid → s.waitpidReturns pid = true →
      Does s .waitpid
        { s.signal pid (fun c => { c with reaped := true }) with watchdog := .decide pid }
  | restart {pid millis : Int} : s.lockFree = true → s.watchdog = .decide pid → s.sshdPid = pid →
      s.shouldRestart millis = true →
      Does s (.decide millis) { s with sshdPid := 0, watchdog := .restart (.stop .block) }
  | giveUp {pid millis : Int} : s.lockFree = true → s.watchdog = .decide pid → s.sshdPid = pid →
      s.shouldRestart millis = false →
      Does s (.decide millis) { s with sshdPid := 0, watchdog := .idle }
  | stale {pid millis : Int} : s.lockFree = true → s.watchdog = .decide pid → s.sshdPid ≠ pid →
      Does s (.decide millis) { s with watchdog := .idle }
  | die {pid : Int} : Does s (.die pid) (s.signal pid fun c => { c with alive := false })

theorem step_does {s t : Svc} {a : Action} (h : step s a = some t) : Does s a t := by
  cases a with
  | onCreate pid =>
    simp only [step] at h
    split at h
    · split at h <;> cases h
      · exact .createStale ‹_› ‹_›
      · exact .create ‹_› ‹_›
    · cases h
  | onStartCommand =>
    simp only [step] at h
    split at h <;> cases h
    exact .startCommand ‹_›
  | onDestroy =>
    simp only [step] at h
    split at h <;> cases h
    exact .destroy ‹_›
  | stopSshd t =>
    simp only [step] at h
    split at h
    · split at h
      · split at h <;> cases h
        · exact .stop ‹_› ‹_› ‹_›
        · exact .stopNone ‹_› ‹_› ‹_›
      · split at h <;> cases h
        · exact .destroyStop ‹_› ‹_› ‹_›
        · exact .destroyNone ‹_› ‹_› ‹_›
      · cases h
    · cases h
  | kill t =>
    simp only [step] at h
    split at h <;> cases h
    · exact .kill ‹_›
    · exact .createKill ‹_›
    · exact .destroyKill ‹_›
  | fork t pid =>
    simp only [step] at h
    split at h
    · split at h
      · rename_i hp; cases h; subst hp; exact .forkFail ‹_›
      · split at h <;> cases h
        exact .fork ‹_› ‹_›
    · cases h
  | record t =>
    simp only [step] at h
    split at h
    · split at h
      · split at h
        · rename_i hp; cases h; subst hp; exact .recordFail ‹_› ‹_›
        · cases h; exact .record ‹_› ‹_› ‹_›
      · cases h
    · cases h
  | take =>
    simp only [step] at h
    split at h <;> cases h
    exact .take ‹_› ‹_›
  | begin now =>
    simp only [step] at h
    split at h
    · split at h <;> cases h
      exact .begin ‹_› ‹_›
    · cases h
  | waitpid =>
    simp only [step] at h
    split at h
    · split at h <;> cases h
      exact .waitpid ‹_› ‹_›
    · cases h
  | decide millis =>
    simp only [step] at h
    split at h
    · split at h
      · split at h
        · split at h <;> cases h
          · exact .restart ‹_› ‹_› ‹_› ‹_›
          · rename_i no; exact .giveUp ‹_› ‹_› ‹_› (Bool.eq_false_iff.mpr no)
        · cases h; exact .stale ‹_› ‹_› ‹_›
      · cases h
    · cases h
  | die pid =>
    simp only [step] at h
    cases h
    exact .die

end Ikofi.Service
