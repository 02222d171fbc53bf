import Ikofi.Service.Model
import Ikofi.Service.PidFile

/-!
# The service in its surroundings

The app process with every instance of `SshdService` it creates, the other
processes of the device, and `dropbear.pid`. An instance that was destroyed is
kept: the watchdog tasks it submitted run on, in the executor that all instances
share, and they read its fields. When the app process dies its children live on,
its static and instance fields are gone, and the file is still there.

A process stays in the table until it is reaped, and its pid is not given to
another one before that.
-/

namespace Ikofi.Service

/-- How far a server has come with the pid file. -/
inductive PidFileStage
  | start
  | opened
  | serving
  deriving DecidableEq, Repr

/-- A process that has not been reaped. `dropbear` marks those that `start_sshd`
forked, `child` those whose parent is the app process that runs now. -/
structure Proc where
  pid : Int
  dropbear : Bool
  child : Bool := false
  alive : Bool := true
  stage : PidFileStage := .start
  deriving DecidableEq, Repr

/-- The fields of one instance of `SshdService`. -/
structure Instance where
  sshdPid : Int := 0
  sshdStartTime : Int := 0
  sshdDuration : Int := 0
  deriving DecidableEq, Repr

namespace Instance

def svc (i : Instance) : Svc :=
  { sshdPid := i.sshdPid, sshdStartTime := i.sshdStartTime, sshdDuration := i.sshdDuration }

def noteStart (i : Instance) (now : Int) : Instance :=
  { i with
    sshdDuration := (i.svc.noteStart now).sshdDuration
    sshdStartTime := (i.svc.noteStart now).sshdStartTime }

end Instance

/-- The main thread works on the instance that was created last, the executor
thread on the instance `task` that submitted the task it runs. -/
structure World where
  instances : List Instance := []
  main : Main := .absent
  tasks : List (Nat × Int) := []
  watchdog : Watchdog := .idle
  task : Nat := 0
  procs : List Proc := []
  pidFile : Option Bytes := none
  deriving DecidableEq, Repr

namespace World

/-- `spawn` starts a process that is no server, `reap` is the work of its parent
or of `init`. The three steps at the pid file are those of the server `pid`. -/
inductive Action
  | onCreate
  | onStartCommand
  | onDestroy
  | stopSshd (t : Thread)
  | kill (t : Thread)
  | fork (t : Thread) (pid : Int)
  | record (t : Thread)
  | take
  | begin (nanoTime : Int)
  | waitpid
  | decide (currentTimeMillis : Int)
  | die (pid : Int)
  | reap (pid : Int)
  | spawn (pid : Int)
  | openPidFile (pid : Int)
  | writePidFile (pid : Int)
  | unlinkPidFile (pid : Int)
  | appDeath
  | reboot
  deriving DecidableEq, Repr

def current (w : World) : Nat := w.instances.length - 1

/-- The instance that a thread works on. -/
def instOf (w : World) : Thread → Nat
  | .main => w.current
  | .watchdog => w.task

/-- `sshdPid` of an instance. -/
def sshdPid (w : World) (k : Nat) : Int := ((w.instances[k]?).map Instance.sshdPid).getD 0

def setInstance (w : World) (k : Nat) (f : Instance → Instance) : World :=
  { w with instances := w.instances.modify k f }

def setPid (w : World) (k : Nat) (pid : Int) : World :=
  w.setInstance k fun i => { i with sshdPid := pid }

/-- A thread is before the block of `stopSshd`. -/
def atStop (w : World) : Thread → Bool
  | .main => w.main == .onStartCommand (.stop .block) || w.main == .onDestroy .block
  | .watchdog => w.watchdog == .restart (.stop .block)

/-- The pid that a thread is about to pass to `kill`. It holds the lock. -/
def killing (w : World) : Thread → Option Int
  | .main => match w.main with
    | .onCreate pid | .onStartCommand (.stop (.kill pid)) | .onDestroy (.kill pid) => some pid
    | _ => none
  | .watchdog => match w.watchdog with
    | .restart (.stop (.kill pid)) => some pid
    | _ => none

def lockFree (w : World) : Bool := (w.killing .main).isNone && (w.killing .watchdog).isNone

/-- Past `stopSshd`: on with `startSshd`, or the end of the callback. -/
def pastStop (w : World) : Thread → World
  | .main => { w with main := match w.main with
    | .onCreate _ => .idle
    | .onDestroy _ => .absent
    | _ => .onStartCommand .fork }
  | .watchdog => { w with watchdog := .restart .fork }

def toKill (w : World) (pid : Int) : Thread → World
  | .main => { w with main := match w.main with
    | .onDestroy _ => .onDestroy (.kill pid)
    | _ => .onStartCommand (.stop (.kill pid)) }
  | .watchdog => { w with watchdog := .restart (.stop (.kill pid)) }

/-- The thread's position inside `startSshd`. -/
def starting (w : World) : Thread → Option StartPc
  | .main => match w.main with
    | .onStartCommand pc => some pc
    | _ => none
  | .watchdog => match w.watchdog with
    | .restart pc => some pc
    | _ => none

def goto (w : World) (pc : StartPc) : Thread → World
  | .main => { w with main := .onStartCommand pc }
  | .watchdog => { w with watchdog := .restart pc }

def leave (w : World) : Thread → World
  | .main => { w with main := .idle }
  | .watchdog => { w with watchdog := .idle }

/-- A pid that may be given to a new process. -/
def pidFree (w : World) (pid : Int) : Bool :=
  decide (0 < pid) && w.procs.all fun c => c.pid != pid

def addProc (w : World) (c : Proc) : World := { w with procs := w.procs ++ [c] }

def onProc (w : World) (pid : Int) (f : Proc → Proc) : World :=
  { w with procs := w.procs.map fun c => if c.pid = pid then f c else c }

/-- A live server at that stage. -/
def serverAt (w : World) (pid : Int) (stage : PidFileStage) : Bool :=
  w.procs.any fun c => c.pid == pid && c.dropbear && c.alive && c.stage == stage

/-- `waitpid` blocks while the child lives; without such a child it fails at once. -/
def waitpidReturns (w : World) (pid : Int) : Bool :=
  w.procs.all fun c => c.pid != pid || !c.child || !c.alive

/-- The children go to `init`; nothing else of the process is left. -/
def appDied (w : World) : World :=
  { procs := w.procs.map fun c => { c with child := false }, pidFile := w.pidFile }

/-- `fprintf` and `fclose`: what is in the file behind these bytes stays. -/
def writtenPid (w : World) (pid : Int) : World :=
  let line := lit (toString pid ++ "\n")
  { w with pidFile := w.pidFile.map fun content => line ++ content.drop line.length }

end World

open World

/-- `onCreate` throws what `readPidFile` throws, and the app process is gone. -/
def World.step (w : World) : World.Action → Option World
  | .onCreate =>
    if w.main = .absent ∧ w.lockFree then
      match readPidFile w.pidFile with
      | .error _ => some w.appDied
      | .ok pid =>
        if 0 < pid then some { w with instances := w.instances ++ [{}], main := .onCreate pid }
        else some { w with instances := w.instances ++ [{ sshdPid := pid }], main := .idle }
    else none
  | .onStartCommand =>
    if w.main = .idle then some { w with main := .onStartCommand (.stop .block) } else none
  | .onDestroy => if w.main = .idle then some { w with main := .onDestroy .block } else none
  | .stopSshd t =>
    if w.lockFree ∧ w.atStop t then
      let pid := w.sshdPid (w.instOf t)
      let w := w.setPid (w.instOf t) 0
      some (if 0 < pid then w.toKill pid t else w.pastStop t)
    else none
  | .kill t => if (w.killing t).isSome then some (w.pastStop t) else none
  | .fork t pid =>
    match w.starting t with
    | some .fork =>
      if pid = -1 then some (w.goto (.record pid) t)
      else if w.pidFree pid then
        some ((w.addProc { pid := pid, dropbear := true, child := true }).goto (.record pid) t)
      else none
    | _ => none
  | .record t =>
    match w.starting t with
    | some (.record pid) =>
      if w.lockFree then
        if pid = -1 then some ((w.setPid (w.instOf t) 0).leave t)
        else
          some ({ w.setPid (w.instOf t) pid with
            tasks := w.tasks ++ [(w.instOf t, pid)] }.leave t)
      else none
    | _ => none
  | .take =>
    match w.watchdog, w.tasks with
    | .idle, (k, pid) :: rest => some { w with watchdog := .begin pid, task := k, tasks := rest }
    | _, _ => none
  | .begin now =>
    match w.watchdog with
    | .begin pid =>
      if w.lockFree then
        some { w.setInstance w.task (·.noteStart now) with watchdog := .wait pid }
      else none
    | _ => none
  | .waitpid =>
    match w.watchdog with
    | .wait pid =>
      if w.waitpidReturns pid then
        some { w with
          procs := w.procs.filter fun c => !(c.pid == pid && c.child)
          watchdog := .decide pid }
      else none
    | _ => none
  | .decide millis =>
    match w.watchdog with
    | .decide pid =>
      if w.lockFree then
        if w.sshdPid w.task = pid then
          let restart := ((w.instances[w.task]?).map fun i => i.svc.shouldRestart millis).getD false
          some { w.setPid w.task 0 with
            watchdog := if restart then .restart (.stop .block) else .idle }
        else some { w with watchdog := .idle }
      else none
    | _ => none
  | .die pid => some (w.onProc pid fun c => { c with alive := false })
  | .reap pid =>
    some { w with procs := w.procs.filter fun c => !(c.pid == pid && !c.child && !c.alive) }
  | .spawn pid =>
    if w.pidFree pid then some (w.addProc { pid := pid, dropbear := false }) else none
  | .openPidFile pid =>
    if w.serverAt pid .start then
      some { w.onProc pid (fun c => { c with stage := .opened }) with pidFile := some [] }
    else none
  | .writePidFile pid =>
    if w.serverAt pid .opened then
      some ((w.onProc pid fun c => { c with stage := .serving }).writtenPid pid)
    else none
  | .unlinkPidFile pid =>
    if w.serverAt pid .serving then some { w with pidFile := none } else none
  | .appDeath => some w.appDied
  | .reboot => some { pidFile := w.pidFile }

/-- Everything a step can do, one case for each way through its code. -/
inductive World.Does (w : World) : World.Action → World → Prop
  | crash : w.main = .absent → Does w .onCreate w.appDied
  | createStale {pid : Int} : w.main = .absent → w.lockFree = true →
      readPidFile w.pidFile = .ok pid → 0 < pid →
      Does w .onCreate { w with instances := w.instances ++ [{}], main := .onCreate pid }
  | create {pid : Int} : w.main = .absent → ¬ 0 < pid →
      Does w .onCreate { w with instances := w.instances ++ [{ sshdPid := pid }], main := .idle }
  | startCommand : w.main = .idle →
      Does w .onStartCommand { w with main := .onStartCommand (.stop .block) }
  | destroy : w.main = .idle → Does w .onDestroy { w with main := .onDestroy .block }
  | stop {t : Thread} : w.lockFree = true → w.atStop t = true → 0 < w.sshdPid (w.instOf t) →
      Does w (.stopSshd t) ((w.setPid (w.instOf t) 0).toKill (w.sshdPid (w.instOf t)) t)
  | stopNone {t : Thread} : w.lockFree = true → w.atStop t = true →
      Does w (.stopSshd t) ((w.setPid (w.instOf t) 0).pastStop t)
  | kill {t : Thread} {pid : Int} : w.killing t = some pid → Does w (.kill t) (w.pastStop t)
  | forkFail {t : Thread} : w.starting t = some .fork →
      Does w (.fork t (-1)) (w.goto (.record (-1)) t)
  | fork {t : Thread} {pid : Int} : w.starting t = some .fork → w.pidFree pid = true →
      Does w (.fork t pid)
        ((w.addProc { pid := pid, dropbear := true, child := true }).goto (.record pid) t)
  | recordFail {t : Thread} : w.starting t = some (.record (-1)) →
      Does w (.record t) ((w.setPid (w.instOf t) 0).leave t)
  | record {t : Thread} {pid : Int} : w.starting t = some (.record pid) → pid ≠ -1 →
      Does w (.record t)
        ({ w.setPid (w.instOf t) pid with tasks := w.tasks ++ [(w.instOf t, pid)] }.leave t)
  | take {k : Nat} {pid : Int} {rest : List (Nat × Int)} : w.watchdog = .idle →
      w.tasks = (k, pid) :: rest →
      Does w .take { w with watchdog := .begin pid, task := k, tasks := rest }
  | begin {pid now : Int} : w.watchdog = .begin pid →
      Does w (.begin now)
        { w.setInstance w.task (·.noteStart now) with watchdog := .wait pid }
  | waitpid {pid : Int} : w.watchdog = .wait pid →
      Does w .waitpid
        { w with
          procs := w.procs.filter fun c => !(c.pid == pid && c.child)
          watchdog := .decide pid }
  | clear {pid millis : Int} {next : Watchdog} : w.watchdog = .decide pid →
      w.sshdPid w.task = pid → next = .restart (.stop .block) ∨ next = .idle →
      Does w (.decide millis) { w.setPid w.task 0 with watchdog := next }
  | stale {pid millis : Int} : w.watchdog = .decide pid → w.sshdPid w.task ≠ pid →
      Does w (.decide millis) { w with watchdog := .idle }
  | die {pid : Int} : Does w (.die pid) (w.onProc pid fun c => { c with alive := false })
  | reap {pid : Int} :
      Does w (.reap pid)
        { w with procs := w.procs.filter fun c => !(c.pid == pid && !c.child && !c.alive) }
  | spawn {pid : Int} : w.pidFree pid = true →
      Does w (.spawn pid) (w.addProc { pid := pid, dropbear := false })
  | openPidFile {pid : Int} :
      Does w (.openPidFile pid)
        { w.onProc pid (fun c => { c with stage := .opened }) with pidFile := some [] }
  | writePidFile {pid : Int} :
      Does w (.writePidFile pid)
        ((w.onProc pid fun c => { c with stage := .serving }).writtenPid pid)
  | unlinkPidFile {pid : Int} : Does w (.unlinkPidFile pid) { w with pidFile := none }
  | appDeath : Does w .appDeath w.appDied
  | reboot : Does w .reboot { pidFile := w.pidFile }

theorem World.step_does {w u : World} {a : World.Action} (h : w.step a = some u) : w.Does a u := by
  cases a with
  | onCreate =>
    simp only [step] at h
    split at h
    · rename_i free
      split at h
      · cases h; exact .crash free.1
      · split at h <;> cases h
        · exact .createStale free.1 free.2 ‹_› ‹_›
        · exact .create free.1 ‹_›
    · cases h
  | onStartCommand =>
    simp only [step] at h
    split at h <;> cases h
    exact .startCommand ‹_›
  | onDestroy =>
    simp only [step] at h
    split at h <;> cases h
    exact .destroy ‹_›
  | stopSshd t =>
    simp only [step] at h
    split at h
    · rename_i free
      cases h
      split
      · exact .stop free.1 free.2 ‹_›
      · exact .stopNone free.1 free.2
    · cases h
  | kill t =>
    simp only [step] at h
    split at h <;> cases h
    rename_i some
    obtain ⟨pid, hp⟩ := Option.isSome_iff_exists.mp some
    exact .kill hp
  | fork t pid =>
    simp only [step] at h
    split at h
    · split at h
      · rename_i hp; cases h; subst hp; exact .forkFail ‹_›
      · split at h <;> cases h
        exact .fork ‹_› ‹_›
    · cases h
  | record t =>
    simp only [step] at h
    split at h
    · split at h
      · split at h
        · rename_i hp; cases h; subst hp; exact .recordFail ‹_›
        · cases h; exact .record ‹_› ‹_›
      · cases h
    · cases h
  | take =>
    simp only [step] at h
    split at h <;> cases h
    exact .take ‹_› ‹_›
  | begin now =>
    simp only [step] at h
    split at h
    · split at h <;> cases h
      exact .begin ‹_›
    · cases h
  | waitpid =>
    simp only [step] at h
    split at h
    · split at h <;> cases h
      exact .waitpid ‹_›
    · cases h
  | decide millis =>
    simp only [step] at h
    split at h
    · split at h
      · split at h <;> cases h
        · refine .clear ‹_› ‹_› ?_
          split
          · exact Or.inl rfl
          · exact Or.inr rfl
        · exact .stale ‹_› ‹_›
      · cases h
    · cases h
  | die pid => cases h; exact .die
  | reap pid => cases h; exact .reap
  | spawn pid =>
    simp only [step] at h
    split at h <;> cases h
    exact .spawn ‹_›
  | openPidFile pid =>
    simp only [step] at h
    split at h <;> cases h
    exact .openPidFile
  | writePidFile pid =>
    simp only [step] at h
    split at h <;> cases h
    exact .writePidFile
  | unlinkPidFile pid =>
    simp only [step] at h
    split at h <;> cases h
    exact .unlinkPidFile
  | appDeath => cases h; exact .appDeath
  | reboot => cases h; exact .reboot

/-- Only the position of one thread changes. -/
structure OnThread (w u : World) (t : Thread) : Prop where
  instances : u.instances = w.instances
  tasks : u.tasks = w.tasks
  task : u.task = w.task
  procs : u.procs = w.procs
  main : t ≠ .main → u.main = w.main
  watchdog : t ≠ .watchdog → u.watchdog = w.watchdog

section
variable {w u : World} {t t' : Thread}

theorem onThread_toKill (pid : Int) : OnThread w (w.toKill pid t) t := by
  cases t <;> exact ⟨rfl, rfl, rfl, rfl, by simp [toKill], by simp [toKill]⟩

theorem onThread_pastStop : OnThread w (w.pastStop t) t := by
  cases t <;> exact ⟨rfl, rfl, rfl, rfl, by simp [pastStop], by simp [pastStop]⟩

theorem onThread_goto (pc : StartPc) : OnThread w (w.goto pc t) t := by
  cases t <;> exact ⟨rfl, rfl, rfl, rfl, by simp [goto], by simp [goto]⟩

theorem onThread_leave : OnThread w (w.leave t) t := by
  cases t <;> exact ⟨rfl, rfl, rfl, rfl, by simp [leave], by simp [leave]⟩

theorem OnThread.sshdPid (h : OnThread w u t) (k : Nat) : u.sshdPid k = w.sshdPid k := by
  rw [World.sshdPid, World.sshdPid, h.instances]

end

end Ikofi.Service
