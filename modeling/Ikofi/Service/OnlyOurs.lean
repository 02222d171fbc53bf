import Ikofi.Service.Tracked

/-!
# What is killed

A pid that is recorded is a child's, but for the moment between `waitpid` and the
block behind it. The pid in the file is that of the last server that wrote it,
whatever has become of that server and of its pid.
-/

namespace Ikofi.Service

open Runs World

/-- The pid that the running task has reaped and not yet compared. -/
def Watchdog.reaped : Watchdog → Option Int
  | .decide pid => some pid
  | _ => none

namespace World

/-- Every pid that a thread is about to kill is a server's. -/
def OnlyOurs (w : World) : Prop := ∀ t pid, w.killing t = some pid → w.Ours pid

/-- An instance is created while the pid file holds no pid, or the pid of a server that
is not reaped. `sshdPid` is not read by `stopSshd` between `waitpid` and the block that
clears it, unless a new child has the same pid. A process is not reaped between the reading
of its pid and the `kill`. -/
def Timely (w : World) : Action → Prop
  | .onCreate => ∀ pid ∈ (readPidFile w.pidFile).toOption, 0 < pid → w.Ours pid
  | .stopSshd .main => ∀ pid ∈ w.watchdog.reaped, w.task = w.current →
      w.sshdPid w.current = pid → (w.current, pid) ∈ w.tasks
  | .waitpid => ∀ pid ∈ w.watchdog.awaits, w.killing .main ≠ some pid
  | .reap pid => w.killing .main ≠ some pid ∧ w.killing .watchdog ≠ some pid
  | _ => True

instance (w : World) : (a : Action) → Decidable (w.Timely a)
  | .onCreate => inferInstanceAs (Decidable (∀ pid ∈ (readPidFile w.pidFile).toOption, _))
  | .stopSshd .main => inferInstanceAs (Decidable (∀ pid ∈ w.watchdog.reaped, _))
  | .waitpid => inferInstanceAs (Decidable (∀ pid ∈ w.watchdog.awaits, _))
  | .reap _ => inferInstanceAs (Decidable (_ ∧ _))
  | .onStartCommand | .onDestroy | .stopSshd .watchdog | .kill _ | .fork _ _ | .record _ | .take
  | .begin _ | .decide _ | .die _ | .spawn _ | .openPidFile _ | .writePidFile _
  | .unlinkPidFile _ | .appDeath | .reboot => isTrue trivial

end World

section
variable {w u : World} {t t' : Thread} {p pid : Int}

theorem killing_pastStop : (w.pastStop t).killing t = none := by
  cases t with
  | main => cases hm : w.main <;> simp [World.killing, pastStop, hm]
  | watchdog => rfl

theorem killing_record : (w.goto (.record pid) t).killing t = none := by cases t <;> rfl

theorem killing_leave : (w.leave t).killing t = none := by cases t <;> rfl

theorem killing_toKill : (w.toKill pid t).killing t = some pid := by
  cases t with
  | main => cases hm : w.main <;> simp [World.killing, toKill, hm]
  | watchdog => rfl

/-- The other thread is where it was. -/
theorem World.OnlyOurs.step (h : w.OnlyOurs) (t : Thread) (procs : u.procs = w.procs)
    (main : t ≠ .main → u.main = w.main) (watchdog : t ≠ .watchdog → u.watchdog = w.watchdog)
    (ours : ∀ p, u.killing t = some p → w.Ours p) : u.OnlyOurs := by
  intro t' p hp
  rw [World.Ours, procs]
  by_cases same : t = t'
  · exact ours p (same ▸ hp)
  · refine h t' p ?_
    cases t' with
    | main =>
      rw [World.killing, main same] at hp
      exact hp
    | watchdog =>
      rw [World.killing, watchdog same] at hp
      exact hp

theorem World.OnlyOurs.thread (h : w.OnlyOurs) (only : OnThread w u t)
    (ours : ∀ p, u.killing t = some p → w.Ours p) : u.OnlyOurs :=
  h.step t only.procs only.main only.watchdog ours

/-- What `stopSshd` reads is a child that nobody has reaped. -/
theorem ours_of_recorded (h : w.Tracked) (ok : w.Timely (.stopSshd t)) (ht : w.atStop t = true)
    (some : 0 < w.sshdPid (w.instOf t)) : w.Ours (w.sshdPid (w.instOf t)) := by
  have owned : ∀ k pid, (k, pid) ∈ w.tasks → w.Ours pid := by
    intro k pid mem
    refine (h.owned pid ?_).ours
    exact List.mem_append_left _ (List.mem_append_left _ (List.mem_map.mpr ⟨_, mem, rfl⟩))
  rcases h.recorded _ some with mem | ⟨task, running⟩
  · exact owned _ _ mem
  · cases t with
    | watchdog =>
      -- the executor thread is in `startSshd` itself
      rw [atStop_watchdog ht] at running
      cases running
    | main =>
      cases hw : w.watchdog with
      | decide pid =>
        rw [hw] at running
        obtain rfl := Option.some.inj running
        exact owned _ _ (ok _ (by rw [hw]; rfl) task rfl)
      | begin pid | wait pid =>
        rw [hw] at running
        obtain rfl := Option.some.inj running
        refine (h.owned _ ?_).ours
        simp [World.pids, hw, Watchdog.pids]
      | idle | restart pc =>
        rw [hw] at running
        cases running

end

/-- Only the processes change, and no server that is about to be killed is reaped. -/
theorem World.OnlyOurs.procsStep {w u : World} (h : w.OnlyOurs) (main : u.main = w.main)
    (watchdog : u.watchdog = w.watchdog)
    (ours : ∀ t p, w.killing t = some p → w.Ours p → u.Ours p) : u.OnlyOurs := by
  intro t p hp
  have old : w.killing t = some p := by
    cases t with
    | main => rw [← hp, World.killing, World.killing, main]
    | watchdog => rw [← hp, World.killing, World.killing, watchdog]
  exact ours t p old (h t p old)

theorem World.step_onlyOurs {w u : World} {a : World.Action} (tracked : w.Tracked) (h : w.OnlyOurs)
    (ok : w.Timely a) (hs : w.step a = some u) : u.OnlyOurs := by
  cases World.step_does hs with
  | crash hm | appDeath | reboot =>
    intro t p hp
    cases t <;> cases hp
  | createStale hm hl hr hp =>
    refine h.step .main rfl (by simp) (fun _ => rfl) ?_
    intro p killing
    obtain rfl := Option.some.inj killing
    exact ok _ (by rw [hr]; rfl) hp
  | create hm hp | startCommand hm | destroy hm =>
    exact h.step .main rfl (by simp) (fun _ => rfl) (by simp [World.killing])
  | stop hl ht hp =>
    refine h.thread (w := w.setPid _ 0) (onThread_toKill _) ?_
    intro p killing
    rw [killing_toKill] at killing
    obtain rfl := Option.some.inj killing
    exact ours_of_recorded tracked ok ht hp
  | stopNone hl ht =>
    exact h.thread (w := w.setPid _ 0) onThread_pastStop (by simp [killing_pastStop])
  | kill ht => exact h.thread onThread_pastStop (by simp [killing_pastStop])
  | forkFail ht => exact h.thread (onThread_goto _) (by simp [killing_record])
  | fork ht free =>
    refine World.OnlyOurs.thread (w := w.addProc _) ?_ (onThread_goto _) (by simp [killing_record])
    exact h.procsStep rfl rfl fun _ _ _ ours => Denotes.append ours (pidFree_iff.mp free).2
  | recordFail ht => exact h.thread (w := w.setPid _ 0) onThread_leave (by simp [killing_leave])
  | record ht some =>
    exact h.thread (w := { w.setPid _ _ with tasks := _ }) onThread_leave (by simp [killing_leave])
  | take hw ht | begin hw | stale hw hp =>
    exact h.step .watchdog rfl (fun _ => rfl) (by simp) (by simp [World.killing])
  | waitpid hw =>
    rename_i pid
    intro t p killing
    cases t with
    | watchdog => cases killing
    | main =>
      refine Denotes.filter (h .main p killing) ?_
      rintro c - rfl
      have other : c.pid ≠ pid := by
        rintro rfl
        exact ok c.pid (by rw [hw]; rfl) killing
      simp [other]
  | clear hw hp hn =>
    refine h.step .watchdog rfl (fun _ => rfl) (by simp) ?_
    rcases hn with rfl | rfl <;> simp [World.killing]
  | die | openPidFile | writePidFile =>
    exact h.procsStep rfl rfl fun _ _ _ ours =>
      Denotes.update ours _ (fun _ => rfl) (fun _ ours => ours)
  | unlinkPidFile => exact h.procsStep rfl rfl fun _ _ _ ours => ours
  | reap =>
    rename_i pid
    refine h.procsStep rfl rfl ?_
    intro t p killing ours
    refine Denotes.filter ours ?_
    rintro c - rfl
    have other : c.pid ≠ pid := by
      rintro rfl
      cases t with
      | main => exact ok.1 killing
      | watchdog => exact ok.2 killing
    simp [other]
  | spawn free =>
    exact h.procsStep rfl rfl fun _ _ _ ours => Denotes.append ours (pidFree_iff.mp free).2

/-- With instances created only over the pid file of a server that still runs, or none,
and with `stopSshd` and the reaping kept apart, each pid that is passed to `kill` is that of
a server which is not reaped. -/
theorem kills_only_servers {as : List World.Action} {w : World}
    (h : Run World.step World.Timely {} as w) : w.OnlyOurs := by
  have start : World.Tracked {} ∧ World.OnlyOurs {} := by
    refine ⟨tracked_without_app (by simp), ?_⟩
    intro t p hp
    cases t <;> cases hp
  have both : w.Tracked ∧ w.OnlyOurs := by
    refine h.invariant (I := fun w => w.Tracked ∧ w.OnlyOurs) start ?_
    intro v a u hi ok hs
    exact ⟨World.step_tracked hi.1 hs, World.step_onlyOurs hi.1 hi.2 ok hs⟩
  exact both.2

/-- A server has written its pid when the app process dies. -/
def appDiesServing : List World.Action :=
  [.onCreate, .onStartCommand, .stopSshd .main, .fork .main 10, .record .main, .openPidFile 10,
    .writePidFile 10, .appDeath]

/-- The new instance has read the pid of the server, which still runs. -/
def killsOldServer : World where
  instances := [{}]
  main := .onCreate 10
  procs := [{ pid := 10, dropbear := true, stage := .serving }]
  pidFile := some (lit "10\n")

theorem kills_only_servers_old_server :
    killsOldServer.killing .main = some 10 ∧ killsOldServer.Ours 10 :=
  have run : Run World.step World.Timely {} (appDiesServing ++ [.onCreate]) killsOldServer :=
    run_of_foldlM (by decide +kernel)
  ⟨rfl, kills_only_servers run .main 10 rfl⟩

/-- The server has exited and was reaped, and its pid belongs to another process. -/
def killsOther : World where
  instances := [{}]
  main := .onCreate 10
  procs := [{ pid := 10, dropbear := false }]
  pidFile := some (lit "10\n")

theorem stale_pid_killed :
    ¬ ∀ (as : List World.Action) (w : World), Reached World.step {} as w → w.OnlyOurs := by
  intro claim
  have run : Reached World.step {} (appDiesServing ++ [.die 10, .reap 10, .spawn 10, .onCreate])
      killsOther := run_of_foldlM (by decide +kernel)
  exact absurd (claim _ _ run .main 10 rfl) (by decide)

end Ikofi.Service
