import Ikofi.Service.Tracked

/-!
# When a server may come to run

`isRunning` looks at the instance that was created last. A server of that
instance comes to run through a start request, or through the watchdog task of a
server that has exited; the tasks of earlier instances do not touch it.
-/

namespace Ikofi.Service

open World

namespace World

/-- `sInstance` is set at the end of `onCreate` and cleared at the end of `onDestroy`. -/
def isRunning (w : World) : Bool :=
  match w.main with
  | .absent | .onCreate _ => false
  | _ => decide (0 < w.sshdPid w.current)

/-- A server of the instance runs, or is being started: nothing more has to be delivered
for `isRunning` to become true. -/
def MayRun (w : World) : Prop :=
  w.main ≠ .absent ∧
    (0 < w.sshdPid w.current ∨ (w.starting .main).isSome ∨
      (w.task = w.current ∧ (w.starting .watchdog).isSome))

instance (w : World) : Decidable w.MayRun := inferInstanceAs (Decidable (_ ∧ _))

/-- Tasks belong to instances that were created. -/
structure Indexed (w : World) : Prop where
  created : w.main ≠ .absent → 0 < w.instances.length
  tasks : ∀ x ∈ w.tasks, x.1 < w.instances.length
  task : w.watchdog ≠ .idle → w.task < w.instances.length

end World

section
variable {w u : World} {t : Thread}

/-- The thread is inside a callback, or inside a task. -/
def World.Busy (w : World) : Thread → Prop
  | .main => w.main ≠ .absent
  | .watchdog => w.watchdog ≠ .idle

theorem busy_of_atStop (h : w.atStop t = true) : w.Busy t := by
  cases t with
  | main =>
    intro absent
    rcases atStop_main h with hm | hm <;> rw [absent] at hm <;> cases hm
  | watchdog =>
    intro idle
    have hw := atStop_watchdog h
    rw [idle] at hw
    cases hw

theorem busy_of_killing {pid : Int} (h : w.killing t = some pid) : w.Busy t := by
  cases t with
  | main =>
    intro absent
    rcases killing_main h with hm | hm | hm <;> rw [absent] at hm <;> cases hm
  | watchdog =>
    intro idle
    have hw := killing_watchdog h
    rw [idle] at hw
    cases hw

theorem busy_of_starting {pc : StartPc} (h : w.starting t = some pc) : w.Busy t := by
  cases t with
  | main =>
    intro absent
    have hm := starting_main h
    rw [absent] at hm
    cases hm
  | watchdog =>
    intro idle
    have hw := starting_watchdog h
    rw [idle] at hw
    cases hw

theorem OnThread.created (only : OnThread w u t) (busy : w.Busy t) (h : u.main ≠ .absent) :
    w.main ≠ .absent := by
  cases t with
  | main => exact busy
  | watchdog => exact only.main (by simp) ▸ h

theorem World.Indexed.thread (h : w.Indexed) (busy : w.Busy t) (only : OnThread w u t) :
    u.Indexed := by
  refine ⟨?_, ?_, ?_⟩
  · intro created
    rw [only.instances]
    exact h.created (only.created busy created)
  · rw [only.tasks, only.instances]
    exact h.tasks
  · intro running
    rw [only.task, only.instances]
    refine h.task ?_
    cases t with
    | main => exact only.watchdog (by simp) ▸ running
    | watchdog => exact busy

theorem World.Indexed.setInstance (h : w.Indexed) (k : Nat) (f : Instance → Instance) :
    (w.setInstance k f).Indexed := by
  have length : (w.setInstance k f).instances.length = w.instances.length := List.length_modify ..
  refine ⟨?_, ?_, ?_⟩
  · rw [length]
    exact h.created
  · rw [length]
    exact h.tasks
  · rw [length]
    exact h.task

theorem instOf_lt (h : w.Indexed) (busy : w.Busy t) : w.instOf t < w.instances.length := by
  cases t with
  | main =>
    have created := h.created busy
    simp only [instOf, current]
    omega
  | watchdog => exact h.task busy

end

theorem World.step_indexed {w u : World} {a : World.Action} (h : w.Indexed)
    (hs : w.step a = some u) : u.Indexed := by
  cases World.step_does hs with
  | crash hm | appDeath | reboot => exact ⟨by simp [appDied], by simp [appDied], by simp [appDied]⟩
  | createStale hm hl hr hp | create hm hp =>
    refine ⟨by simp, ?_, ?_⟩
    · intro x hx
      rw [List.length_append]
      exact Nat.lt_add_right _ (h.tasks x hx)
    · intro busy
      rw [List.length_append]
      exact Nat.lt_add_right _ (h.task busy)
  | startCommand hm | destroy hm => exact ⟨fun _ => h.created (by simp [hm]), h.tasks, h.task⟩
  | stop hl ht hp =>
    exact (h.setInstance _ _).thread (busy_of_atStop (w := w.setPid _ 0) ht) (onThread_toKill _)
  | stopNone hl ht =>
    exact (h.setInstance _ _).thread (busy_of_atStop (w := w.setPid _ 0) ht) onThread_pastStop
  | kill ht => exact h.thread (busy_of_killing ht) onThread_pastStop
  | forkFail ht => exact h.thread (busy_of_starting ht) (onThread_goto _)
  | fork ht free =>
    exact World.Indexed.thread (w := w.addProc _) ⟨h.created, h.tasks, h.task⟩ (busy_of_starting ht)
      (onThread_goto _)
  | recordFail ht =>
    exact (h.setInstance _ _).thread (busy_of_starting (w := w.setPid _ 0) ht) onThread_leave
  | @record t pid ht some =>
    have recorded : (w.setPid (w.instOf t) pid).Indexed := h.setInstance _ _
    have own : w.instOf t < (w.setPid (w.instOf t) pid).instances.length :=
      (List.length_modify ..).symm ▸ instOf_lt h (busy_of_starting ht)
    refine World.Indexed.thread (w := { w.setPid _ _ with tasks := _ }) ?_ (busy_of_starting ht)
      onThread_leave
    refine ⟨recorded.created, ?_, recorded.task⟩
    intro x hx
    rcases List.mem_append.mp hx with hx | hx
    · exact recorded.tasks x hx
    · obtain rfl := List.mem_singleton.mp hx
      exact own
  | take hw ht =>
    refine ⟨h.created, ?_, ?_⟩
    · intro x hx
      exact h.tasks x (ht ▸ List.mem_cons_of_mem _ hx)
    · intro _
      exact h.tasks _ (ht ▸ List.mem_cons_self)
  | begin hw | clear hw hp hn =>
    have busy : w.watchdog ≠ .idle := by simp [hw]
    exact ⟨(h.setInstance _ _).created, (h.setInstance _ _).tasks,
      fun _ => (h.setInstance _ _).task busy⟩
  | waitpid hw => exact ⟨h.created, h.tasks, fun _ => h.task (by simp [hw])⟩
  | stale hw hp => exact ⟨h.created, h.tasks, by simp⟩
  | die | openPidFile | writePidFile | unlinkPidFile | reap | spawn free =>
    exact ⟨h.created, h.tasks, h.task⟩

section
variable {w u : World} {t t' : Thread}

/-- Nothing starts that did not run or start before. -/
theorem mayRun_of_shrink (h : u.MayRun) (length : u.instances.length = w.instances.length)
    (main : u.main ≠ .absent → w.main ≠ .absent)
    (pid : ∀ k, 0 < u.sshdPid k → 0 < w.sshdPid k)
    (starting : ∀ t, (u.starting t).isSome → (w.starting t).isSome)
    (task : (u.starting .watchdog).isSome → u.task = w.task) : w.MayRun := by
  have current : u.current = w.current := by rw [World.current, World.current, length]
  refine ⟨main h.1, ?_⟩
  rcases h.2 with runs | starts | ⟨own, starts⟩
  · exact Or.inl (current ▸ pid _ runs)
  · exact Or.inr (Or.inl (starting .main starts))
  · exact Or.inr (Or.inr ⟨(task starts).symm.trans (own.trans current), starting .watchdog starts⟩)

theorem mayRun_of_thread (h : u.MayRun) (busy : w.Busy t) (only : OnThread w u t)
    (starting : ∀ t, (u.starting t).isSome → (w.starting t).isSome) : w.MayRun :=
  mayRun_of_shrink h (by rw [only.instances]) (only.created busy)
    (fun k runs => only.sshdPid k ▸ runs) starting fun _ => only.task

theorem mayRun_setPid_zero {k : Nat} (h : (w.setPid k 0).MayRun) : w.MayRun := by
  refine mayRun_of_shrink h (List.length_modify ..) id ?_ (fun _ => id) fun _ => rfl
  intro j runs
  rw [sshdPid_setPid_zero] at runs
  split at runs
  · cases runs
  · exact runs

/-- The watchdog is not inside `startSshd`. -/
theorem mayRun_of_watchdog (h : u.MayRun) (length : u.instances.length = w.instances.length)
    (main : u.main = w.main) (pid : ∀ k, 0 < u.sshdPid k → 0 < w.sshdPid k)
    (none : u.starting .watchdog = none) : w.MayRun := by
  refine mayRun_of_shrink h length (main ▸ id) pid ?_ (by simp [none])
  intro t starts
  cases t with
  | main =>
    rw [World.starting, main] at starts
    exact starts
  | watchdog =>
    rw [none] at starts
    cases starts

/-- A thread inside `startSshd` starts a server of its own instance only. -/
theorem mayRun_of_starting {pc : StartPc} (h : u.MayRun) (ht : w.starting t = some pc)
    (length : u.instances.length = w.instances.length) (task : u.task = w.task)
    (other : t ≠ .main → u.main = w.main)
    (pid : w.instOf t ≠ w.current → u.sshdPid w.current = w.sshdPid w.current) : w.MayRun := by
  have current : u.current = w.current := by rw [World.current, World.current, length]
  cases t with
  | main => exact ⟨busy_of_starting ht, Or.inr (Or.inl (by rw [ht]; rfl))⟩
  | watchdog =>
    have main := other (by simp)
    have created : w.main ≠ .absent := main ▸ h.1
    by_cases own : w.task = w.current
    · exact ⟨created, Or.inr (Or.inr ⟨own, by rw [ht]; rfl⟩)⟩
    · refine ⟨created, ?_⟩
      rcases h.2 with runs | starts | ⟨same, -⟩
      · rw [current, pid own] at runs
        exact Or.inl runs
      · rw [World.starting, main] at starts
        exact Or.inr (Or.inl starts)
      · rw [task, current] at same
        exact absurd same own

theorem mayRun_of_starting_thread {pc : StartPc} (h : u.MayRun) (ht : w.starting t = some pc)
    (only : OnThread w u t) : w.MayRun :=
  mayRun_of_starting h ht (by rw [only.instances]) only.task only.main fun _ => only.sshdPid _

theorem starting_pastStop (h : w.atStop t = true ∨ ∃ pid, w.killing t = some pid)
    (starts : ((w.pastStop t).starting t').isSome) : (w.starting t').isSome := by
  cases t with
  | main =>
    cases t' with
    | main =>
      rcases h with h | ⟨pid, h⟩
      · rcases atStop_main h with hm | hm <;> simp [World.starting, pastStop, hm] at starts ⊢
      · rcases killing_main h with hm | hm | hm <;> simp [World.starting, pastStop, hm] at starts ⊢
    | watchdog => exact starts
  | watchdog =>
    cases t' with
    | main => exact starts
    | watchdog =>
      rcases h with h | ⟨pid, h⟩
      · simp [World.starting, atStop_watchdog h]
      · simp [World.starting, killing_watchdog h]

theorem starting_toKill {pid : Int} (h : w.atStop t = true)
    (starts : ((w.toKill pid t).starting t').isSome) : (w.starting t').isSome := by
  cases t with
  | main =>
    cases t' with
    | main => rcases atStop_main h with hm | hm <;> simp [World.starting, toKill, hm] at starts ⊢
    | watchdog => exact starts
  | watchdog =>
    cases t' with
    | main => exact starts
    | watchdog => simp [World.starting, atStop_watchdog h]

/-- No server of the new instance runs or is being started. -/
theorem mayRun_create (indexed : w.Indexed) {i : Instance} {m : Main} (none : ¬ 0 < i.sshdPid)
    (idle : ∀ pc, m ≠ .onStartCommand pc) :
    ¬ World.MayRun { w with instances := w.instances ++ [i], main := m } := by
  have current : World.current { w with instances := w.instances ++ [i], main := m } =
      w.instances.length := by
    simp [World.current]
  rintro ⟨-, runs | starts | ⟨own, starts⟩⟩
  · rw [current] at runs
    simp [World.sshdPid] at runs
    omega
  · obtain ⟨pc, hpc⟩ := Option.isSome_iff_exists.mp starts
    exact idle pc (starting_main hpc)
  · obtain ⟨pc, hpc⟩ := Option.isSome_iff_exists.mp starts
    have busy : w.Busy .watchdog := busy_of_starting (w := { w with instances := _, main := m }) hpc
    have old := indexed.task busy
    rw [current] at own
    change w.task = w.instances.length at own
    omega

end

/-- Only the delivery of a start request can make a server run that could not before. -/
theorem World.step_mayRun {w u : World} {a : World.Action} (tracked : w.Tracked)
    (indexed : w.Indexed) (other : a ≠ .onStartCommand) (hs : w.step a = some u) (h : u.MayRun) :
    w.MayRun := by
  cases World.step_does hs with
  | crash hm | appDeath | reboot => exact absurd rfl h.1
  | createStale hm hl hr hp => exact absurd h (mayRun_create indexed (by simp) (by simp))
  | create hm hp => exact absurd h (mayRun_create indexed hp (by simp))
  | startCommand hm => exact absurd rfl other
  | destroy hm =>
    refine mayRun_of_shrink h rfl (fun _ => by simp [hm]) (fun _ => id) ?_ (fun _ => rfl)
    intro t starts
    cases t with
    | main => cases starts
    | watchdog => exact starts
  | stop hl ht hp =>
    exact mayRun_setPid_zero (mayRun_of_thread h (busy_of_atStop (w := w.setPid _ 0) ht)
      (onThread_toKill _) fun _ => starting_toKill (w := w.setPid _ 0) ht)
  | stopNone hl ht =>
    exact mayRun_setPid_zero (mayRun_of_thread h (busy_of_atStop (w := w.setPid _ 0) ht)
      onThread_pastStop fun _ => starting_pastStop (w := w.setPid _ 0) (.inl ht))
  | kill ht =>
    exact mayRun_of_thread h (busy_of_killing ht) onThread_pastStop fun _ =>
      starting_pastStop (.inr ⟨_, ht⟩)
  | forkFail ht => exact mayRun_of_starting_thread h ht (onThread_goto _)
  | fork ht free => exact mayRun_of_starting_thread (w := w.addProc _) h ht (onThread_goto _)
  | recordFail ht =>
    exact mayRun_setPid_zero (mayRun_of_starting_thread (w := w.setPid _ 0) h ht onThread_leave)
  | @record t pid ht some =>
    refine mayRun_of_starting h ht ?_ onThread_leave.task onThread_leave.main ?_
    · rw [onThread_leave.instances]
      exact List.length_modify ..
    · intro own
      rw [onThread_leave.sshdPid]
      exact (sshdPid_setPid pid (w.instOf t) w.current).resolve_right fun same => own same.1
  | take hw ht | waitpid hw | stale hw hp => exact mayRun_of_watchdog h rfl rfl (fun _ => id) rfl
  | begin hw =>
    exact mayRun_of_watchdog h (List.length_modify ..) rfl
      (fun k runs => sshdPid_noteStart _ k _ ▸ runs) rfl
  | clear hw hp hn =>
    have length : (w.setPid w.task 0).current = w.current := by
      rw [World.current, World.current, setPid, setInstance, List.length_modify]
    rcases h.2 with runs | starts | ⟨own, -⟩
    · exact mayRun_setPid_zero (w := w) ⟨h.1, Or.inl runs⟩
    · exact ⟨h.1, Or.inr (Or.inl starts)⟩
    · -- the instance whose server has exited is the one that restarts it
      have positive := tracked.awaited _ (by rw [hw]; rfl)
      change w.task = (w.setPid w.task 0).current at own
      rw [length] at own
      exact ⟨h.1, Or.inl (own ▸ hp.symm ▸ positive)⟩
  | die | openPidFile | writePidFile | unlinkPidFile | reap | spawn free => exact h

end Ikofi.Service
