import Ikofi.Service.OneServer

/-!
# After `onDestroy`

`stopSshd` can only kill a child that is recorded. A watchdog that has decided
to restart has released the lock with `sshdPid` cleared, so a service stopped
at that point is started again by the watchdog. If the block of `onDestroy`
meets the watchdog outside `startSshd`, nothing is left running and nothing is
started any more.
-/

namespace Ikofi.Service

open Runs

/-- The guard of `NoOverlap`, and no `onDestroy` reads `sshdPid` while the
watchdog is restarting the server. -/
def OrderlyStop (s : Svc) (a : Action) : Prop :=
  NoOverlap s a ∧
  (a = .stopSshd .main → s.main = .onDestroy .block → s.starting .watchdog = none)

instance (s : Svc) (a : Action) : Decidable (OrderlyStop s a) := inferInstanceAs (Decidable (_ ∧ _))

/-- Every pid that the watchdog compares with `sshdPid` is a child's. -/
structure Positive (s : Svc) : Prop where
  tasks : ∀ pid ∈ s.tasks, 0 < pid
  watched : ∀ pid, s.watchdog = .begin pid ∨ s.watchdog = .wait pid ∨ s.watchdog = .decide pid →
    0 < pid
  forked : ∀ t pid, s.starting t = some (.record pid) → pid = -1 ∨ 0 < pid

/-- The service has nothing to stop and nothing that would start a server. -/
structure Stopped (s : Svc) : Prop where
  main : s.main = .idle ∨ s.main = .onDestroy .block
  cleared : s.sshdPid = 0
  watchdog : s.starting .watchdog = none
  dead : ∀ c ∈ s.children, ¬ c.Live

section
variable {s : Svc} {t : Thread} {pc : StartPc}

theorem starting_goto : (s.goto t pc).starting t = some pc := by cases t <;> rfl

theorem starting_goto_other : (s.goto t pc).starting t.other = s.starting t.other := by
  cases t <;> rfl

theorem starting_leave : (s.leave t).starting t = none := by cases t <;> rfl

theorem starting_leave_other : (s.leave t).starting t.other = s.starting t.other := by
  cases t <;> rfl

theorem starting_congr {u : Svc} (main : u.main = s.main) (watchdog : u.watchdog = s.watchdog) :
    u.starting t = s.starting t := by
  cases t <;> simp [Svc.starting, main, watchdog]

end

theorem Positive.goto {s u : Svc} {t : Thread} {pc : StartPc} (h : Positive s)
    (main : u.main = s.main) (watchdog : u.watchdog = s.watchdog) (tasks : u.tasks = s.tasks)
    (new : ∀ pid, pc = .record pid → pid = -1 ∨ 0 < pid) : Positive (u.goto t pc) := by
  refine ⟨?_, ?_, ?_⟩
  · cases t <;> exact tasks ▸ h.tasks
  · cases t with
    | main => exact fun pid hw => h.watched pid (watchdog ▸ hw)
    | watchdog => simp [Svc.goto]
  · intro t' pid ht
    rcases t.eq_or_other t' with rfl | rfl
    · rw [starting_goto] at ht
      exact new pid (Option.some.inj ht)
    · rw [starting_goto_other, starting_congr main watchdog] at ht
      exact h.forked _ pid ht

theorem Positive.leave {s u : Svc} {t : Thread} (h : Positive s) (main : u.main = s.main)
    (watchdog : u.watchdog = s.watchdog) (tasks : ∀ pid ∈ u.tasks, 0 < pid) :
    Positive (u.leave t) := by
  refine ⟨?_, ?_, ?_⟩
  · cases t <;> exact tasks
  · cases t with
    | main => exact fun pid hw => h.watched pid (watchdog ▸ hw)
    | watchdog => simp [Svc.leave]
  · intro t' pid ht
    rcases t.eq_or_other t' with rfl | rfl
    · rw [starting_leave] at ht; cases ht
    · rw [starting_leave_other, starting_congr main watchdog] at ht
      exact h.forked _ pid ht

/-- A step of the main thread that does not leave it about to record. -/
theorem Positive.setMain {s u : Svc} (h : Positive s) (watchdog : u.watchdog = s.watchdog)
    (tasks : u.tasks = s.tasks) (other : ∀ pid, u.starting .main ≠ some (.record pid)) :
    Positive u := by
  refine ⟨tasks ▸ h.tasks, fun pid hw => h.watched pid (watchdog ▸ hw), ?_⟩
  intro t pid ht
  cases t with
  | main => exact absurd ht (other pid)
  | watchdog =>
    refine h.forked .watchdog pid ?_
    rw [← ht]
    simp [Svc.starting, watchdog]

/-- A step of the watchdog outside `startSshd`. -/
theorem Positive.setWatchdog {s u : Svc} (h : Positive s) (main : u.main = s.main)
    (tasks : ∀ pid ∈ u.tasks, 0 < pid)
    (watched : ∀ pid, u.watchdog = .begin pid ∨ u.watchdog = .wait pid ∨ u.watchdog = .decide pid →
      0 < pid)
    (other : ∀ pid, u.starting .watchdog ≠ some (.record pid)) : Positive u := by
  refine ⟨tasks, watched, ?_⟩
  intro t pid ht
  cases t with
  | main =>
    refine h.forked .main pid ?_
    rw [← ht]
    simp [Svc.starting, main]
  | watchdog => exact absurd ht (other pid)

theorem step_positive {s t : Svc} {a : Action} (h : Positive s) (hs : step s a = some t) :
    Positive t := by
  cases step_does hs with
  | createStale hm hp | create hm hp | startCommand hm | destroy hm | destroyStop hl hm hp
  | destroyNone hl hm hp | createKill hm | destroyKill hm =>
    exact h.setMain rfl rfl (by simp [Svc.starting])
  | stop hl ht hp | stopNone hl ht hp | kill ht => exact h.goto rfl rfl rfl (by simp)
  | forkFail ht => exact h.goto rfl rfl rfl (by simp)
  | fork ht hp =>
    refine h.goto rfl rfl rfl ?_
    intro pid hpid
    obtain rfl := StartPc.record.inj hpid
    simp only [Svc.pidFree, Bool.and_eq_true, decide_eq_true_eq] at hp
    exact Or.inr hp.1
  | recordFail hl ht => exact h.leave rfl rfl h.tasks
  | record hl ht hp =>
    refine h.leave rfl rfl ?_
    intro q hq
    rcases List.mem_append.mp hq with hq | hq
    · exact h.tasks q hq
    · obtain rfl := List.mem_singleton.mp hq
      exact (h.forked _ _ ht).resolve_left hp
  | take hw ht =>
    have pos := h.tasks
    rw [ht] at pos
    refine h.setWatchdog rfl (fun q hq => pos q (List.mem_cons_of_mem _ hq)) ?_
      (by simp [Svc.starting])
    rintro q (hq | hq | hq) <;> cases hq
    exact pos _ List.mem_cons_self
  | begin hl hw =>
    refine h.setWatchdog rfl h.tasks ?_ (by simp [Svc.starting])
    rintro q (hq | hq | hq) <;> cases hq
    exact h.watched _ (Or.inl hw)
  | waitpid hw hr =>
    refine h.setWatchdog rfl h.tasks ?_ (by simp [Svc.starting])
    rintro q (hq | hq | hq) <;> cases hq
    exact h.watched _ (Or.inr (Or.inl hw))
  | restart hl hw hp hr | giveUp hl hw hp hr | stale hl hw hp =>
    exact h.setWatchdog rfl h.tasks (by simp) (by simp [Svc.starting])
  | die => exact ⟨h.tasks, h.watched, h.forked⟩

theorem init_positive : Positive init := by
  refine ⟨by simp [init], by simp [init], ?_⟩
  intro t pid ht
  cases t <;> cases ht

theorem dead_onPid {pid : Int} {f : Child → Child} {cs : List Child} (hf : Flags f)
    (dead : ∀ c ∈ cs, ¬ c.Live) : ∀ c ∈ onPid pid f cs, ¬ c.Live := by
  intro c hc hl
  obtain ⟨d, hd, -, hl⟩ := live_onPid hf hc hl
  exact dead d hd hl

/-- Only `onStartCommand` leaves a stopped service. -/
theorem step_stopped {s t : Svc} {a : Action} (pos : Positive s) (h : Stopped s)
    (new : a ≠ .onStartCommand) (hs : step s a = some t) : Stopped t := by
  have idle : ∀ t pc, s.starting t ≠ some pc := by
    intro t pc ht
    cases t with
    | main => rcases h.main with hm | hm <;> simp [Svc.starting, hm] at ht
    | watchdog => rw [h.watchdog] at ht; cases ht
  cases step_does hs with
  | createStale hm _ | create hm _ | createKill hm | destroyKill hm =>
    rcases h.main with hm' | hm' <;> rw [hm'] at hm <;> cases hm
  | startCommand hm => exact absurd rfl new
  | destroy hm => exact ⟨Or.inr rfl, h.cleared, h.watchdog, h.dead⟩
  | stop _ ht _ | stopNone _ ht _ | kill ht | forkFail ht | fork ht _ | recordFail _ ht
  | record _ ht _ => exact absurd ht (idle _ _)
  | destroyStop hl hm hp => rw [h.cleared] at hp; omega
  | destroyNone hl hm hp => exact ⟨Or.inl rfl, rfl, h.watchdog, h.dead⟩
  | take hw ht | begin hl hw | stale hl hw hp => exact ⟨h.main, h.cleared, rfl, h.dead⟩
  | waitpid hw hr => exact ⟨h.main, h.cleared, rfl, dead_onPid .reap h.dead⟩
  | restart hl hw hp hr | giveUp hl hw hp hr =>
    have := pos.watched _ (Or.inr (Or.inr hw))
    have := h.cleared
    omega
  | die => exact ⟨h.main, h.cleared, h.watchdog, dead_onPid .die h.dead⟩

/-- What `onDestroy` relies on between reading `sshdPid` and killing it, and
what it leaves behind. -/
structure Stopping (s : Svc) : Prop where
  killing : ∀ pid, s.main = .onDestroy (.kill pid) →
    s.sshdPid = 0 ∧ s.starting .watchdog = none
  stopped : s.destroyed = true → Stopped s

theorem Accounted.dead_of_none {s : Svc} (h : Accounted s) (unset : ¬ 0 < s.sshdPid)
    (main : s.pending .main = none) (watchdog : s.starting .watchdog = none) :
    ∀ c ∈ s.children, ¬ c.Live := by
  intro c hc hl
  have pos := h.sound.positive c hc
  rcases h.known c hc hl with hk | ⟨t, hk⟩
  · omega
  · cases t with
    | main => rw [main] at hk; cases hk
    | watchdog => simp [Svc.pending, watchdog] at hk

theorem destroyed_goto {s : Svc} {t : Thread} {pc : StartPc} :
    (s.goto t pc).destroyed = s.destroyed := by cases t <;> rfl

theorem destroyed_leave {s : Svc} {t : Thread} : (s.leave t).destroyed = s.destroyed := by
  cases t <;> rfl

/-- `onDestroy` ends only in a stopped service. -/
theorem stopped_of_destroyed {s t : Svc} {a : Action} (acc : Accounted s) (h : Stopping s)
    (ok : OrderlyStop s a) (hs : step s a = some t) (before : s.destroyed = false)
    (after : t.destroyed = true) : Stopped t := by
  cases step_does hs with
  | destroyNone hl hm hp =>
    have hw := ok.2 rfl hm
    exact ⟨Or.inl rfl, rfl, hw, acc.dead_of_none hp (by simp [Svc.pending, Svc.starting, hm]) hw⟩
  | @destroyKill pid hm =>
    obtain ⟨zero, hw⟩ := h.killing pid hm
    refine ⟨Or.inl rfl, zero, hw, ?_⟩
    intro c hc hl
    obtain ⟨hc, hp⟩ := acc.kill_known hc hl
    have pos := acc.sound.positive c hc
    rcases acc.known c hc hl with hk | ⟨t, hk⟩
    · omega
    · cases t with
      | main => exact hp (by simpa [Svc.pending, hm, eq_comm] using hk)
      | watchdog => simp [Svc.pending, hw] at hk
  | startCommand _ => cases after
  | stop _ _ _ | stopNone _ _ _ | kill _ | forkFail _ | fork _ _ =>
    rw [destroyed_goto] at after
    exact absurd (before.symm.trans after) (by simp)
  | recordFail _ _ | record _ _ _ =>
    rw [destroyed_leave] at after
    exact absurd (before.symm.trans after) (by simp)
  | createStale _ _ | create _ _ | destroy _ | destroyStop _ _ _ | createKill _ | take _ _
  | begin _ _ | waitpid _ _ | restart _ _ _ _ | giveUp _ _ _ _ | stale _ _ _ | die =>
    exact absurd (before.symm.trans after) (by simp)

/-- While `onDestroy` holds the lock, the watchdog stays out of `startSshd`. -/
theorem killing_step {s t : Svc} {a : Action} (h : Stopping s) (ok : OrderlyStop s a)
    (hs : step s a = some t) (pid : Int) (after : t.main = .onDestroy (.kill pid)) :
    t.sshdPid = 0 ∧ t.starting .watchdog = none := by
  have locked : s.main = .onDestroy (.kill pid) → s.lockFree ≠ true := by
    intro hq
    simp [Svc.lockFree, hq]
  cases step_does hs with
  | destroyStop hl hm hp => exact ⟨rfl, ok.2 rfl hm⟩
  | createStale _ _ | create _ _ | startCommand _ | destroy _ | destroyNone _ _ _ | createKill _
  | destroyKill _ => cases after
  | @stop t hl ht hp | @stopNone t hl ht hp =>
    cases t with
    | main => cases after
    | watchdog => exact absurd hl (locked after)
  | @kill t q ht | @forkFail t ht | @fork t q ht hp =>
    cases t with
    | main => cases after
    | watchdog => rw [(h.killing pid after).2] at ht; cases ht
  | @recordFail t hl ht | @record t q hl ht hp =>
    cases t with
    | main => cases after
    | watchdog => exact absurd hl (locked after)
  | take hw ht => exact ⟨(h.killing pid after).1, rfl⟩
  | waitpid hw hr => exact ⟨(h.killing pid after).1, rfl⟩
  | begin hl hw | restart hl hw hp hr | giveUp hl hw hp hr | stale hl hw hp =>
    exact absurd hl (locked after)
  | die => exact h.killing pid after

theorem step_stopping {s t : Svc} {a : Action} (acc : Accounted s) (pos : Positive s)
    (h : Stopping s) (ok : OrderlyStop s a) (hs : step s a = some t) : Stopping t := by
  refine ⟨killing_step h ok hs, fun after => ?_⟩
  cases before : s.destroyed with
  | false => exact stopped_of_destroyed acc h ok hs before after
  | true =>
    refine step_stopped pos (h.stopped before) ?_ hs
    rintro rfl
    cases step_does hs
    cases after

theorem init_stopping : Stopping init := by
  refine ⟨?_, ?_⟩
  · intro pid h; cases h
  · intro h; cases h

theorem run_stopping {as : List Action} {s : Svc} (h : Run step OrderlyStop init as s) :
    Accounted s ∧ Positive s ∧ Stopping s := by
  refine h.invariant (I := fun s => Accounted s ∧ Positive s ∧ Stopping s)
    ⟨init_accounted, init_positive, init_stopping⟩ ?_
  rintro s a t ⟨acc, pos, stopping⟩ ok hs
  exact ⟨step_accounted acc ok.1 hs, step_positive pos hs, step_stopping acc pos stopping ok hs⟩

/-- From a state in which `onDestroy` has completed, and until the service is
started again, no server is running and the watchdog neither forks nor records. -/
theorem stop_is_final {as bs : List Action} {s t : Svc} (h : Run step OrderlyStop init as s)
    (destroyed : s.destroyed = true) (later : Run step (fun _ a => a ≠ .onStartCommand) s bs t) :
    (∀ c ∈ t.children, ¬ c.Live) ∧ (∀ pid, step t (.fork .watchdog pid) = none) ∧
    step t (.record .watchdog) = none := by
  obtain ⟨-, pos, stopping⟩ := run_stopping h
  obtain ⟨-, stopped⟩ := later.invariant (I := fun t => Positive t ∧ Stopped t)
    ⟨pos, stopping.stopped destroyed⟩
    fun _ _ _ ⟨pos, stopped⟩ new hs => ⟨step_positive pos hs, step_stopped pos stopped new hs⟩
  refine ⟨stopped.dead, fun pid => ?_, ?_⟩
  · simp [step, stopped.watchdog]
  · simp [step, stopped.watchdog]

/-- A start, a crash, and the service stopped while the watchdog waits. -/
def crashThenStop : List Action :=
  [.onCreate 0, .onStartCommand, .stopSshd .main, .fork .main 10, .record .main,
   .take, .begin 5, .die 10, .waitpid, .onDestroy, .stopSshd .main, .kill .main]

def stoppedAfterCrash : Svc where
  sshdStartTime := 5
  main := .idle
  watchdog := .decide 10
  children := [{ pid := 10, alive := false, reaped := true }]
  destroyed := true

theorem stop_is_final_after_crash :
    let s := { stoppedAfterCrash with watchdog := .idle }
    (∀ c ∈ s.children, ¬ c.Live) ∧ (∀ pid, step s (.fork .watchdog pid) = none) ∧
    step s (.record .watchdog) = none :=
  have run : Run step OrderlyStop init crashThenStop stoppedAfterCrash := run_of_foldlM (by decide)
  @stop_is_final _ [.decide 9] _ _ run rfl (run_of_foldlM (by decide))

/-- The service is stopped between the watchdog's decision and its fork. -/
def stopWhileRestarting : List Action :=
  [.onCreate 0, .onStartCommand, .stopSshd .main, .fork .main 10, .record .main,
   .take, .begin 5, .die 10, .waitpid, .decide 9, .onDestroy, .stopSshd .main,
   .stopSshd .watchdog, .fork .watchdog 11]

def startedAfterStop : Svc where
  sshdStartTime := 5
  main := .idle
  watchdog := .restart (.record 11)
  children := [{ pid := 10, alive := false, reaped := true }, { pid := 11 }]
  destroyed := true

theorem server_after_stop :
    ¬ ∀ (as : List Action) (s : Svc), Reached step init as s → s.destroyed = true →
      (∀ c ∈ s.children, ¬ c.Live) ∧ (∀ pid, step s (.fork .watchdog pid) = none) ∧
      step s (.record .watchdog) = none := by
  intro claim
  have run := claim stopWhileRestarting startedAfterStop (run_of_foldlM (by decide)) rfl
  exact absurd run.1 (by decide)

end Ikofi.Service
