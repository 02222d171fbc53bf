import Ikofi.Service.World

/-!
# One instance in its surroundings

The instance that `Svc` describes is the one that the app process creates, as long as it
lives and creates no other. What happens to that instance in the surroundings is a step
of `Svc`, and everything else there is not seen by it.
-/

namespace Ikofi.Service

open Runs

/-- The surroundings of one instance. It is gone from the main thread when `onDestroy` has
completed. -/
def around (s : Svc) (procs : List Proc) (pidFile : Option Bytes) : World where
  instances := if s.main = .absent then []
    else
      [{ sshdPid := s.sshdPid, sshdStartTime := s.sshdStartTime, sshdDuration := s.sshdDuration }]
  main := if s.destroyed then .absent else s.main
  tasks := s.tasks.map fun pid => (0, pid)
  watchdog := s.watchdog
  procs := procs
  pidFile := pidFile

/-- The children that have not been reaped, each with whether it is alive. -/
def unreaped (procs : List Proc) : List (Int × Bool) :=
  (procs.filter (·.child)).map fun c => (c.pid, c.alive)

def Svc.unreaped (s : Svc) : List (Int × Bool) :=
  (s.children.filter (! ·.reaped)).map fun c => (c.pid, c.alive)

/-- The instance is as it was before `onCreate`, or has been created, and it has been destroyed
for good or not. -/
structure Steady (s : Svc) : Prop where
  fresh : s.main = .absent → s = {}
  idle : s.destroyed = true → s.main = .idle

/-- The surroundings are those of the instance. -/
def Sees (w : World) (s : Svc) : Prop :=
  Steady s ∧ ∃ procs pidFile, w = around s procs pidFile ∧ unreaped procs = s.unreaped

/-- What an action is to the instance. -/
def seen (w : World) : World.Action → Option Action
  | .onCreate => (readPidFile w.pidFile).toOption.map .onCreate
  | .onStartCommand => some .onStartCommand
  | .onDestroy => some .onDestroy
  | .stopSshd t => some (.stopSshd t)
  | .kill t => some (.kill t)
  | .fork t pid => some (.fork t pid)
  | .record t => some (.record t)
  | .take => some .take
  | .begin nanoTime => some (.begin nanoTime)
  | .waitpid => some .waitpid
  | .decide millis => some (.decide millis)
  | .die pid => some (.die pid)
  | .reap _ | .spawn _ | .openPidFile _ | .writePidFile _ | .unlinkPidFile _ | .appDeath
  | .reboot => none

/-- The app process goes on, and creates one instance. -/
def Sole (w : World) : World.Action → Prop
  | .onCreate => w.instances = [] ∧ (readPidFile w.pidFile).isOk = true
  | .appDeath | .reboot => False
  | _ => True

/-! ## Processes -/

section
variable {procs : List Proc} {s : Svc} {pid : Int}

theorem pidFree_seen (same : unreaped procs = s.unreaped)
    (free : (decide (0 < pid) && procs.all fun c => c.pid != pid) = true) :
    s.pidFree pid = true := by
  rw [Bool.and_eq_true, List.all_eq_true] at free
  rw [Svc.pidFree, Bool.and_eq_true, List.all_eq_true]
  refine ⟨free.1, fun c hc => ?_⟩
  cases reaped : c.reaped with
  | true => rfl
  | false =>
    have mem : (c.pid, c.alive) ∈ s.unreaped :=
      List.mem_map.mpr ⟨c, List.mem_filter.mpr ⟨hc, by simp [reaped]⟩, rfl⟩
    rw [← same] at mem
    obtain ⟨p, hp, eq⟩ := List.mem_map.mp mem
    have other := free.2 p (List.mem_of_mem_filter hp)
    rw [(Prod.mk.inj eq).1] at other
    simpa using other

theorem waitpidReturns_seen (same : unreaped procs = s.unreaped) :
    (procs.all fun c => c.pid != pid || !c.child || !c.alive) = s.waitpidReturns pid := by
  have left : (procs.all fun c => c.pid != pid || !c.child || !c.alive) =
      (unreaped procs).all fun x => x.1 != pid || !x.2 := by
    rw [unreaped, List.all_map, List.all_filter]
    refine congrArg procs.all (funext fun c => ?_)
    cases c.child <;> simp
  have right : s.waitpidReturns pid = s.unreaped.all fun x => x.1 != pid || !x.2 := by
    rw [Svc.unreaped, List.all_map, List.all_filter, Svc.waitpidReturns]
    refine congrArg s.children.all (funext fun c => ?_)
    cases c.reaped <;> simp
  rw [left, right, same]

theorem unreaped_addProc (c : Proc) :
    unreaped (procs ++ [c]) = unreaped procs ++ if c.child then [(c.pid, c.alive)] else [] := by
  rw [unreaped, List.filter_append, List.map_append]
  cases child : c.child <;> simp [unreaped, child]

theorem Svc.unreaped_spawn (s : Svc) (pid : Int) :
    (s.spawn pid).unreaped = s.unreaped ++ [(pid, true)] := by
  simp [Svc.unreaped, Svc.spawn]

theorem unreaped_onProc {f : Proc → Proc} (h : ∀ c, (f c).child = c.child) :
    unreaped (procs.map fun c => if c.pid = pid then f c else c) =
      (procs.filter (·.child)).map fun c =>
        if c.pid = pid then ((f c).pid, (f c).alive) else (c.pid, c.alive) := by
  induction procs with
  | nil => rfl
  | cons c cs ih =>
    unfold unreaped at ih ⊢
    by_cases here : c.pid = pid <;> cases child : c.child <;> simp [here, h, child, ih]

theorem unreaped_stage (stage : PidFileStage) :
    unreaped (procs.map fun c => if c.pid = pid then { c with stage := stage } else c) =
      unreaped procs := by
  rw [unreaped_onProc (f := fun c => { c with stage := stage }) fun _ => rfl, unreaped]
  exact List.map_congr_left fun c _ => ite_self _

/-- The process with this pid is dead. -/
def dead (pid : Int) (x : Int × Bool) : Int × Bool := if x.1 = pid then (x.1, false) else x

theorem unreaped_die :
    unreaped (procs.map fun c => if c.pid = pid then { c with alive := false } else c) =
      (unreaped procs).map (dead pid) := by
  rw [unreaped_onProc (f := fun c => { c with alive := false }) fun _ => rfl, unreaped,
    List.map_map]
  rfl

theorem Svc.unreaped_signal {f : Child → Child} (h : ∀ c, (f c).reaped = c.reaped) :
    (s.signal pid f).unreaped = (s.children.filter (! ·.reaped)).map fun c =>
      if c.pid = pid then ((f c).pid, (f c).alive) else (c.pid, c.alive) := by
  unfold Svc.unreaped Svc.signal onPid
  induction s.children with
  | nil => rfl
  | cons c cs ih =>
    by_cases here : c.pid = pid <;> cases reaped : c.reaped <;> simp [here, h, reaped, ih]

theorem Svc.unreaped_kill :
    (s.signal pid fun c => { c with killed := true }).unreaped = s.unreaped := by
  rw [Svc.unreaped_signal (f := fun c => { c with killed := true }) fun _ => rfl, Svc.unreaped]
  exact List.map_congr_left fun c _ => ite_self _

theorem Svc.unreaped_die :
    (s.signal pid fun c => { c with alive := false }).unreaped = s.unreaped.map (dead pid) := by
  rw [Svc.unreaped_signal (f := fun c => { c with alive := false }) fun _ => rfl, Svc.unreaped,
    List.map_map]
  rfl

theorem unreaped_waitpid : unreaped (procs.filter fun c => !(c.pid == pid && c.child)) =
    (unreaped procs).filter (·.1 != pid) := by
  unfold unreaped
  rw [List.filter_map, List.filter_filter, List.filter_filter]
  refine congrArg (List.map _) (List.filter_congr fun c _ => ?_)
  cases c.child <;> simp [Function.comp, bne]

theorem Svc.unreaped_waitpid :
    (s.signal pid fun c => { c with reaped := true }).unreaped =
      s.unreaped.filter (·.1 != pid) := by
  unfold Svc.unreaped Svc.signal onPid
  induction s.children with
  | nil => rfl
  | cons c cs ih =>
    by_cases here : c.pid = pid <;> cases reaped : c.reaped <;>
      simp_all

theorem unreaped_reap :
    unreaped (procs.filter fun c => !(c.pid == pid && !c.child && !c.alive)) = unreaped procs := by
  unfold unreaped
  rw [List.filter_filter]
  refine congrArg (List.map _) (List.filter_congr fun c _ => ?_)
  cases c.child <;> simp

end

/-! ## The threads -/

section
variable {s : Svc} {procs : List Proc} {f : Option Bytes} {t : Thread} {pc : StartPc}

theorem around_main (h : Steady s) (procs : List Proc) (f : Option Bytes) :
    (around s procs f).main = s.main ∨
      ((around s procs f).main = .absent ∧ s.main = .idle ∧ s.destroyed = true) := by
  cases gone : s.destroyed with
  | false => exact Or.inl (by simp [around, gone])
  | true => exact Or.inr ⟨by simp [around, gone], h.idle gone, rfl⟩

theorem around_starting (h : Steady s) : (around s procs f).starting t = s.starting t := by
  cases t with
  | watchdog => rfl
  | main =>
    rcases around_main h procs f with same | ⟨away, idle, -⟩
    · cases main : s.main <;> rw [main] at same <;>
        simp only [World.starting, Svc.starting, same, main]
    · simp only [World.starting, Svc.starting, away, idle]

theorem around_lockFree (h : Steady s) : (around s procs f).lockFree = s.lockFree := by
  have watchdog : (around s procs f).watchdog = s.watchdog := rfl
  unfold World.lockFree World.killing Svc.lockFree
  dsimp only
  rcases around_main h procs f with same | ⟨away, idle, -⟩
  · rw [same, watchdog]
    rcases s.main with _ | _ | _ | ((_ | _) | _ | _) | (_ | _) <;>
      rcases s.watchdog with _ | _ | _ | _ | ((_ | _) | _ | _) <;> rfl
  · rw [away, watchdog, idle]
    rcases s.watchdog with _ | _ | _ | _ | ((_ | _) | _ | _) <;> rfl

/-- A callback goes on only while the instance is not destroyed. -/
theorem Steady.stays (h : Steady s) (busy : s.main ≠ .idle) : s.destroyed = false :=
  Bool.eq_false_iff.mpr fun gone => busy (h.idle gone)

theorem main_of_starting (here : s.starting .main = some pc) : s.main = .onStartCommand pc := by
  cases main : s.main <;> simp [Svc.starting, main] at here
  rw [here]

/-- While a thread is inside `startSshd`, the instance has been created. -/
theorem Steady.made (h : Steady s) (here : s.starting t = some pc) : s.main ≠ .absent := by
  intro absent
  rw [h.fresh absent] at here
  cases t <;> cases here

/-- What leaves the main thread alone keeps an instance steady that has been created. -/
theorem Steady.after {s' : Svc} (h : Steady s) (made : s.main ≠ .absent) (main : s'.main = s.main)
    (destroyed : s'.destroyed = s.destroyed) : Steady s' where
  fresh absent := absurd (main.symm.trans absent) made
  idle gone := main.trans (h.idle (destroyed.symm.trans gone))

theorem Steady.started (h : Steady s) (here : s.starting t = some pc) (pid : Int) :
    Steady { s with sshdPid := pid } :=
  h.after (h.made here) rfl rfl

theorem Steady.goto (h : Steady s) (here : s.starting t = some pc) (pc' : StartPc) :
    Steady (s.goto t pc') := by
  cases t with
  | main =>
    have stays := h.stays (by simp [main_of_starting here])
    exact ⟨by simp [Svc.goto], by simp [Svc.goto, stays]⟩
  | watchdog => exact h.after (h.made here) rfl rfl

theorem Steady.leave (h : Steady s) (here : s.starting t = some pc) : Steady (s.leave t) := by
  cases t with
  | main => exact ⟨by simp [Svc.leave], by simp [Svc.leave]⟩
  | watchdog => exact h.after (h.made here) rfl rfl

theorem around_goto (h : Steady s) (here : s.starting t = some pc) (pc' : StartPc) :
    (around s procs f).goto pc' t = around (s.goto t pc') procs f := by
  cases t with
  | main =>
    have main := main_of_starting here
    have stays := h.stays (by simp [main])
    simp [World.goto, Svc.goto, around, main, stays]
  | watchdog => rfl

theorem around_leave (h : Steady s) (here : s.starting t = some pc) :
    (around s procs f).leave t = around (s.leave t) procs f := by
  cases t with
  | main =>
    have main := main_of_starting here
    have stays := h.stays (by simp [main])
    simp [World.leave, Svc.leave, around, main, stays]
  | watchdog => rfl

theorem around_setPid (made : s.main ≠ .absent) (pid : Int) :
    (around s procs f).setPid 0 pid = around { s with sshdPid := pid } procs f := by
  simp [World.setPid, World.setInstance, around, made]

theorem around_instOf : (around s procs f).instOf t = 0 := by
  cases t with
  | main =>
    unfold World.instOf World.current around
    dsimp only
    split <;> rfl
  | watchdog => rfl

theorem around_shouldRestart (made : s.main ≠ .absent) (millis : Int) :
    (((around s procs f).instances[0]?).map fun i => i.svc.shouldRestart millis).getD false =
      s.shouldRestart millis := by
  rw [around, if_neg made]
  rfl

theorem around_sshdPid (made : s.main ≠ .absent) : (around s procs f).sshdPid 0 = s.sshdPid := by
  simp [World.sshdPid, around, made]

end

/-! ## One step -/

/-- A step that the instance does not see, or a step of the instance. -/
def Matched (w u : World) (s : Svc) (a : World.Action) : Prop :=
  (seen w a = none ∧ Sees u s) ∨ ∃ b t, seen w a = some b ∧ step s b = some t ∧ Sees u t

section
variable {s : Svc} {procs : List Proc} {f : Option Bytes} {u : World} {a : World.Action}
  {th : Thread} {pid : Int}

theorem fork_matched (h : Steady s) (same : unreaped procs = s.unreaped)
    (hs : (around s procs f).step (.fork th pid) = some u) :
    Matched (around s procs f) u s (.fork th pid) := by
  simp only [World.step, around_starting h] at hs
  split at hs
  · rename_i here
    split at hs
    · rename_i failed
      obtain rfl := Option.some.inj hs
      refine Or.inr ⟨_, s.goto th (.record pid), rfl, ?_, h.goto here _, procs, f,
        around_goto h here _, ?_⟩
      · simp [step, here, failed]
      · rw [same]
        cases th <;> rfl
    · split at hs
      · rename_i real free
        obtain rfl := Option.some.inj hs
        have there : (s.spawn pid).starting th = some .fork := here
        have steady : Steady (s.spawn pid) := h.after (h.made here) rfl rfl
        refine Or.inr ⟨_, (s.spawn pid).goto th (.record pid), rfl, ?_, steady.goto there _,
          procs ++ [{ pid := pid, dropbear := true, child := true }], f, ?_, ?_⟩
        · simp [step, here, real, pidFree_seen same free]
        · exact around_goto steady there _
        · have spawned :
              ((s.spawn pid).goto th (.record pid)).unreaped = (s.spawn pid).unreaped := by
            cases th <;> rfl
          rw [spawned, unreaped_addProc, Svc.unreaped_spawn, same]
          rfl
      · cases hs
  · cases hs

theorem record_matched (h : Steady s) (same : unreaped procs = s.unreaped)
    (hs : (around s procs f).step (.record th) = some u) :
    Matched (around s procs f) u s (.record th) := by
  simp only [World.step, around_starting h, around_lockFree h, around_instOf] at hs
  split at hs
  · rename_i q here
    split at hs
    · rename_i free
      have made := h.made here
      rw [around_setPid made, around_setPid made] at hs
      split at hs
      · rename_i failed
        obtain rfl := Option.some.inj hs
        have steady := h.started here 0
        refine Or.inr ⟨_, { s with sshdPid := 0 }.leave th, rfl, ?_, steady.leave here,
          procs, f, around_leave steady here, ?_⟩
        · simp [step, here, free, failed]
        · rw [same]
          cases th <;> rfl
      · rename_i real
        obtain rfl := Option.some.inj hs
        have steady : Steady { s with sshdPid := q, tasks := s.tasks ++ [q] } :=
          h.after made rfl rfl
        refine Or.inr ⟨_, { s with sshdPid := q, tasks := s.tasks ++ [q] }.leave th, rfl, ?_,
          steady.leave here, procs, f, ?_, ?_⟩
        · simp [step, here, free, real]
        · rw [← around_leave steady here]
          simp [around]
        · rw [same]
          cases th <;> rfl
    · cases hs
  · cases hs

theorem onCreate_matched (h : Steady s) (same : unreaped procs = s.unreaped)
    (sole : Sole (around s procs f) .onCreate)
    (hs : (around s procs f).step .onCreate = some u) :
    Matched (around s procs f) u s .onCreate := by
  obtain ⟨none, read⟩ := sole
  have absent : s.main = .absent := by
    by_contra made
    simp [around, made] at none
  obtain rfl := h.fresh absent
  have file : readPidFile (around {} procs f).pidFile = readPidFile f := rfl
  rw [file] at read
  cases pid : readPidFile f with
  | error e =>
    rw [pid] at read
    cases read
  | ok pid' =>
    have see : seen (around {} procs f) .onCreate = some (.onCreate pid') := by
      simp [seen, file, pid, Except.toOption]
    have free : (around {} procs f).main = .absent ∧ (around {} procs f).lockFree = true :=
      ⟨rfl, rfl⟩
    simp only [World.step, file, pid] at hs
    rw [if_pos free] at hs
    by_cases stale : 0 < pid'
    · rw [if_pos stale] at hs
      obtain rfl := Option.some.inj hs
      refine Or.inr ⟨_, { main := .onCreate pid' }, see, ?_, ⟨by simp, by simp⟩, procs, f, rfl,
        same⟩
      simp [step, stale]
    · rw [if_neg stale] at hs
      obtain rfl := Option.some.inj hs
      refine Or.inr ⟨_, { sshdPid := pid', main := .idle }, see, ?_, ⟨by simp, by simp⟩, procs, f,
        rfl, same⟩
      simp [step, stale]

theorem stopSshd_matched (h : Steady s) (same : unreaped procs = s.unreaped)
    (hs : (around s procs f).step (.stopSshd th) = some u) :
    Matched (around s procs f) u s (.stopSshd th) := by
  simp only [World.step, around_lockFree h, around_instOf] at hs
  split at hs
  · rename_i ready
    obtain ⟨free, stops⟩ := ready
    obtain rfl := Option.some.inj hs
    cases th with
    | main =>
      have at' : s.main = .onStartCommand (.stop .block) ∨ s.main = .onDestroy .block := by
        rcases around_main h procs f with eq | ⟨away, -, -⟩
        · simpa [World.atStop, eq] using stops
        · simp [World.atStop, away] at stops
      have made : s.main ≠ .absent := by rcases at' with main | main <;> simp [main]
      have stays := h.stays (by rcases at' with main | main <;> simp [main])
      rw [around_sshdPid made, around_setPid made]
      rcases at' with main | main
      · by_cases running : 0 < s.sshdPid
        · refine Or.inr ⟨_, { s with sshdPid := 0 }.goto .main (.stop (.kill s.sshdPid)), rfl, ?_,
            ⟨by simp [Svc.goto], by simp [Svc.goto, stays]⟩, procs, f, ?_, same⟩
          · simp [step, free, Svc.starting, main, running]
          · simp [running, World.toKill, Svc.goto, around, main, stays]
        · refine Or.inr ⟨_, { s with sshdPid := 0 }.goto .main .fork, rfl, ?_,
            ⟨by simp [Svc.goto], by simp [Svc.goto, stays]⟩, procs, f, ?_, same⟩
          · simp [step, free, Svc.starting, main, running]
          · simp [running, World.pastStop, Svc.goto, around, main, stays]
      · by_cases running : 0 < s.sshdPid
        · refine Or.inr ⟨_, { s with sshdPid := 0, main := .onDestroy (.kill s.sshdPid) }, rfl, ?_,
            ⟨by simp, by simp [stays]⟩, procs, f, ?_, same⟩
          · simp [step, free, Svc.starting, main, running]
          · simp [running, World.toKill, around, main, stays]
        · refine Or.inr ⟨_, { s with sshdPid := 0, main := .idle, destroyed := true }, rfl, ?_,
            ⟨by simp, by simp⟩, procs, f, ?_, same⟩
          · simp [step, free, Svc.starting, main, running]
          · simp [running, World.pastStop, around, main, stays]
    | watchdog =>
      have watchdog : s.watchdog = .restart (.stop .block) := by
        simpa [World.atStop, around] using stops
      have here : s.starting .watchdog = some (.stop .block) := by simp [Svc.starting, watchdog]
      have made := h.made here
      have steady := h.started here 0
      have there : { s with sshdPid := 0 }.starting .watchdog = some (.stop .block) := here
      rw [around_sshdPid made, around_setPid made]
      by_cases running : 0 < s.sshdPid
      · refine Or.inr ⟨_, { s with sshdPid := 0 }.goto .watchdog (.stop (.kill s.sshdPid)), rfl, ?_,
          steady.goto there _, procs, f, ?_, same⟩
        · simp [step, free, here, running]
        · rw [if_pos running]
          rfl
      · refine Or.inr ⟨_, { s with sshdPid := 0 }.goto .watchdog .fork, rfl, ?_,
          steady.goto there _, procs, f, ?_, same⟩
        · simp [step, free, here, running]
        · rw [if_neg running]
          rfl
  · cases hs

theorem kill_matched (h : Steady s) (same : unreaped procs = s.unreaped)
    (hs : (around s procs f).step (.kill th) = some u) :
    Matched (around s procs f) u s (.kill th) := by
  simp only [World.step] at hs
  split at hs
  · rename_i kills
    obtain rfl := Option.some.inj hs
    have signalled (q : Int) :
        unreaped procs = (s.signal q fun c => { c with killed := true }).unreaped :=
      same.trans Svc.unreaped_kill.symm
    cases th with
    | main =>
      have at' : (∃ q, s.main = .onCreate q) ∨ (∃ q, s.main = .onStartCommand (.stop (.kill q))) ∨
          ∃ q, s.main = .onDestroy (.kill q) := by
        rcases around_main h procs f with eq | ⟨away, -, -⟩
        · unfold World.killing at kills
          dsimp only at kills
          rw [eq] at kills
          split at kills <;> simp_all
        · simp [World.killing, away] at kills
      have stays := h.stays (by rcases at' with ⟨q, main⟩ | ⟨q, main⟩ | ⟨q, main⟩ <;> simp [main])
      rcases at' with ⟨q, main⟩ | ⟨q, main⟩ | ⟨q, main⟩
      · refine Or.inr ⟨_, { s.signal q (fun c => { c with killed := true }) with main := .idle },
          rfl, ?_, ⟨by simp, by simp⟩, procs, f, ?_, signalled q⟩
        · simp [step, Svc.starting, main]
        · simp [World.pastStop, around, main, stays, Svc.signal]
      · refine Or.inr ⟨_, (s.signal q fun c => { c with killed := true }).goto .main .fork, rfl,
          ?_, ⟨by simp [Svc.goto], by simp [Svc.goto, Svc.signal, stays]⟩, procs, f, ?_,
          signalled q⟩
        · simp [step, Svc.starting, main]
        · simp [World.pastStop, around, main, stays, Svc.signal, Svc.goto]
      · refine Or.inr ⟨_, { s.signal q (fun c => { c with killed := true }) with
            main := .idle, destroyed := true }, rfl, ?_, ⟨by simp, by simp⟩, procs, f, ?_,
            signalled q⟩
        · simp [step, Svc.starting, main]
        · simp [World.pastStop, around, main, stays, Svc.signal]
    | watchdog =>
      obtain ⟨q, watchdog⟩ : ∃ q, s.watchdog = .restart (.stop (.kill q)) := by
        unfold World.killing at kills
        dsimp only [around] at kills
        split at kills <;> simp_all
      have here : s.starting .watchdog = some (.stop (.kill q)) := by simp [Svc.starting, watchdog]
      have made := h.made here
      refine Or.inr ⟨_, (s.signal q fun c => { c with killed := true }).goto .watchdog .fork, rfl,
        ?_, h.after made rfl rfl, procs, f, rfl, signalled q⟩
      simp [step, here]
  · cases hs

theorem around_idle (idle : (around s procs f).main = .idle) :
    s.main = .idle ∧ s.destroyed = false := by
  cases gone : s.destroyed <;> simp_all [around]

theorem onStartCommand_matched (same : unreaped procs = s.unreaped)
    (hs : (around s procs f).step .onStartCommand = some u) :
    Matched (around s procs f) u s .onStartCommand := by
  simp only [World.step, Option.ite_none_right_eq_some, Option.some.injEq] at hs
  obtain ⟨idle, rfl⟩ := hs
  obtain ⟨main, stays⟩ := around_idle idle
  refine Or.inr ⟨_, { s with main := .onStartCommand (.stop .block), destroyed := false }, rfl, ?_,
    ⟨by simp, by simp⟩, procs, f, ?_, same⟩
  · simp [step, main]
  · simp [around, main]

theorem onDestroy_matched (same : unreaped procs = s.unreaped)
    (hs : (around s procs f).step .onDestroy = some u) :
    Matched (around s procs f) u s .onDestroy := by
  simp only [World.step, Option.ite_none_right_eq_some, Option.some.injEq] at hs
  obtain ⟨idle, rfl⟩ := hs
  obtain ⟨main, stays⟩ := around_idle idle
  refine Or.inr ⟨_, { s with main := .onDestroy .block }, rfl, ?_, ⟨by simp, by simp [stays]⟩,
    procs, f, ?_, same⟩
  · simp [step, main]
  · simp [around, main, stays]

/-- The watchdog has work only after the instance was created. -/
theorem Steady.busy (h : Steady s) (busy : s.watchdog ≠ .idle) : s.main ≠ .absent := by
  intro absent
  rw [h.fresh absent] at busy
  exact busy rfl

theorem take_matched (h : Steady s) (same : unreaped procs = s.unreaped)
    (hs : (around s procs f).step .take = some u) : Matched (around s procs f) u s .take := by
  cases tasks : s.tasks with
  | nil => simp [World.step, around, tasks] at hs
  | cons pid rest =>
    have made : s.main ≠ .absent := by
      intro absent
      rw [h.fresh absent] at tasks
      cases tasks
    cases watchdog : s.watchdog with
    | begin _ | wait _ | decide _ | restart _ => simp [World.step, around, watchdog] at hs
    | idle =>
      simp only [World.step, around, watchdog, tasks, List.map_cons, Option.some.injEq] at hs
      subst hs
      refine Or.inr ⟨_, { s with watchdog := .begin pid, tasks := rest }, rfl, ?_,
        h.after made rfl rfl, procs, f, rfl, same⟩
      simp [step, watchdog, tasks]

theorem begin_matched (h : Steady s) (same : unreaped procs = s.unreaped) {now : Int}
    (hs : (around s procs f).step (.begin now) = some u) :
    Matched (around s procs f) u s (.begin now) := by
  cases watchdog : s.watchdog with
  | idle | wait _ | decide _ | restart _ => simp [World.step, around, watchdog] at hs
  | begin pid =>
    have made := h.busy (by simp [watchdog])
    have there : (around s procs f).watchdog = .begin pid := watchdog
    simp only [World.step, there, around_lockFree h, Option.ite_none_right_eq_some,
      Option.some.injEq] at hs
    obtain ⟨free, rfl⟩ := hs
    refine Or.inr ⟨_, { s.noteStart now with watchdog := .wait pid }, rfl, ?_,
      h.after made rfl rfl, procs, f, ?_, same⟩
    · simp [step, watchdog, free]
    · have noted : { s.noteStart now with watchdog := .wait pid }.main ≠ .absent := made
      rw [World.setInstance, around, around, if_neg made, if_neg noted]
      rfl

theorem waitpid_matched (h : Steady s) (same : unreaped procs = s.unreaped)
    (hs : (around s procs f).step .waitpid = some u) :
    Matched (around s procs f) u s .waitpid := by
  cases watchdog : s.watchdog with
  | idle | begin _ | decide _ | restart _ => simp [World.step, around, watchdog] at hs
  | wait pid =>
    have made := h.busy (by simp [watchdog])
    have there : (around s procs f).watchdog = .wait pid := watchdog
    simp only [World.step, there, Option.ite_none_right_eq_some, Option.some.injEq] at hs
    obtain ⟨returns, rfl⟩ := hs
    refine Or.inr ⟨_, { s.signal pid (fun c => { c with reaped := true }) with
      watchdog := .decide pid }, rfl, ?_, h.after made rfl rfl, _, f, rfl, ?_⟩
    · rw [World.waitpidReturns, around, waitpidReturns_seen same] at returns
      simp [step, watchdog, returns]
    · exact unreaped_waitpid.trans (same ▸ Svc.unreaped_waitpid.symm)

theorem decide_matched (h : Steady s) (same : unreaped procs = s.unreaped) {millis : Int}
    (hs : (around s procs f).step (.decide millis) = some u) :
    Matched (around s procs f) u s (.decide millis) := by
  cases watchdog : s.watchdog with
  | idle | begin _ | wait _ | restart _ => simp [World.step, around, watchdog] at hs
  | decide pid =>
    have made := h.busy (by simp [watchdog])
    have there : (around s procs f).watchdog = .decide pid := watchdog
    have task : (around s procs f).task = 0 := rfl
    simp only [World.step, there, around_lockFree h, Option.ite_none_right_eq_some, task,
      around_sshdPid made, around_setPid made, around_shouldRestart made] at hs
    obtain ⟨free, hs⟩ := hs
    split at hs
    · rename_i own
      obtain rfl := Option.some.inj hs
      cases restart : s.shouldRestart millis with
      | true =>
        rw [if_pos rfl]
        refine Or.inr ⟨_, { s with sshdPid := 0, watchdog := .restart (.stop .block) }, rfl, ?_,
          h.after made rfl rfl, procs, f, rfl, same⟩
        simp [step, watchdog, free, own, restart]
      | false =>
        rw [if_neg Bool.false_ne_true]
        refine Or.inr ⟨_, { s with sshdPid := 0, watchdog := .idle }, rfl, ?_,
          h.after made rfl rfl, procs, f, rfl, same⟩
        simp [step, watchdog, free, own, restart]
    · rename_i other
      obtain rfl := Option.some.inj hs
      refine Or.inr ⟨_, { s with watchdog := .idle }, rfl, ?_,
        h.after made rfl rfl, procs, f, rfl, same⟩
      simp [step, watchdog, free, other]

/-- What happens in the surroundings is a step of the instance, or is not seen by it. -/
theorem sees_step {w : World} (h : Sees w s) (sole : Sole w a) (hs : w.step a = some u) :
    Matched w u s a := by
  obtain ⟨h, procs, f, rfl, same⟩ := h
  cases a with
  | onCreate => exact onCreate_matched h same sole hs
  | onStartCommand => exact onStartCommand_matched same hs
  | onDestroy => exact onDestroy_matched same hs
  | stopSshd th => exact stopSshd_matched h same hs
  | kill th => exact kill_matched h same hs
  | fork th pid => exact fork_matched h same hs
  | record th => exact record_matched h same hs
  | take => exact take_matched h same hs
  | begin now => exact begin_matched h same hs
  | waitpid => exact waitpid_matched h same hs
  | decide millis => exact decide_matched h same hs
  | die pid =>
    obtain rfl := Option.some.inj hs
    refine Or.inr ⟨_, s.signal pid fun c => { c with alive := false }, rfl, rfl,
      ⟨fun absent => ?_, h.idle⟩, _, f, rfl, ?_⟩
    · rw [h.fresh absent]
      rfl
    · exact unreaped_die.trans (same ▸ Svc.unreaped_die.symm)
  | reap pid =>
    obtain rfl := Option.some.inj hs
    exact Or.inl ⟨rfl, h, _, f, rfl, unreaped_reap.trans same⟩
  | spawn pid =>
    simp only [World.step, Option.ite_none_right_eq_some, Option.some.injEq] at hs
    obtain ⟨-, rfl⟩ := hs
    refine Or.inl ⟨rfl, h, _, f, rfl, ?_⟩
    rw [around, unreaped_addProc, same]
    exact List.append_nil _
  | openPidFile pid =>
    simp only [World.step, Option.ite_none_right_eq_some, Option.some.injEq] at hs
    obtain ⟨-, rfl⟩ := hs
    exact Or.inl ⟨rfl, h, _, some [], rfl, (unreaped_stage .opened).trans same⟩
  | writePidFile pid =>
    simp only [World.step, Option.ite_none_right_eq_some, Option.some.injEq] at hs
    obtain ⟨-, rfl⟩ := hs
    exact Or.inl ⟨rfl, h, _, _, rfl, (unreaped_stage .serving).trans same⟩
  | unlinkPidFile pid =>
    simp only [World.step, Option.ite_none_right_eq_some, Option.some.injEq] at hs
    obtain ⟨-, rfl⟩ := hs
    exact Or.inl ⟨rfl, h, procs, none, rfl, same⟩
  | appDeath | reboot => exact absurd sole id

end

/-- A run of the surroundings is a run of the one instance, from a new app process with whatever
processes and whatever pid file it finds. -/
theorem sole_instance {procs : List Proc} {pidFile : Option Bytes} {as : List World.Action}
    {w : World} (orphans : unreaped procs = [])
    (run : Run World.step Sole { procs := procs, pidFile := pidFile } as w) :
    ∃ bs s, Reached step init bs s ∧ Sees w s := by
  have start : Sees { procs := procs, pidFile := pidFile } init :=
    ⟨⟨fun _ => rfl, by simp [init]⟩, procs, pidFile, rfl, orphans⟩
  refine run.simulates start fun w a u s seen sole hs => ?_
  rcases sees_step seen sole hs with ⟨-, same⟩ | ⟨b, t, -, step, same⟩
  · exact Or.inl same
  · exact Or.inr ⟨b, t, step, same⟩

end Ikofi.Service
