import Ikofi.Service.World

/-!
# The children and their watchdog tasks

In every run, each child that is not reaped yet is waited for by one task, and a
pid that is recorded in an instance is waited for by a task of that instance, or
has been until just now: the task is between `waitpid` and the block behind it.
-/

namespace Ikofi.Service

open World

/-- The processes with this pid, of which there is one, have the property. -/
def Denotes (procs : List Proc) (pid : Int) (P : Proc → Prop) : Prop :=
  (∃ c ∈ procs, c.pid = pid) ∧ ∀ c ∈ procs, c.pid = pid → P c

instance (procs : List Proc) (pid : Int) (P : Proc → Prop) [DecidablePred P] :
    Decidable (Denotes procs pid P) := inferInstanceAs (Decidable (_ ∧ _))

namespace World

/-- A server that has not been reaped, of this app process or an earlier one. -/
def Ours (w : World) (pid : Int) : Prop := Denotes w.procs pid fun c => c.dropbear = true

/-- A server that the app process has forked and not reaped. -/
def Owned (w : World) (pid : Int) : Prop :=
  Denotes w.procs pid fun c => c.dropbear = true ∧ c.child = true

instance (w : World) (pid : Int) : Decidable (w.Ours pid) :=
  inferInstanceAs (Decidable (Denotes ..))

end World

/-- The pids that the thread has still to record, or to wait for. -/
def Main.pids : Main → List Int
  | .onStartCommand (.record pid) => if pid = -1 then [] else [pid]
  | _ => []

def Watchdog.pids : Watchdog → List Int
  | .begin pid | .wait pid => [pid]
  | .restart (.record pid) => if pid = -1 then [] else [pid]
  | _ => []

/-- The child of the task that runs, up to the block behind `waitpid`. -/
def Watchdog.awaits : Watchdog → Option Int
  | .begin pid | .wait pid | .decide pid => some pid
  | _ => none

namespace World

def pids (w : World) : List Int := w.tasks.map Prod.snd ++ w.watchdog.pids ++ w.main.pids

/-- A task of the instance waits for the child, or has just seen it exit. -/
def Awaited (w : World) (k : Nat) (pid : Int) : Prop :=
  (k, pid) ∈ w.tasks ∨ (w.task = k ∧ w.watchdog.awaits = some pid)

/-- Every child is waited for once, and every recorded pid by a task of its instance. -/
structure Tracked (w : World) : Prop where
  owned : ∀ pid ∈ w.pids, w.Owned pid
  distinct : w.pids.Nodup
  recorded : ∀ k, 0 < w.sshdPid k → w.Awaited k (w.sshdPid k)
  procs : ∀ c ∈ w.procs, 0 < c.pid
  awaited : ∀ pid, w.watchdog.awaits = some pid → 0 < pid

/-- The two worlds have the same processes and the same children to wait for. -/
structure SameWaits (w u : World) : Prop where
  procs : u.procs = w.procs
  tasks : u.tasks = w.tasks
  task : u.task = w.task
  awaits : u.watchdog.awaits = w.watchdog.awaits
  watchdog : u.watchdog.pids = w.watchdog.pids
  main : u.main.pids = w.main.pids

end World

section
variable {procs : List Proc} {pid : Int} {P : Proc → Prop}

theorem Denotes.filter {keep : Proc → Bool} (h : Denotes procs pid P)
    (kept : ∀ c ∈ procs, c.pid = pid → keep c = true) : Denotes (procs.filter keep) pid P := by
  obtain ⟨⟨c, hc, here⟩, all⟩ := h
  refine ⟨⟨c, List.mem_filter.mpr ⟨hc, kept c hc here⟩, here⟩, ?_⟩
  intro d hd
  exact all d (List.mem_filter.mp hd).1

/-- The processes with one pid change. -/
theorem Denotes.update {f : Proc → Proc} (h : Denotes procs pid P) (q : Int)
    (same : ∀ c, (f c).pid = c.pid) (kept : ∀ c, P c → P (f c)) :
    Denotes (procs.map fun c => if c.pid = q then f c else c) pid P := by
  have pids : ∀ c : Proc, (if c.pid = q then f c else c).pid = c.pid := by
    intro c
    split
    · exact same c
    · rfl
  obtain ⟨⟨c, hc, here⟩, all⟩ := h
  refine ⟨⟨_, List.mem_map_of_mem hc, (pids c).trans here⟩, ?_⟩
  intro d hd there
  obtain ⟨c, hc, rfl⟩ := List.mem_map.mp hd
  have holds := all c hc ((pids c).symm.trans there)
  split
  · exact kept c holds
  · exact holds

/-- A new process takes a pid that no other one has. -/
theorem Denotes.append {c : Proc} (h : Denotes procs pid P) (free : ∀ d ∈ procs, d.pid ≠ c.pid) :
    Denotes (procs ++ [c]) pid P := by
  obtain ⟨⟨d, hd, here⟩, all⟩ := h
  refine ⟨⟨d, List.mem_append_left _ hd, here⟩, ?_⟩
  intro e he there
  rcases List.mem_append.mp he with he | he
  · exact all e he there
  · obtain rfl := List.mem_singleton.mp he
    exact absurd (here.trans there.symm) (free d hd)

theorem Denotes.new {c : Proc} (free : ∀ d ∈ procs, d.pid ≠ c.pid) (holds : P c) :
    Denotes (procs ++ [c]) c.pid P := by
  refine ⟨⟨c, by simp, rfl⟩, ?_⟩
  intro e he there
  rcases List.mem_append.mp he with he | he
  · exact absurd there (free e he)
  · obtain rfl := List.mem_singleton.mp he
    exact holds

end

section
variable {w u : World} {t : Thread} {pid : Int}

theorem World.Owned.ours (h : w.Owned pid) : w.Ours pid := ⟨h.1, fun c hc here => (h.2 c hc here).1⟩

theorem pidFree_iff : w.pidFree pid = true ↔ 0 < pid ∧ ∀ c ∈ w.procs, c.pid ≠ pid := by
  simp [World.pidFree]

theorem World.Tracked.positive (h : w.Tracked) (mem : pid ∈ w.pids) : 0 < pid := by
  obtain ⟨⟨c, hc, rfl⟩, -⟩ := h.owned pid mem
  exact h.procs c hc

theorem sshdPid_setInstance (k j : Nat) (f : Instance → Instance) :
    (w.setInstance k f).sshdPid j =
      ((w.instances[j]?).map fun i => (if k = j then f i else i).sshdPid).getD 0 := by
  simp only [World.sshdPid, World.setInstance, List.getElem?_modify]
  cases w.instances[j]? with
  | none => rfl
  | some i => by_cases same : k = j <;> simp [same]

theorem sshdPid_setPid_zero (k j : Nat) :
    (w.setPid k 0).sshdPid j = if k = j then 0 else w.sshdPid j := by
  rw [World.setPid, sshdPid_setInstance, World.sshdPid]
  by_cases same : k = j
  · cases w.instances[j]? <;> simp [same]
  · simp [same]

theorem sshdPid_setPid (pid : Int) (k j : Nat) :
    (w.setPid k pid).sshdPid j = w.sshdPid j ∨ (k = j ∧ (w.setPid k pid).sshdPid j = pid) := by
  rw [World.setPid, sshdPid_setInstance, World.sshdPid]
  by_cases same : k = j
  · cases w.instances[j]? <;> simp [same]
  · simp [same]

theorem sshdPid_noteStart (k j : Nat) (now : Int) :
    (w.setInstance k (·.noteStart now)).sshdPid j = w.sshdPid j := by
  rw [sshdPid_setInstance, World.sshdPid]
  congr 2
  funext i
  split <;> rfl

end

section
variable {w u : World} {t : Thread} {pid : Int}

theorem atStop_main (h : w.atStop .main = true) :
    w.main = .onStartCommand (.stop .block) ∨ w.main = .onDestroy .block := by
  simpa [World.atStop] using h

theorem atStop_watchdog (h : w.atStop .watchdog = true) : w.watchdog = .restart (.stop .block) := by
  simpa [World.atStop] using h

theorem killing_main (h : w.killing .main = some pid) :
    w.main = .onCreate pid ∨ w.main = .onStartCommand (.stop (.kill pid)) ∨
      w.main = .onDestroy (.kill pid) := by
  unfold World.killing at h
  dsimp only at h
  split at h <;> simp_all

theorem killing_watchdog (h : w.killing .watchdog = some pid) :
    w.watchdog = .restart (.stop (.kill pid)) := by
  unfold World.killing at h
  dsimp only at h
  split at h <;> simp_all

theorem starting_main {pc : StartPc} (h : w.starting .main = some pc) :
    w.main = .onStartCommand pc := by
  unfold World.starting at h
  dsimp only at h
  split at h <;> simp_all

theorem starting_watchdog {pc : StartPc} (h : w.starting .watchdog = some pc) :
    w.watchdog = .restart pc := by
  unfold World.starting at h
  dsimp only at h
  split at h <;> simp_all

theorem sameWaits_toKill (h : w.atStop t = true) : SameWaits w (w.toKill pid t) := by
  cases t with
  | main =>
    rcases atStop_main h with hm | hm <;>
      exact ⟨rfl, rfl, rfl, rfl, rfl, by simp [toKill, hm, Main.pids]⟩
  | watchdog =>
    have hw := atStop_watchdog h
    exact ⟨rfl, rfl, rfl, by simp [toKill, hw, Watchdog.awaits],
      by simp [toKill, hw, Watchdog.pids], rfl⟩

theorem sameWaits_pastStop (h : w.atStop t = true ∨ ∃ pid, w.killing t = some pid) :
    SameWaits w (w.pastStop t) := by
  cases t with
  | main =>
    have free : w.main.pids = [] ∧ (w.pastStop .main).main.pids = [] := by
      rcases h with h | ⟨pid, h⟩
      · rcases atStop_main h with hm | hm <;> simp [pastStop, hm, Main.pids]
      · rcases killing_main h with hm | hm | hm <;> simp [pastStop, hm, Main.pids]
    exact ⟨rfl, rfl, rfl, rfl, rfl, free.2.trans free.1.symm⟩
  | watchdog =>
    have free : w.watchdog.awaits = none ∧ w.watchdog.pids = [] := by
      rcases h with h | ⟨pid, h⟩
      · simp [atStop_watchdog h, Watchdog.awaits, Watchdog.pids]
      · simp [killing_watchdog h, Watchdog.awaits, Watchdog.pids]
    exact ⟨rfl, rfl, rfl, free.1.symm, free.2.symm, rfl⟩

/-- `fork` has failed. -/
theorem sameWaits_forkFail (h : w.starting t = some .fork) :
    SameWaits w (w.goto (.record (-1)) t) := by
  cases t with
  | main => exact ⟨rfl, rfl, rfl, rfl, rfl, by simp [goto, starting_main h, Main.pids]⟩
  | watchdog =>
    have hw := starting_watchdog h
    exact ⟨rfl, rfl, rfl, by simp [goto, hw, Watchdog.awaits],
      by simp [goto, hw, Watchdog.pids], rfl⟩

theorem sameWaits_recordFail (h : w.starting t = some (.record (-1))) :
    SameWaits w (w.leave t) := by
  cases t with
  | main => exact ⟨rfl, rfl, rfl, rfl, rfl, by simp [leave, starting_main h, Main.pids]⟩
  | watchdog =>
    have hw := starting_watchdog h
    exact ⟨rfl, rfl, rfl, by simp [leave, hw, Watchdog.awaits],
      by simp [leave, hw, Watchdog.pids], rfl⟩

theorem World.SameWaits.pids (h : SameWaits w u) : u.pids = w.pids := by
  rw [World.pids, World.pids, h.tasks, h.watchdog, h.main]

/-- The children to wait for pass from one place to another. -/
theorem World.Tracked.rewait (h : w.Tracked) (procs : u.procs = w.procs)
    (pids : u.pids.Perm w.pids)
    (recorded : ∀ k, 0 < u.sshdPid k → u.Awaited k (u.sshdPid k))
    (awaited : ∀ pid, u.watchdog.awaits = some pid → 0 < pid) : u.Tracked := by
  refine ⟨?_, pids.nodup_iff.mpr h.distinct, recorded, procs ▸ h.procs, awaited⟩
  intro pid mem
  rw [World.Owned, procs]
  exact h.owned pid (pids.mem_iff.mp mem)

theorem World.Tracked.frame (h : w.Tracked) (same : SameWaits w u)
    (recorded : ∀ k, 0 < u.sshdPid k → u.sshdPid k = w.sshdPid k) : u.Tracked := by
  refine h.rewait same.procs (same.pids ▸ .refl _) ?_ (same.awaits ▸ h.awaited)
  intro k some
  have old := recorded k some
  rw [old] at some ⊢
  rw [World.Awaited, same.tasks, same.task, same.awaits]
  exact h.recorded k some

/-- Only processes that nobody waits for come and go. -/
theorem World.Tracked.procsOnly (h : w.Tracked) (tasks : u.tasks = w.tasks) (task : u.task = w.task)
    (watchdog : u.watchdog = w.watchdog) (main : u.main = w.main)
    (instances : u.instances = w.instances) (owned : ∀ pid, w.Owned pid → u.Owned pid)
    (positive : ∀ c ∈ u.procs, 0 < c.pid) : u.Tracked := by
  have pids : u.pids = w.pids := by rw [World.pids, World.pids, tasks, watchdog, main]
  refine ⟨?_, pids ▸ h.distinct, ?_, positive, watchdog ▸ h.awaited⟩
  · intro pid mem
    exact owned pid (h.owned pid (pids ▸ mem))
  · intro k
    rw [World.Awaited, tasks, task, watchdog, World.sshdPid, instances]
    exact h.recorded k

end

section
variable {w u : World} {t : Thread} {pid : Int}

theorem World.Tracked.setZero (h : w.Tracked) (k : Nat) : (w.setPid k 0).Tracked := by
  refine h.frame ⟨rfl, rfl, rfl, rfl, rfl, rfl⟩ ?_
  intro j some
  rw [sshdPid_setPid_zero] at some ⊢
  split at some
  · cases some
  · rename_i other
    rw [if_neg other]

/-- A new instance has nothing to wait for. -/
theorem World.Tracked.create {i : Instance} {m : Main} (h : w.Tracked) (none : ¬ 0 < i.sshdPid)
    (hm : w.main.pids = []) (hm' : m.pids = []) :
    World.Tracked { w with instances := w.instances ++ [i], main := m } := by
  refine h.frame ⟨rfl, rfl, rfl, rfl, rfl, hm'.trans hm.symm⟩ ?_
  intro k some
  simp only [World.sshdPid, List.getElem?_append] at some ⊢
  split
  · rfl
  · rename_i beyond
    rw [if_neg beyond, List.getElem?_singleton] at some
    split at some
    · exact absurd some none
    · cases some

/-- A thread inside `startSshd` awaits no exit. -/
theorem awaits_starting {pc : StartPc} (h : w.starting t = some pc) :
    (∀ pc', (w.goto pc' t).watchdog.awaits = w.watchdog.awaits) ∧
    (w.leave t).watchdog.awaits = w.watchdog.awaits := by
  cases t with
  | main => exact ⟨fun _ => rfl, rfl⟩
  | watchdog =>
    rw [starting_watchdog h]
    exact ⟨fun _ => rfl, rfl⟩

theorem pids_fork (h : w.starting t = some .fork) (some : pid ≠ -1) :
    (w.goto (.record pid) t).pids.Perm (pid :: w.pids) := by
  cases t with
  | main =>
    simp only [World.pids, goto, starting_main h, Main.pids, if_neg some, List.append_nil]
    exact List.perm_append_singleton _ _
  | watchdog =>
    simp only [World.pids, goto, starting_watchdog h, Watchdog.pids, if_neg some, List.append_nil,
      List.append_assoc]
    exact List.perm_middle

theorem World.Tracked.fork {c : Proc} (h : w.Tracked) (ht : w.starting t = some .fork)
    (free : w.pidFree c.pid = true) (ours : c.dropbear = true ∧ c.child = true) :
    World.Tracked ((w.addProc c).goto (.record c.pid) t) := by
  obtain ⟨positive, unused⟩ := pidFree_iff.mp free
  have started : (w.addProc c).starting t = some .fork := ht
  have fresh : c.pid ∉ w.pids := by
    intro mem
    obtain ⟨⟨d, hd, here⟩, -⟩ := h.owned c.pid mem
    exact unused d hd here
  have pids := pids_fork started (by omega : c.pid ≠ -1)
  have awaits := (awaits_starting started).1 (.record c.pid)
  have procs : ((w.addProc c).goto (.record c.pid) t).procs = w.procs ++ [c] :=
    (onThread_goto _).procs
  refine ⟨?_, pids.nodup_iff.mpr (List.nodup_cons.mpr ⟨fresh, h.distinct⟩), ?_, ?_, ?_⟩
  · intro p mem
    rw [World.Owned, procs]
    rcases List.mem_cons.mp (pids.mem_iff.mp mem) with rfl | mem
    · exact Denotes.new unused ours
    · exact (h.owned p mem).append unused
  · intro k some
    rw [(onThread_goto _).sshdPid] at some ⊢
    have old := h.recorded k some
    rw [World.Awaited, awaits]
    cases t <;> exact old
  · rw [procs]
    intro d hd
    rcases List.mem_append.mp hd with hd | hd
    · exact h.procs d hd
    · obtain rfl := List.mem_singleton.mp hd
      exact positive
  · rw [awaits]
    exact h.awaited

theorem World.Tracked.record (h : w.Tracked) (ht : w.starting t = some (.record pid))
    (some : pid ≠ -1) :
    World.Tracked
      ({ w.setPid (w.instOf t) pid with tasks := w.tasks ++ [(w.instOf t, pid)] }.leave t) := by
  generalize hv : ({ w.setPid (w.instOf t) pid with
    tasks := w.tasks ++ [(w.instOf t, pid)] } : World) = v
  have started : v.starting t = .some (.record pid) := hv ▸ ht
  have awaits : (v.leave t).watchdog.awaits = w.watchdog.awaits :=
    (awaits_starting started).2.trans (hv ▸ rfl)
  have tasks : (v.leave t).tasks = w.tasks ++ [(w.instOf t, pid)] :=
    onThread_leave.tasks.trans (hv ▸ rfl)
  have task : (v.leave t).task = w.task := onThread_leave.task.trans (hv ▸ rfl)
  refine h.rewait (onThread_leave.procs.trans (hv ▸ rfl)) ?_ ?_ (awaits ▸ h.awaited)
  · subst hv
    cases t with
    | main =>
      simp only [World.pids, leave, starting_main ht, Main.pids, if_neg some, List.append_nil,
        List.map_append, List.map_cons, List.map_nil, List.append_assoc]
      exact List.perm_append_comm.append_left _
    | watchdog =>
      simp [World.pids, leave, starting_watchdog ht, Watchdog.pids, if_neg some, setPid,
        setInstance]
  · intro k positive
    have new : v.sshdPid k = w.sshdPid k ∨ (w.instOf t = k ∧ v.sshdPid k = pid) :=
      hv ▸ sshdPid_setPid pid (w.instOf t) k
    rw [onThread_leave.sshdPid] at positive ⊢
    rw [World.Awaited, tasks, task, awaits]
    rcases new with old | ⟨rfl, new⟩
    · rw [old] at positive ⊢
      rcases h.recorded k positive with mem | running
      · exact Or.inl (List.mem_append_left _ mem)
      · exact Or.inr running
    · rw [new]
      exact Or.inl (List.mem_append_right _ (List.mem_singleton.mpr rfl))

theorem World.Tracked.waitpid (h : w.Tracked) (hw : w.watchdog = .wait pid) :
    World.Tracked { w with
      procs := w.procs.filter fun c => !(c.pid == pid && c.child)
      watchdog := .decide pid } := by
  have distinct := h.distinct
  have before : w.pids = w.tasks.map Prod.snd ++ pid :: w.main.pids := by
    simp [World.pids, hw, Watchdog.pids]
  rw [before, List.perm_middle.nodup_iff] at distinct
  obtain ⟨others, distinct⟩ := List.nodup_cons.mp distinct
  have after : World.pids { w with
      procs := w.procs.filter fun c => !(c.pid == pid && c.child)
      watchdog := .decide pid } = w.tasks.map Prod.snd ++ w.main.pids := by
    simp [World.pids, Watchdog.pids]
  refine ⟨?_, after ▸ distinct, ?_, ?_, ?_⟩
  · intro p mem
    rw [after] at mem
    refine (h.owned p ?_).filter ?_
    · rw [before]
      exact (List.sublist_cons_self pid _).append_left _ |>.subset mem
    · rintro c - rfl
      have other : c.pid ≠ pid := fun same => others (same ▸ mem)
      simp [other]
  · intro k some
    have old := h.recorded k some
    rw [World.Awaited, hw] at old
    exact old
  · intro c hc
    exact h.procs c (List.mem_filter.mp hc).1
  · have old := h.awaited
    rw [hw] at old
    exact old

/-- The task is over, with another pid recorded or none. -/
theorem World.Tracked.decided {next : Watchdog} (h : w.Tracked) (hw : w.watchdog = .decide pid)
    (other : w.sshdPid w.task ≠ pid) (hn : next = .restart (.stop .block) ∨ next = .idle) :
    World.Tracked { w with watchdog := next } := by
  have free : next.pids = [] ∧ next.awaits = none := by
    rcases hn with rfl | rfl <;> exact ⟨rfl, rfl⟩
  have same : next.pids = w.watchdog.pids := by
    rw [free.1, hw]
    rfl
  refine h.rewait rfl ?_ ?_ (by simp [free.2])
  · exact .of_eq (by simp only [World.pids, same])
  · intro k some
    rcases h.recorded k some with mem | ⟨rfl, running⟩
    · exact Or.inl mem
    · rw [hw] at running
      exact absurd (Option.some.inj running).symm other

theorem World.Tracked.onProc {f : Proc → Proc} (h : w.Tracked) (pid : Int)
    (same : ∀ c, (f c).pid = c.pid ∧ (f c).dropbear = c.dropbear ∧ (f c).child = c.child) :
    (w.onProc pid f).Tracked := by
  refine h.procsOnly rfl rfl rfl rfl rfl ?_ ?_
  · intro p owned
    refine Denotes.update owned pid (fun c => (same c).1) ?_
    intro c hc
    rw [(same c).2.1, (same c).2.2]
    exact hc
  · intro c hc
    obtain ⟨d, hd, rfl⟩ := List.mem_map.mp hc
    split
    · rw [(same d).1]
      exact h.procs d hd
    · exact h.procs d hd

theorem World.Tracked.setFile (h : w.Tracked) (file : Option Bytes) :
    World.Tracked { w with pidFile := file } :=
  h.procsOnly rfl rfl rfl rfl rfl (fun _ owned => owned) h.procs

end

/-- The app process does not run. -/
theorem tracked_without_app {procs : List Proc} {file : Option Bytes}
    (positive : ∀ c ∈ procs, 0 < c.pid) :
    World.Tracked { procs := procs, pidFile := file } := by
  have pids : World.pids { procs := procs, pidFile := file } = [] := rfl
  refine ⟨by simp [pids], by simp [pids], ?_, positive, by simp [Watchdog.awaits]⟩
  intro k some
  simp [World.sshdPid] at some

theorem World.step_tracked {w u : World} {a : World.Action} (h : w.Tracked)
    (hs : w.step a = some u) : u.Tracked := by
  cases World.step_does hs with
  | crash hm | appDeath =>
    refine tracked_without_app ?_
    intro c hc
    obtain ⟨d, hd, rfl⟩ := List.mem_map.mp hc
    exact h.procs d hd
  | reboot => exact tracked_without_app (by simp)
  | createStale hm hl hr hp =>
    exact h.create (by simp) (by simp [hm, Main.pids]) rfl
  | create hm hp =>
    exact h.create hp (by simp [hm, Main.pids]) rfl
  | startCommand hm | destroy hm =>
    exact h.frame ⟨rfl, rfl, rfl, rfl, rfl, by simp [hm, Main.pids]⟩ fun _ _ => rfl
  | stop hl ht hp =>
    exact (h.setZero _).frame (sameWaits_toKill ht) fun k _ => (onThread_toKill _).sshdPid k
  | stopNone hl ht =>
    exact (h.setZero _).frame (sameWaits_pastStop (.inl ht)) fun k _ => onThread_pastStop.sshdPid k
  | kill ht =>
    exact h.frame (sameWaits_pastStop (.inr ⟨_, ht⟩)) fun k _ => onThread_pastStop.sshdPid k
  | forkFail ht => exact h.frame (sameWaits_forkFail ht) fun k _ => (onThread_goto _).sshdPid k
  | fork ht free => exact h.fork ht free ⟨rfl, rfl⟩
  | recordFail ht =>
    exact (h.setZero _).frame (sameWaits_recordFail ht) fun k _ => onThread_leave.sshdPid k
  | record ht some => exact h.record ht some
  | take hw ht =>
    rename_i k pid rest
    have before : w.pids = pid :: (rest.map Prod.snd ++ w.main.pids) := by
      simp [World.pids, hw, ht, Watchdog.pids]
    refine h.rewait rfl ?_ ?_ ?_
    · rw [before]
      simp only [World.pids, Watchdog.pids, List.append_assoc, List.singleton_append]
      exact List.perm_middle
    · intro j some
      rcases h.recorded j some with mem | ⟨-, running⟩
      · rw [ht] at mem
        rcases List.mem_cons.mp mem with same | mem
        · cases same
          exact Or.inr ⟨rfl, rfl⟩
        · exact Or.inl mem
      · rw [hw] at running
        cases running
    · rintro _ ⟨⟩
      exact h.positive (before ▸ List.mem_cons_self)
  | begin hw =>
    exact h.frame ⟨rfl, rfl, rfl, by simp [hw, Watchdog.awaits], by simp [hw, Watchdog.pids], rfl⟩
      fun k _ => sshdPid_noteStart _ _ _
  | waitpid hw => exact h.waitpid hw
  | clear hw hp hn =>
    refine (h.setZero _).decided hw ?_ hn
    rw [sshdPid_setPid_zero, if_pos (by rfl)]
    have positive := h.awaited _ (by rw [hw]; rfl)
    omega
  | stale hw hp => exact h.decided hw hp (.inr rfl)
  | die => exact h.onProc _ fun _ => ⟨rfl, rfl, rfl⟩
  | openPidFile | writePidFile =>
    refine World.Tracked.setFile (w := w.onProc _ _) ?_ _
    exact h.onProc _ fun _ => ⟨rfl, rfl, rfl⟩
  | unlinkPidFile => exact h.setFile _
  | reap =>
    refine h.procsOnly rfl rfl rfl rfl rfl ?_ fun c hc => h.procs c (List.mem_filter.mp hc).1
    intro p owned
    refine Denotes.filter owned ?_
    intro c hc here
    simp [(owned.2 c hc here).2]
  | spawn free =>
    obtain ⟨positive, unused⟩ := pidFree_iff.mp free
    refine h.procsOnly rfl rfl rfl rfl rfl (fun p owned => Denotes.append owned unused) ?_
    · intro c hc
      rcases List.mem_append.mp hc with hc | hc
      · exact h.procs c hc
      · obtain rfl := List.mem_singleton.mp hc
        exact positive

end Ikofi.Service
