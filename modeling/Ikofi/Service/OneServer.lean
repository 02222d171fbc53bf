import Ikofi.Service.Model

/-!
# One server at a time

Every live child is known to the service: its pid is `sshdPid`, or a thread is
about to kill or to record it. This survives every step as long as the two
threads do not run `startSshd` at once: neither may pass its `stopSshd` block
while the other is between its own and recording the new pid.
-/

namespace Ikofi.Service

open Runs

/-- Inside `startSshd`, past its `stopSshd` block. -/
def StartPc.past : StartPc → Bool
  | .stop .block => false
  | _ => true

/-- The pid that `startSshd` holds in a local variable, to kill or to record it. -/
def StartPc.pending : StartPc → Option Int
  | .stop (.kill pid) | .record pid => some pid
  | _ => none

def Svc.past (s : Svc) (t : Thread) : Bool := (s.starting t).elim false StartPc.past

def Svc.pending (s : Svc) (t : Thread) : Option Int :=
  match t, s.main with
  | .main, .onDestroy (.kill pid) => some pid
  | _, _ => (s.starting t).bind StartPc.pending

/-- No thread enters the part of `startSshd` that the other one is in, and a
fork does not reuse the pid that the watchdog has reaped but not yet compared
with `sshdPid`. -/
def NoOverlap (s : Svc) : Action → Prop
  | .stopSshd t => (s.starting t).isSome → s.past t.other = false
  | .fork _ pid => s.watchdog ≠ .decide pid
  | _ => True

instance (s : Svc) : (a : Action) → Decidable (NoOverlap s a)
  | .stopSshd t => inferInstanceAs (Decidable ((s.starting t).isSome → s.past t.other = false))
  | .fork _ pid => inferInstanceAs (Decidable (s.watchdog ≠ .decide pid))
  | .onCreate _ | .onStartCommand | .onDestroy | .kill _ | .record _ | .take | .begin _ | .waitpid
  | .decide _ | .die _ => .isTrue trivial

/-- Processes not yet reaped have distinct pids, and a reaped one is dead. -/
structure Sound (cs : List Child) : Prop where
  positive : ∀ c ∈ cs, 0 < c.pid
  distinct : cs.Pairwise fun c d => c.reaped = false → d.reaped = false → c.pid ≠ d.pid
  reaped : ∀ c ∈ cs, c.reaped = true → c.alive = false

/-- `onCreate` has returned. -/
def Main.created : Main → Bool
  | .absent | .onCreate _ => false
  | _ => true

structure Accounted (s : Svc) : Prop where
  sound : Sound s.children
  fresh : s.main.created = false → s.children = [] ∧ s.watchdog = .idle ∧ s.tasks = []
  compared : ∀ pid, s.watchdog = .decide pid → ∀ c ∈ s.children, c.reaped = false → c.pid ≠ pid
  alone : ∀ t, s.past t = true → s.past t.other = false
  cleared : ∀ t, s.past t = true → s.sshdPid = 0
  known : ∀ c ∈ s.children, c.Live → c.pid = s.sshdPid ∨ ∃ t, s.pending t = some c.pid

theorem mem_onPid {pid : Int} {f : Child → Child} {cs : List Child} {c : Child}
    (h : c ∈ onPid pid f cs) :
    (c ∈ cs ∧ ¬ (c.pid = pid ∧ c.reaped = false)) ∨
    ∃ d ∈ cs, d.pid = pid ∧ d.reaped = false ∧ c = f d := by
  obtain ⟨d, hd, rfl⟩ := List.mem_map.mp h
  by_cases hp : d.pid = pid ∧ d.reaped = false
  · exact Or.inr ⟨d, hd, hp.1, hp.2, by simp [hp]⟩
  · rw [if_neg hp]; exact Or.inl ⟨hd, hp⟩

/-- A signal, an exit or a reaping changes only flags, and a process once
reaped stays so. -/
structure Flags (f : Child → Child) : Prop where
  pid : ∀ c, (f c).pid = c.pid
  alive : ∀ c, (f c).alive = true → c.alive = true
  killed : ∀ c, (f c).killed = false → c.killed = false

theorem Flags.kill : Flags fun c => { c with killed := true } :=
  ⟨fun _ => rfl, fun _ h => h, fun _ h => by simp at h⟩

theorem Flags.reap : Flags fun c => { c with reaped := true } :=
  ⟨fun _ => rfl, fun _ h => h, fun _ h => h⟩

theorem Flags.die : Flags fun c => { c with alive := false } :=
  ⟨fun _ => rfl, fun _ h => by simp at h, fun _ h => h⟩

theorem live_onPid {pid : Int} {f : Child → Child} {cs : List Child} {c : Child} (hf : Flags f)
    (hc : c ∈ onPid pid f cs) (hl : c.Live) : ∃ d ∈ cs, d.pid = c.pid ∧ d.Live := by
  rcases mem_onPid hc with ⟨hc, -⟩ | ⟨d, hd, -, -, rfl⟩
  · exact ⟨c, hc, rfl, hl⟩
  · exact ⟨d, hd, (hf.pid d).symm, hf.alive d hl.1, hf.killed d hl.2⟩

theorem unreaped_onPid {pid : Int} {f : Child → Child} {cs : List Child} {c : Child} (hf : Flags f)
    (hc : c ∈ onPid pid f cs) (hr : c.reaped = false) :
    ∃ d ∈ cs, d.pid = c.pid ∧ d.reaped = false := by
  rcases mem_onPid hc with ⟨hc, -⟩ | ⟨d, hd, -, hd', rfl⟩
  · exact ⟨c, hc, rfl, hr⟩
  · exact ⟨d, hd, (hf.pid d).symm, hd'⟩

theorem Sound.onPid {pid : Int} {f : Child → Child} {cs : List Child} (h : Sound cs) (hf : Flags f)
    (dead : ∀ c ∈ cs, c.pid = pid → (f c).reaped = true → (f c).alive = false) :
    Sound (onPid pid f cs) := by
  refine ⟨?_, ?_, ?_⟩
  · intro c hc
    rcases mem_onPid hc with ⟨hc, -⟩ | ⟨d, hd, -, -, rfl⟩
    · exact h.positive c hc
    · rw [hf.pid]; exact h.positive d hd
  · refine List.pairwise_map.mpr (h.distinct.imp ?_)
    intro c d hcd hc hd
    have same : ∀ e : Child, (if e.pid = pid ∧ e.reaped = false then f e else e).pid = e.pid ∧
        ((if e.pid = pid ∧ e.reaped = false then f e else e).reaped = false → e.reaped = false) := by
      intro e
      split
      · rename_i he; exact ⟨hf.pid e, fun _ => he.2⟩
      · exact ⟨rfl, id⟩
    rw [(same c).1, (same d).1]
    exact hcd ((same c).2 hc) ((same d).2 hd)
  · intro c hc hr
    rcases mem_onPid hc with ⟨hc, -⟩ | ⟨d, hd, hp, -, rfl⟩
    · exact h.reaped c hc hr
    · exact dead d hd hp hr

theorem Thread.eq_or_other (t u : Thread) : u = t ∨ u = t.other := by
  cases t <;> cases u <;> simp [Thread.other]

section
variable {s : Svc} {t : Thread} {pc : StartPc}

@[simp] theorem past_goto : (s.goto t pc).past t = pc.past := by cases t <;> rfl

@[simp] theorem past_goto_other : (s.goto t pc).past t.other = s.past t.other := by cases t <;> rfl

@[simp] theorem past_leave : (s.leave t).past t = false := by cases t <;> rfl

@[simp] theorem past_leave_other : (s.leave t).past t.other = s.past t.other := by cases t <;> rfl

theorem pending_goto : (s.goto t pc).pending t = pc.pending := by cases t <;> rfl

theorem pending_goto_other : (s.goto t pc).pending t.other = s.pending t.other := by
  cases t <;> rfl

theorem pending_leave_other : (s.leave t).pending t.other = s.pending t.other := by
  cases t <;> rfl

theorem past_starting (h : s.starting t = some pc) : s.past t = pc.past := by
  simp [Svc.past, h]

theorem pending_starting (h : s.starting t = some pc) : s.pending t = pc.pending := by
  cases t with
  | main => simp only [Svc.starting] at h; split at h <;> simp_all [Svc.pending, Svc.starting]
  | watchdog => simp [Svc.pending, h]

theorem past_congr {u : Svc} (main : u.main = s.main) (watchdog : u.watchdog = s.watchdog) :
    u.past t = s.past t := by
  cases t <;> simp [Svc.past, Svc.starting, main, watchdog]

theorem pending_congr {u : Svc} (main : u.main = s.main) (watchdog : u.watchdog = s.watchdog) :
    u.pending t = s.pending t := by
  cases t <;> simp [Svc.pending, Svc.starting, main, watchdog]

end

/-- The watchdog runs only behind `onCreate`. -/
theorem Accounted.created_of_inside {s u : Svc} (h : Accounted s)
    (busy : (s.starting .watchdog).isSome) (main : u.main = s.main) : u.main.created = true := by
  cases hm : u.main.created with
  | true => rfl
  | false =>
    have idle := (h.fresh (main ▸ hm)).2.1
    simp [Svc.starting, idle] at busy

/-- A thread inside `startSshd` moves on while the other one is not past its
own `stopSshd`. -/
theorem Accounted.goto {s u : Svc} {t : Thread} {pc : StartPc} (h : Accounted s)
    (busy : (s.starting t).isSome) (main : u.main = s.main) (watchdog : u.watchdog = s.watchdog)
    (quiet : s.past t.other = false) (zero : u.sshdPid = 0) (sound : Sound u.children)
    (compared : ∀ pid, s.watchdog = .decide pid → ∀ c ∈ u.children, c.reaped = false → c.pid ≠ pid)
    (known : ∀ c ∈ u.children, c.Live →
      pc.pending = some c.pid ∨ s.pending t.other = some c.pid) : Accounted (u.goto t pc) := by
  have other : (u.goto t pc).past t.other = false := by
    rw [past_goto_other, past_congr main watchdog, quiet]
  refine ⟨?_, ?_, ?_, ?_, ?_, ?_⟩
  · cases t <;> exact sound
  · intro hm
    cases t with
    | main => cases hm
    | watchdog => cases (h.created_of_inside busy main).symm.trans hm
  · intro pid hw
    cases t with
    | main => exact compared pid (watchdog ▸ hw)
    | watchdog => cases hw
  · intro t' ht'
    rcases t.eq_or_other t' with rfl | rfl
    · exact other
    · rw [other] at ht'; cases ht'
  · intro _ _
    cases t <;> exact zero
  · intro c hc hl
    have hc : c ∈ u.children := by cases t <;> exact hc
    rcases known c hc hl with hk | hk
    · exact Or.inr ⟨t, pending_goto.trans hk⟩
    · exact Or.inr ⟨t.other, by rw [pending_goto_other, pending_congr main watchdog, hk]⟩

/-- A thread leaves `startSshd` with the new pid recorded. -/
theorem Accounted.leave {s u : Svc} {t : Thread} {pc : StartPc} (h : Accounted s)
    (busy : s.starting t = some pc) (past : s.past t = true)
    (main : u.main = s.main) (watchdog : u.watchdog = s.watchdog) (same : u.children = s.children)
    (known : ∀ c ∈ s.children, pc.pending = some c.pid → c.pid = u.sshdPid) :
    Accounted (u.leave t) := by
  have quiet := h.alone t past
  have none : ∀ t', (u.leave t).past t' = false := by
    intro t'
    rcases t.eq_or_other t' with rfl | rfl
    · exact past_leave
    · rw [past_leave_other, past_congr main watchdog, quiet]
  have children : (u.leave t).children = s.children := by cases t <;> exact same
  refine ⟨children ▸ h.sound, ?_, ?_, fun t' ht' => ?_, fun t' ht' => ?_, ?_⟩
  · intro hm
    cases t with
    | main => cases hm
    | watchdog =>
      have inside : (s.starting .watchdog).isSome := by simp [busy]
      cases (h.created_of_inside inside main).symm.trans hm
  · intro pid hw
    cases t with
    | main => rw [children]; exact h.compared pid (watchdog ▸ hw)
    | watchdog => cases hw
  · rw [none] at ht'; cases ht'
  · rw [none] at ht'; cases ht'
  · intro c hc hl
    rw [children] at hc
    have pid : (u.leave t).sshdPid = u.sshdPid := by cases t <;> rfl
    rcases h.known c hc hl with hk | ⟨t', hk⟩
    · have := h.sound.positive c hc
      have := h.cleared t past
      omega
    · rcases t.eq_or_other t' with rfl | rfl
      · exact Or.inl (pid ▸ known c hc ((pending_starting busy).symm.trans hk))
      · exact Or.inr ⟨t.other, by rw [pending_leave_other, pending_congr main watchdog, hk]⟩

/-- Where the pid of a live child can be while thread `t` is inside `startSshd`. -/
theorem Accounted.known_starting {s : Svc} {t : Thread} {pc : StartPc} (h : Accounted s)
    (ht : s.starting t = some pc) {c : Child} (hc : c ∈ s.children) (hl : c.Live) :
    c.pid = s.sshdPid ∨ pc.pending = some c.pid ∨ s.pending t.other = some c.pid := by
  rcases h.known c hc hl with hk | ⟨t', hk⟩
  · exact Or.inl hk
  · rcases t.eq_or_other t' with rfl | rfl
    · exact Or.inr (Or.inl ((pending_starting ht).symm.trans hk))
    · exact Or.inr (Or.inr hk)

/-- Behind its `stopSshd` the thread holds the pid, or the other thread does. -/
theorem Accounted.known_past {s : Svc} {t : Thread} {pc : StartPc} (h : Accounted s)
    (ht : s.starting t = some pc) (past : s.past t = true) {c : Child} (hc : c ∈ s.children)
    (hl : c.Live) : pc.pending = some c.pid ∨ s.pending t.other = some c.pid := by
  rcases h.known_starting ht hc hl with hk | hk
  · have positive := h.sound.positive c hc
    have cleared := h.cleared t past
    omega
  · exact hk

/-- Where the pid of a live child can be while the main thread has none. -/
theorem Accounted.known_outside {s : Svc} (h : Accounted s) (idle : s.pending .main = none)
    {c : Child} (hc : c ∈ s.children) (hl : c.Live) :
    c.pid = s.sshdPid ∨ s.pending .watchdog = some c.pid := by
  rcases h.known c hc hl with hk | ⟨t, hk⟩
  · exact Or.inl hk
  · cases t with
    | main =>
      rw [idle] at hk
      cases hk
    | watchdog => exact Or.inr hk

/-- Only the main thread changes, and it is not inside `startSshd` afterwards. -/
theorem Accounted.setMain {s u : Svc} (h : Accounted s) (watchdog : u.watchdog = s.watchdog)
    (created : u.main.created = true) (outside : u.past .main = false)
    (zero : s.past .watchdog = true → u.sshdPid = 0) (sound : Sound u.children)
    (unreaped : ∀ c ∈ u.children, c.reaped = false → ∃ d ∈ s.children, d.pid = c.pid ∧ d.reaped = false)
    (known : ∀ c ∈ u.children, c.Live → c.pid = u.sshdPid ∨ ∃ t, u.pending t = some c.pid) :
    Accounted u := by
  have same : u.past .watchdog = s.past .watchdog := by simp [Svc.past, Svc.starting, watchdog]
  refine ⟨sound, fun hm => ?_, ?_, ?_, ?_, known⟩
  · rw [created] at hm; cases hm
  · intro pid hw c hc hr
    obtain ⟨d, hd, hp, hr⟩ := unreaped c hc hr
    exact hp ▸ h.compared pid (watchdog ▸ hw) d hd hr
  · intro t ht
    cases t with
    | main => rw [outside] at ht; cases ht
    | watchdog => exact outside
  · intro t ht
    cases t with
    | main => rw [outside] at ht; cases ht
    | watchdog => exact zero (same ▸ ht)

/-- Only the watchdog changes, and it is not past `stopSshd` afterwards. -/
theorem Accounted.setWatchdog {s u : Svc} (h : Accounted s) (main : u.main = s.main)
    (busy : s.watchdog ≠ .idle ∨ s.tasks ≠ []) (outside : u.past .watchdog = false)
    (zero : s.past .main = true → u.sshdPid = 0) (sound : Sound u.children)
    (compared : ∀ pid, u.watchdog = .decide pid → ∀ c ∈ u.children, c.reaped = false → c.pid ≠ pid)
    (known : ∀ c ∈ u.children, c.Live → c.pid = u.sshdPid ∨ ∃ t, u.pending t = some c.pid) :
    Accounted u := by
  have same : u.past .main = s.past .main := by simp [Svc.past, Svc.starting, main]
  refine ⟨sound, fun hm => ?_, compared, ?_, ?_, known⟩
  · obtain ⟨-, hw, ht⟩ := h.fresh (main ▸ hm)
    exact absurd busy (by simp [hw, ht])
  · intro t ht
    cases t with
    | main => exact outside
    | watchdog => rw [outside] at ht; cases ht
  · intro t ht
    cases t with
    | main => exact zero (same ▸ ht)
    | watchdog => rw [outside] at ht; cases ht

/-- While `onCreate` runs there are no children and no watchdog task. -/
theorem Accounted.creating {s u : Svc} (h : Accounted s) (new : s.main.created = false)
    (outside : u.past .main = false) (watchdog : u.watchdog = s.watchdog)
    (same : u.children = s.children) (tasks : u.tasks = s.tasks) : Accounted u := by
  obtain ⟨hc, hw, ht⟩ := h.fresh new
  have none : ∀ t, u.past t = false := by
    intro t
    cases t with
    | main => exact outside
    | watchdog => simp [Svc.past, Svc.starting, watchdog, hw]
  refine ⟨same ▸ h.sound, fun _ => ⟨same.trans hc, watchdog.trans hw, tasks.trans ht⟩,
    fun pid hw' => ?_, fun t ht => ?_, fun t ht => ?_, ?_⟩
  · rw [watchdog, hw] at hw'; cases hw'
  · rw [none] at ht; cases ht
  · rw [none] at ht; cases ht
  · simp [same, hc]

theorem Accounted.kill_known {s : Svc} (h : Accounted s) {pid : Int} {c : Child}
    (hc : c ∈ onPid pid (fun c => { c with killed := true }) s.children) (hl : c.Live) :
    c ∈ s.children ∧ c.pid ≠ pid := by
  rcases mem_onPid hc with ⟨hc, hn⟩ | ⟨d, -, -, -, rfl⟩
  · refine ⟨hc, fun hp => hn ⟨hp, ?_⟩⟩
    cases hr : c.reaped
    · rfl
    · exact absurd hl.1 (by simp [h.sound.reaped c hc hr])
  · exact absurd hl.2 (by simp)

/-- The main thread kills the process whose pid it holds and leaves `stopSshd`. -/
theorem Accounted.killMain {s u : Svc} {pid : Int} (h : Accounted s)
    (held : s.pending .main = some pid) (main : u.main = .idle) (watchdog : u.watchdog = s.watchdog)
    (same : u.sshdPid = s.sshdPid)
    (signalled : u.children = onPid pid (fun c => { c with killed := true }) s.children) :
    Accounted u := by
  refine h.setMain watchdog (by simp [main, Main.created]) (by simp [Svc.past, Svc.starting, main])
    (fun hw => same.trans (h.cleared .watchdog hw)) ?_ ?_ ?_
  · rw [signalled]
    exact h.sound.onPid .kill fun c hc _ hr => h.sound.reaped c hc hr
  · rw [signalled]
    exact fun c hc hr => unreaped_onPid .kill hc hr
  · intro c hc hl
    obtain ⟨hc, hp⟩ := h.kill_known (signalled ▸ hc) hl
    rcases h.known c hc hl with hk | ⟨t, hk⟩
    · exact Or.inl (hk.trans same.symm)
    · cases t with
      | main => exact absurd (Option.some.inj (hk.symm.trans held)) hp
      | watchdog =>
        refine Or.inr ⟨.watchdog, ?_⟩
        rw [← hk]
        simp [Svc.pending, Svc.starting, watchdog]

/-- A watchdog step that touches neither `sshdPid` nor the children, taken while
the watchdog holds no pid. -/
theorem Accounted.known_idle {s u : Svc} (h : Accounted s) (empty : s.pending .watchdog = none)
    (main : u.main = s.main) (same : u.sshdPid = s.sshdPid) :
    ∀ c ∈ s.children, c.Live → c.pid = u.sshdPid ∨ ∃ t, u.pending t = some c.pid := by
  intro c hc hl
  rcases h.known c hc hl with hk | ⟨t, hk⟩
  · exact Or.inl (hk.trans same.symm)
  · cases t with
    | main => exact Or.inr ⟨.main, by rw [← hk]; simp [Svc.pending, Svc.starting, main]⟩
    | watchdog => rw [empty] at hk; cases hk

/-- The pid that the watchdog compares with `sshdPid` is no live child's. -/
theorem Accounted.known_decided {s u : Svc} {pid : Int} (h : Accounted s)
    (hw : s.watchdog = .decide pid) (hp : s.sshdPid = pid) (main : u.main = s.main) :
    ∀ c ∈ s.children, c.Live → ∃ t, u.pending t = some c.pid := by
  intro c hc hl
  rcases h.known_idle (u := { u with sshdPid := s.sshdPid })
    (by simp [Svc.pending, Svc.starting, hw]) main rfl c hc hl with hk | hk
  · cases hr : c.reaped
    · exact absurd (hk.trans hp) (h.compared pid hw c hc hr)
    · exact absurd hl.1 (by simp [h.sound.reaped c hc hr])
  · exact hk

theorem Sound.spawn {s : Svc} {pid : Int} (h : Sound s.children) (free : s.pidFree pid = true) :
    Sound (s.spawn pid).children := by
  simp only [Svc.pidFree, Bool.and_eq_true, decide_eq_true_eq, List.all_eq_true, Bool.or_eq_true,
    bne_iff_ne] at free
  obtain ⟨pos, free⟩ := free
  refine ⟨?_, ?_, ?_⟩
  · intro c hc
    rcases List.mem_append.mp hc with hc | hc
    · exact h.positive c hc
    · rw [List.mem_singleton.mp hc]; exact pos
  · refine List.pairwise_append.mpr ⟨h.distinct, List.pairwise_singleton _ _, ?_⟩
    intro c hc d hd hr _
    rw [List.mem_singleton.mp hd]
    rcases free c hc with hf | hf
    · rw [hr] at hf; cases hf
    · exact hf
  · intro c hc hr
    rcases List.mem_append.mp hc with hc | hc
    · exact h.reaped c hc hr
    · rw [List.mem_singleton.mp hc] at hr; cases hr

theorem step_accounted {s t : Svc} {a : Action} (h : Accounted s) (ok : NoOverlap s a)
    (hs : step s a = some t) : Accounted t := by
  have self : ∀ c ∈ s.children, c.reaped = false →
    ∃ d ∈ s.children, d.pid = c.pid ∧ d.reaped = false := fun c hc hr => ⟨c, hc, rfl, hr⟩
  cases step_does hs with
  | createStale hm hp =>
    exact h.creating (by simp [hm, Main.created]) rfl rfl rfl rfl
  | create hm hp =>
    exact h.creating (by simp [hm, Main.created]) rfl rfl rfl rfl
  | startCommand hm =>
    have idle : s.pending .main = none := by simp [Svc.pending, Svc.starting, hm]
    refine h.setMain rfl rfl rfl (h.cleared .watchdog) h.sound self fun c hc hl => ?_
    exact (h.known_outside idle hc hl).imp_right fun hk => ⟨.watchdog, hk⟩
  | destroy hm =>
    have idle : s.pending .main = none := by simp [Svc.pending, Svc.starting, hm]
    refine h.setMain rfl rfl rfl (h.cleared .watchdog) h.sound self fun c hc hl => ?_
    exact (h.known_outside idle hc hl).imp_right fun hk => ⟨.watchdog, hk⟩
  | stop hl ht hp =>
    refine h.goto (by simp [ht]) rfl rfl (ok (by simp [ht])) rfl h.sound h.compared ?_
    intro c hc hl
    rcases h.known_starting ht hc hl with hk | hk | hk
    · exact Or.inl (congrArg some hk.symm)
    · cases hk
    · exact Or.inr hk
  | stopNone hl ht hp =>
    refine h.goto (by simp [ht]) rfl rfl (ok (by simp [ht])) rfl h.sound h.compared ?_
    intro c hc hl
    rcases h.known_starting ht hc hl with hk | hk | hk
    · exact absurd (h.sound.positive c hc) (hk ▸ hp)
    · cases hk
    · exact Or.inr hk
  | destroyStop hl hm hp =>
    have idle : s.pending .main = none := by simp [Svc.pending, Svc.starting, hm]
    refine h.setMain rfl rfl rfl (fun _ => rfl) h.sound self fun c hc hl => ?_
    rcases h.known_outside idle hc hl with hk | hk
    · exact Or.inr ⟨.main, congrArg some hk.symm⟩
    · exact Or.inr ⟨.watchdog, hk⟩
  | destroyNone hl hm hp =>
    have idle : s.pending .main = none := by simp [Svc.pending, Svc.starting, hm]
    refine h.setMain rfl rfl rfl (fun _ => rfl) h.sound self fun c hc hl => ?_
    rcases h.known_outside idle hc hl with hk | hk
    · exact absurd (h.sound.positive c hc) (hk ▸ hp)
    · exact Or.inr ⟨.watchdog, hk⟩
  | @kill t pid ht =>
    have past := (past_starting ht).trans rfl
    refine h.goto (by simp [ht]) rfl rfl (h.alone _ past) (h.cleared _ past)
      (h.sound.onPid .kill ?_) ?_ ?_
    · exact fun c hc _ hr => h.sound.reaped c hc hr
    · intro q hw c hc hr
      obtain ⟨d, hd, hp, hr⟩ := unreaped_onPid .kill hc hr
      exact hp ▸ h.compared q hw d hd hr
    · intro c hc hl
      obtain ⟨hc, hp⟩ := h.kill_known hc hl
      rcases h.known_past ht past hc hl with hk | hk
      · exact absurd (Option.some.inj hk).symm hp
      · exact Or.inr hk
  | createKill hm =>
    have hn : s.main.created = false := by simp [hm, Main.created]
    exact h.creating hn rfl rfl (by simp [Svc.signal, onPid, (h.fresh hn).1]) rfl
  | destroyKill hm =>
    exact h.killMain (by simp [Svc.pending, hm]) rfl rfl rfl rfl
  | forkFail ht =>
    have past := (past_starting ht).trans rfl
    refine h.goto (by simp [ht]) rfl rfl (h.alone _ past) (h.cleared _ past) h.sound h.compared ?_
    intro c hc hl
    rcases h.known_past ht past hc hl with hk | hk
    · cases hk
    · exact Or.inr hk
  | @fork t pid ht hp =>
    have past := (past_starting ht).trans rfl
    refine h.goto (by simp [ht]) rfl rfl (h.alone _ past) (h.cleared _ past) (h.sound.spawn hp) ?_ ?_
    · intro q hw c hc hr
      rcases List.mem_append.mp hc with hc | hc
      · exact h.compared q hw c hc hr
      · obtain rfl := List.mem_singleton.mp hc
        rintro rfl
        exact ok hw
    · intro c hc hl
      rcases List.mem_append.mp hc with hc | hc
      · rcases h.known_past ht past hc hl with hk | hk
        · cases hk
        · exact Or.inr hk
      · obtain rfl := List.mem_singleton.mp hc
        exact Or.inl rfl
  | recordFail hl ht =>
    refine h.leave ht ((past_starting ht).trans rfl) rfl rfl rfl ?_
    intro c hc hk
    have := h.sound.positive c hc
    simp only [StartPc.pending, Option.some.injEq] at hk
    omega
  | record hl ht hp =>
    refine h.leave ht ((past_starting ht).trans rfl) rfl rfl rfl ?_
    intro c hc hk
    simpa [StartPc.pending, eq_comm] using hk
  | take hw ht =>
    refine h.setWatchdog rfl (by simp [ht]) rfl (h.cleared .main) h.sound (by simp) ?_
    exact h.known_idle (by simp [Svc.pending, Svc.starting, hw]) rfl rfl
  | begin hl hw =>
    refine h.setWatchdog rfl (by simp [hw]) rfl (h.cleared .main) h.sound (by simp) ?_
    exact h.known_idle (by simp [Svc.pending, Svc.starting, hw]) rfl rfl
  | @waitpid pid hw hr =>
    have gone : ∀ c ∈ s.children, c.pid = pid → c.reaped = false → c.alive = false := by
      intro c hc hp hn
      have := List.all_eq_true.mp hr c hc
      simpa [hp, hn] using this
    refine h.setWatchdog rfl (by simp [hw]) rfl (h.cleared .main) (h.sound.onPid .reap ?_) ?_ ?_
    · intro c hc hp _
      cases hn : c.reaped
      · exact gone c hc hp hn
      · exact h.sound.reaped c hc hn
    · rintro q hq c hc hn
      obtain rfl : pid = q := by simpa using hq
      rcases mem_onPid hc with ⟨-, hp⟩ | ⟨d, -, -, -, rfl⟩
      · exact fun he => hp ⟨he, hn⟩
      · cases hn
    · intro c hc hl
      obtain ⟨d, hd, hp, hl⟩ := live_onPid .reap hc hl
      rw [← hp]
      exact h.known_idle (by simp [Svc.pending, Svc.starting, hw]) (by rfl) (by rfl) d hd hl
  | @restart pid _ hl hw hp hr =>
    refine h.setWatchdog rfl (by simp [hw]) rfl (fun _ => rfl) h.sound (by simp) ?_
    intro c hc hl
    exact Or.inr (h.known_decided hw hp (by rfl) c hc hl)
  | @giveUp pid _ hl hw hp hr =>
    refine h.setWatchdog rfl (by simp [hw]) rfl (fun _ => rfl) h.sound (by simp) ?_
    intro c hc hl
    exact Or.inr (h.known_decided hw hp (by rfl) c hc hl)
  | stale hl hw hp =>
    refine h.setWatchdog rfl (by simp [hw]) rfl (h.cleared .main) h.sound (by simp) ?_
    exact h.known_idle (by simp [Svc.pending, Svc.starting, hw]) rfl rfl
  | @die pid =>
    have same : ∀ t, (s.signal pid fun c => { c with alive := false }).past t = s.past t :=
      fun t => past_congr rfl rfl
    refine ⟨h.sound.onPid .die fun _ _ _ _ => rfl, ?_, ?_, ?_, ?_, ?_⟩
    · intro hm
      obtain ⟨hc, hw⟩ := h.fresh hm
      exact ⟨by simp [Svc.signal, onPid, hc], hw⟩
    · intro q hw c hc hn
      obtain ⟨d, hd, hp, hn⟩ := unreaped_onPid .die hc hn
      exact hp ▸ h.compared q hw d hd hn
    · exact fun t ht => (same t.other).trans (h.alone t ((same t).symm.trans ht))
    · exact fun t ht => h.cleared t ((same t).symm.trans ht)
    · intro c hc hl
      obtain ⟨d, hd, hp, hl⟩ := live_onPid .die hc hl
      rw [← hp]
      exact (h.known d hd hl).imp_right fun ⟨t, hk⟩ => ⟨t, (pending_congr rfl rfl).trans hk⟩

theorem init_accounted : Accounted init := by
  refine ⟨⟨by simp [init], .nil, by simp [init]⟩, fun _ => ⟨rfl, rfl, rfl⟩, fun _ h => ?_,
    fun t ht => ?_, fun t ht => ?_, by simp [init]⟩
  · cases h
  · cases t <;> cases ht
  · cases t <;> cases ht

theorem run_accounted {as : List Action} {s : Svc} (h : Run step NoOverlap init as s) :
    Accounted s :=
  h.invariant init_accounted fun _ _ _ => step_accounted

/-- No thread is inside `startSshd` or `stopSshd`. -/
def Svc.Quiet (s : Svc) : Prop :=
  s.starting .main = none ∧ s.starting .watchdog = none ∧ ∀ pc, s.main ≠ .onDestroy pc

theorem Svc.Quiet.pending {s : Svc} (h : s.Quiet) (t : Thread) : s.pending t = none := by
  obtain ⟨hm, hw, hd⟩ := h
  cases t with
  | main => cases hs : s.main <;> simp_all [Svc.pending]
  | watchdog => simp [Svc.pending, hw]

theorem Accounted.live_unreaped {s : Svc} (h : Accounted s) {c : Child} (hc : c ∈ s.children)
    (hl : c.Live) : c.reaped = false := by
  cases hr : c.reaped
  · rfl
  · exact absurd hl.1 (by simp [h.sound.reaped c hc hr])

/-- Live children are told apart by their pids. -/
theorem Accounted.live_distinct {s : Svc} (h : Accounted s) :
    (s.children.filter (·.Live)).Pairwise fun c d => c.pid ≠ d.pid := by
  have live := h.sound.distinct.filter (decide ·.Live)
  refine live.imp_of_mem ?_
  intro c d hc hd hcd
  have hc := List.mem_filter.mp hc
  have hd := List.mem_filter.mp hd
  exact hcd (h.live_unreaped hc.1 (by simpa using hc.2)) (h.live_unreaped hd.1 (by simpa using hd.2))

/-- As long as the two threads do not overlap in `startSshd`, at most one server
is running whenever neither is inside it, and `sshdPid` is its pid. -/
theorem one_server {as : List Action} {s : Svc} (h : Run step NoOverlap init as s)
    (quiet : s.Quiet) :
    (s.children.filter (·.Live)).length ≤ 1 ∧ ∀ c ∈ s.children, c.Live → c.pid = s.sshdPid := by
  have acc := run_accounted h
  have known : ∀ c ∈ s.children, c.Live → c.pid = s.sshdPid := by
    intro c hc hl
    rcases acc.known c hc hl with hk | ⟨t, hk⟩
    · exact hk
    · rw [quiet.pending t] at hk; cases hk
  refine ⟨?_, known⟩
  have live' : ∀ c ∈ s.children.filter (·.Live), c.pid = s.sshdPid := by
    intro c hc
    have hc := List.mem_filter.mp hc
    exact known c hc.1 (by simpa using hc.2)
  have apart := acc.live_distinct
  generalize s.children.filter (·.Live) = live at apart live'
  match live with
  | [] | [_] => simp
  | c :: d :: rest =>
    have := (List.pairwise_cons.mp apart).1 d (by simp)
    exact absurd ((live' c (by simp)).trans (live' d (by simp)).symm) this

/-- A first start, a crash and the restart by the watchdog. -/
def crashAndRestart : List Action :=
  [.onCreate 0, .onStartCommand, .stopSshd .main, .fork .main 10, .record .main,
   .take, .begin 5, .die 10, .waitpid, .decide 9,
   .stopSshd .watchdog, .fork .watchdog 11, .record .watchdog]

def restarted : Svc where
  sshdPid := 11
  sshdStartTime := 5
  main := .idle
  tasks := [11]
  children := [{ pid := 10, alive := false, reaped := true }, { pid := 11 }]

theorem one_server_after_restart :
    (restarted.children.filter (·.Live)).length ≤ 1 ∧
    ∀ c ∈ restarted.children, c.Live → c.pid = restarted.sshdPid :=
  have run : Run step NoOverlap init crashAndRestart restarted := run_of_foldlM (by decide)
  one_server run ⟨rfl, rfl, by simp [restarted]⟩

/-- The watchdog has decided to restart when the user starts the service again:
both threads pass `stopSshd`, fork and record. -/
def overlap : List Action :=
  [.onCreate 0, .onStartCommand, .stopSshd .main, .fork .main 10, .record .main,
   .take, .begin 5, .die 10, .waitpid, .decide 9,
   .onStartCommand, .stopSshd .main, .stopSshd .watchdog,
   .fork .main 11, .fork .watchdog 12, .record .main, .record .watchdog]

def overlapped : Svc where
  sshdPid := 12
  sshdStartTime := 5
  main := .idle
  tasks := [11, 12]
  children := [{ pid := 10, alive := false, reaped := true }, { pid := 11 }, { pid := 12 }]

theorem overlap_two_servers :
    ¬ ∀ (as : List Action) (s : Svc), Reached step init as s → s.Quiet →
      (s.children.filter (·.Live)).length ≤ 1 ∧
      ∀ c ∈ s.children, c.Live → c.pid = s.sshdPid := by
  intro claim
  have run := claim overlap overlapped (run_of_foldlM (by decide)) ⟨rfl, rfl, by simp [overlapped]⟩
  exact absurd run.1 (by decide)

end Ikofi.Service
