import Ikofi.Service.Model

/-!
# The watchdog's restart test in real time

The service runs against real time, counted in nanoseconds from the creation of
the instance. Each action happens at an instant, and the two blocks of the
watchdog task read their clocks at theirs. Beside the service state the run
keeps the instants of the current child and of those before it, so that what
the watchdog decides can be compared with how long the children ran.
-/

namespace Ikofi.Service

open Runs

/-- `origin` and `epoch` are the two clocks' values at instant 0, in nanoseconds. -/
structure Clocks where
  origin : Int
  epoch : Int

def Clocks.nanoTime (k : Clocks) (now : Nat) : Int := long (now + k.origin)

def Clocks.currentTimeMillis (k : Clocks) (now : Nat) : Int := long ((now + k.epoch) / 1000000)

/-- The value an action carries is what its clock shows. -/
def Clocks.reads (k : Clocks) (now : Nat) : Action → Bool
  | .begin nanoTime => nanoTime == k.nanoTime now
  | .decide millis => millis == k.currentTimeMillis now
  | _ => true

/-- When a child was forked, when its watchdog task began, and when it exited. -/
structure Life where
  forked : Nat := 0
  begun : Nat := 0
  exited : Nat := 0
  deriving DecidableEq, Repr

def Life.lasted (l : Life) : Nat := l.exited - l.forked

/-- `past` holds the children before the current one, the latest first. -/
structure Timed where
  svc : Svc := {}
  now : Nat := 0
  current : Life := {}
  past : List Life := []
  deriving DecidableEq, Repr

def Svc.running (s : Svc) (pid : Int) : Bool :=
  s.children.any fun c => c.pid == pid && !c.reaped && c.alive

def Timed.note (s : Timed) (now : Nat) : Action → Timed
  | .fork _ pid =>
    if pid = -1 then s
    else if s.svc.children = [] then { s with current := { forked := now } }
    else { s with current := { forked := now }, past := s.current :: s.past }
  | .begin _ => { s with current := { s.current with begun := now } }
  | .die pid => if s.svc.running pid then { s with current := { s.current with exited := now } } else s
  | _ => s

/-- `nanoTime` tells instants apart over 2 ^ 63 nanoseconds. -/
def maxSpan : Nat := 0x8000000000000000

def timedStep (k : Clocks) (s : Timed) (x : Nat × Action) : Option Timed :=
  if s.now ≤ x.1 ∧ x.1 < maxSpan ∧ k.reads x.1 x.2 = true then
    (step s.svc x.2).map fun svc => { s.note x.1 x.2 with svc := svc, now := x.1 }
  else none

/-- Children are not stopped on request: the service is not stopped, and it is
started only while no child lives and the watchdog has nothing to do. -/
def Undisturbed (s : Timed) (x : Nat × Action) : Prop :=
  x.2 ≠ .onDestroy ∧ (x.2 = .onStartCommand →
    (∀ c ∈ s.svc.children, c.alive = false) ∧ s.svc.watchdog = .idle ∧ s.svc.tasks = [])

instance (s : Timed) (x : Nat × Action) : Decidable (Undisturbed s x) :=
  inferInstanceAs (Decidable (_ ∧ _))

def tenSeconds : Nat := 10000000000

/-- The previous or the current child ran for ten seconds. -/
def LongRun (s : Timed) : Prop :=
  (∃ p ∈ s.past.head?, tenSeconds ≤ p.lasted) ∨ tenSeconds ≤ s.current.lasted

/-- The documented rule: restart after the first start, or if the previous or
the current child ran for ten seconds. -/
def Documented (s : Timed) : Prop := s.past = [] ∨ LongRun s

/-- The watchdog is about to run `startSshd`. -/
def Timed.Restarts (s : Timed) : Prop := s.svc.watchdog = .restart (.stop .block)

instance (s : Timed) : Decidable s.Restarts := inferInstanceAs (Decidable (_ = _))

theorem timedStep_some {k : Clocks} {s t : Timed} {now : Nat} {a : Action}
    (h : timedStep k s (now, a) = some t) :
    s.now ≤ now ∧ now < maxSpan ∧ k.reads now a = true ∧
    ∃ svc, step s.svc a = some svc ∧ t = { s.note now a with svc := svc, now := now } := by
  simp only [timedStep, Option.ite_none_right_eq_some, Option.map_eq_some_iff] at h
  obtain ⟨⟨later, span, reads⟩, svc, hs, rfl⟩ := h
  exact ⟨later, span, reads, svc, hs, rfl⟩

/-- The current child is forked and its watchdog task has not begun. -/
def Svc.Awaiting (s : Svc) (pid : Int) : Prop :=
  pid ≠ -1 ∧
  ((s.main = .onStartCommand (.record pid) ∧ s.watchdog = .idle ∧ s.tasks = []) ∨
   (s.main = .idle ∧ s.watchdog = .restart (.record pid) ∧ s.tasks = []) ∨
   (s.main = .idle ∧ s.watchdog = .idle ∧ s.tasks = [pid] ∧ s.sshdPid = pid) ∨
   (s.main = .idle ∧ s.watchdog = .begin pid ∧ s.tasks = [] ∧ s.sshdPid = pid))

/-- Inside `startSshd`, with no child of this call. -/
def StartPc.childless (pc : StartPc) : Prop := ∀ pid, pc = .record pid → pid = -1

/-- The current child's watchdog task has begun, and no other child is forked yet. -/
def Svc.Watching (s : Svc) : Prop :=
  s.tasks = [] ∧
  ((s.main = .idle ∧
    (s.watchdog = .wait s.sshdPid ∨ s.watchdog = .decide s.sshdPid ∨ s.watchdog = .idle ∨
     ∃ pc, s.watchdog = .restart pc ∧ pc.childless)) ∨
   (s.watchdog = .idle ∧ ∃ pc, s.main = .onStartCommand pc ∧ pc.childless))

/-- `sshdStartTime` before the current child's watchdog task has begun. -/
structure Unread (k : Clocks) (s : Timed) : Prop where
  start : s.svc.sshdStartTime = s.past.head?.elim 0 fun p => k.nanoTime p.begun
  order : ∀ p ∈ s.past.head?, p.begun ≤ s.now

/-- The two fields after it has begun. -/
structure Read (k : Clocks) (s : Timed) : Prop where
  start : s.svc.sshdStartTime = k.nanoTime s.current.begun
  duration : s.svc.sshdDuration = s.past.head?.elim 0 fun p =>
    if k.nanoTime p.begun = 0 then 0 else long (k.nanoTime s.current.begun - k.nanoTime p.begun)
  order : ∀ p ∈ s.past.head?, p.begun ≤ s.current.begun
  begun : s.current.begun ≤ s.now

/-- How far the run over successive children has come. -/
inductive Phase (k : Clocks) (s : Timed) : Prop
  | new : s.svc.children = [] → s.svc.watchdog = .idle → s.svc.tasks = [] →
      (∀ pid, s.svc.main = .onStartCommand (.record pid) → pid = -1) →
      s.past = [] → s.svc.sshdStartTime = 0 → Phase k s
  | forked {pid : Int} : s.svc.children ≠ [] → s.svc.Awaiting pid → Unread k s → Phase k s
  | watched : s.svc.children ≠ [] → s.svc.Watching → Read k s → Phase k s

theorem onPid_ne_nil {pid : Int} {f : Child → Child} {cs : List Child} (h : cs ≠ []) :
    onPid pid f cs ≠ [] := by
  simpa [onPid] using h

theorem step_new {k : Clocks} {s t : Timed} {now : Nat} {a : Action}
    (hs : timedStep k s (now, a) = some t) (children : s.svc.children = [])
    (watchdog : s.svc.watchdog = .idle) (tasks : s.svc.tasks = [])
    (main : ∀ pid, s.svc.main = .onStartCommand (.record pid) → pid = -1)
    (past : s.past = []) (start : s.svc.sshdStartTime = 0) : Phase k t := by
  obtain ⟨later, span, reads, svc, done, rfl⟩ := timedStep_some hs
  have idle : ∀ pc, s.svc.starting .watchdog ≠ some pc := by simp [Svc.starting, watchdog]
  cases step_does done with
  | createStale _ _ | create _ _ | startCommand _ | destroy _ | destroyStop _ _ _
  | destroyNone _ _ _ =>
    exact .new children watchdog tasks (by simp) past start
  | createKill _ | destroyKill _ =>
    exact .new (by simp [Svc.signal, onPid, children]) watchdog tasks (by simp) past start
  | @stop t _ ht _ | @stopNone t _ ht _ =>
    cases t with
    | main => exact .new children watchdog tasks (by simp [Svc.goto]) past start
    | watchdog => exact absurd ht (idle _)
  | @kill t pid ht =>
    cases t with
    | main =>
      exact .new (by simp [Svc.goto, Svc.signal, onPid, children]) watchdog tasks
        (by simp [Svc.goto]) past start
    | watchdog => exact absurd ht (idle _)
  | @forkFail t ht =>
    cases t with
    | main => exact .new children watchdog tasks (by simp [Svc.goto]) past start
    | watchdog => exact absurd ht (idle _)
  | @fork t pid ht hp =>
    have positive : 0 < pid := by simp [Svc.pidFree] at hp; exact hp.1
    have real : pid ≠ -1 := by omega
    cases t with
    | main =>
      refine .forked (by simp [Svc.goto, Svc.spawn]) ⟨real, Or.inl ⟨rfl, watchdog, tasks⟩⟩ ?_
      refine ⟨?_, ?_⟩ <;> simp [Timed.note, real, children, past, Svc.goto, Svc.spawn, start]
    | watchdog => exact absurd ht (idle _)
  | @recordFail t _ ht =>
    cases t with
    | main => exact .new children watchdog tasks (by simp [Svc.leave]) past start
    | watchdog => exact absurd ht (idle _)
  | @record t pid hl ht hp =>
    cases t with
    | main =>
      refine absurd (main pid ?_) hp
      simp only [Svc.starting] at ht
      split at ht <;> simp_all
    | watchdog => exact absurd ht (idle _)
  | take hw ht => rw [tasks] at ht; cases ht
  | begin _ hw | waitpid hw _ | restart _ hw _ _ | giveUp _ hw _ _ | stale _ hw _ =>
    rw [watchdog] at hw; cases hw
  | @die pid =>
    have none : s.svc.running pid = false := by simp [Svc.running, children]
    refine .new (by simp [Svc.signal, onPid, children]) watchdog tasks main ?_ start
    simp [Timed.note, none, past]

theorem Unread.later {k : Clocks} {s t : Timed} (h : Unread k s) (later : s.now ≤ t.now)
    (start : t.svc.sshdStartTime = s.svc.sshdStartTime) (past : t.past = s.past) : Unread k t := by
  refine ⟨by rw [start, past, h.start], ?_⟩
  intro p hp
  exact Nat.le_trans (h.order p (past ▸ hp)) later

theorem Read.later {k : Clocks} {s t : Timed} (h : Read k s) (later : s.now ≤ t.now)
    (start : t.svc.sshdStartTime = s.svc.sshdStartTime)
    (duration : t.svc.sshdDuration = s.svc.sshdDuration) (past : t.past = s.past)
    (begun : t.current.begun = s.current.begun) : Read k t := by
  refine ⟨by rw [start, begun, h.start], by rw [duration, past, begun, h.duration], ?_, ?_⟩
  · rw [past, begun]; exact h.order
  · rw [begun]; exact Nat.le_trans h.begun later

/-- The actions that leave the recorded instants of the past children alone. -/
def Action.passing : Action → Bool
  | .begin _ | .onDestroy => false
  | .fork _ pid => pid == -1
  | _ => true

theorem Timed.note_past {s : Timed} {now : Nat} {a : Action} (h : a.passing = true) :
    (s.note now a).past = s.past ∧ (s.note now a).current.begun = s.current.begun := by
  cases a with
  | fork t pid => simp_all [Action.passing, Timed.note]
  | die pid => simp only [Timed.note]; split <;> simp
  | begin _ | onDestroy => simp [Action.passing] at h
  | onCreate _ | onStartCommand | stopSshd _ | kill _ | record _ | take | waitpid | decide _ =>
    exact ⟨rfl, rfl⟩

section
variable {s : Svc} {pid : Int}

theorem Svc.Awaiting.main (h : s.Awaiting pid) :
    s.main = .idle ∨ s.main = .onStartCommand (.record pid) := by
  obtain ⟨-, ⟨hm, -⟩ | ⟨hm, -⟩ | ⟨hm, -⟩ | ⟨hm, -⟩⟩ := h <;> simp [hm]

theorem Svc.Awaiting.watchdog (h : s.Awaiting pid) :
    s.watchdog = .idle ∨ s.watchdog = .begin pid ∨ s.watchdog = .restart (.record pid) := by
  obtain ⟨-, ⟨-, hw, -⟩ | ⟨-, hw, -⟩ | ⟨-, hw, -⟩ | ⟨-, hw, -⟩⟩ := h <;> simp [hw]

theorem Svc.Awaiting.starting (h : s.Awaiting pid) {t : Thread} {pc : StartPc}
    (ht : s.starting t = some pc) : pc = .record pid := by
  cases t with
  | main => rcases h.main with hm | hm <;> simp [Svc.starting, hm] at ht; exact ht.symm
  | watchdog =>
    rcases h.watchdog with hw | hw | hw <;> simp [Svc.starting, hw] at ht; exact ht.symm

end

/-- Until its task begins, only the recording of the child and the start of the
task move the service. -/
theorem Svc.Awaiting.step {s t : Svc} {a : Action} {pid : Int} (h : s.Awaiting pid)
    (start : a = .onStartCommand → s.watchdog = .idle ∧ s.tasks = []) (destroy : a ≠ .onDestroy)
    (hs : Service.step s a = some t) :
    (a.passing = true ∧ t.Awaiting pid ∧ t.sshdStartTime = s.sshdStartTime ∧
      (s.children ≠ [] → t.children ≠ [])) ∨
    ∃ r, a = .begin r ∧ s.main = .idle ∧ s.tasks = [] ∧ s.sshdPid = pid ∧
      t = { s.noteStart r with watchdog := .wait pid } := by
  cases step_does hs with
  | startCommand hm =>
    -- the child has been forked by a start that is still going on, or the watchdog has work
    obtain ⟨hw, ht⟩ := start rfl
    obtain ⟨-, ⟨hm', -⟩ | ⟨-, hw', -⟩ | ⟨-, -, ht', -⟩ | ⟨-, hw', -⟩⟩ := h
    · rw [hm'] at hm; cases hm
    · rw [hw'] at hw; cases hw
    · rw [ht'] at ht; cases ht
    · rw [hw'] at hw; cases hw
  | destroy _ => exact absurd rfl destroy
  | createStale hm _ | create hm _ | destroyStop _ hm _ | destroyNone _ hm _ | createKill hm
  | destroyKill hm => rcases h.main with hm' | hm' <;> rw [hm'] at hm <;> cases hm
  | waitpid hw _ | restart _ hw _ _ | giveUp _ hw _ _ | stale _ hw _ =>
    rcases h.watchdog with hw' | hw' | hw' <;> rw [hw'] at hw <;> cases hw
  | stop _ ht _ | stopNone _ ht _ | kill ht | forkFail ht | fork ht _ => cases h.starting ht
  | recordFail _ ht => cases h.starting ht; exact absurd rfl h.1
  | @record t q hl hq hn =>
    obtain ⟨real, at'⟩ := h
    refine Or.inl ⟨rfl, ⟨real, ?_⟩, ?_, ?_⟩
    · rcases at' with ⟨hm, hw, ht⟩ | ⟨hm, hw, ht⟩ | ⟨hm, hw, ht, hp⟩ | ⟨hm, hw, ht, hp⟩ <;>
        cases t <;> simp [Svc.starting, hm, hw] at hq
      · simp [Svc.leave, hw, ht, hq]
      · simp [Svc.leave, hm, ht, hq]
    · cases t <;> rfl
    · cases t <;> exact id
  | take hw ht =>
    obtain ⟨real, ⟨-, -, ht'⟩ | ⟨-, -, ht'⟩ | ⟨hm, hw', ht', hp⟩ | ⟨-, -, ht', -⟩⟩ := h <;>
      rw [ht'] at ht <;> cases ht
    exact Or.inl ⟨rfl, ⟨real, Or.inr (Or.inr (Or.inr ⟨hm, rfl, rfl, hp⟩))⟩, rfl, id⟩
  | begin hl hw =>
    obtain ⟨real, ⟨-, hw', -⟩ | ⟨-, hw', -⟩ | ⟨-, hw', -⟩ | ⟨hm, hw', ht, hp⟩⟩ := h <;>
      rw [hw'] at hw <;> cases hw
    exact Or.inr ⟨_, rfl, hm, ht, hp, rfl⟩
  | die => exact Or.inl ⟨rfl, h, rfl, onPid_ne_nil⟩

section
variable {s : Svc} {th : Thread} {pc : StartPc}

/-- The other thread has nothing to do. -/
def Svc.Alone (s : Svc) : Thread → Prop
  | .main => s.watchdog = .idle
  | .watchdog => s.main = .idle

theorem Svc.Watching.starting (h : s.Watching) (hp : s.starting th = some pc) :
    pc.childless ∧ s.Alone th := by
  obtain ⟨-, at'⟩ := h
  cases th with
  | main =>
    rcases at' with ⟨hm, -⟩ | ⟨hw, pc', hm, less⟩
    · simp [Svc.starting, hm] at hp
    · simp only [Svc.starting, hm, Option.some.injEq] at hp
      exact ⟨hp ▸ less, hw⟩
  | watchdog =>
    rcases at' with ⟨hm, hw | hw | hw | ⟨pc', hw, less⟩⟩ | ⟨hw, -⟩ <;>
      simp only [Svc.starting, hw, Option.some.injEq, reduceCtorEq] at hp
    exact ⟨hp ▸ less, hm⟩

theorem Svc.Alone.goto (alone : s.Alone th) (tasks : s.tasks = []) (less : pc.childless) :
    (s.goto th pc).Watching := by
  cases th with
  | main => exact ⟨tasks, Or.inr ⟨alone, pc, rfl, less⟩⟩
  | watchdog => exact ⟨tasks, Or.inl ⟨alone, Or.inr (Or.inr (Or.inr ⟨pc, rfl, less⟩))⟩⟩

theorem Svc.Alone.leave (alone : s.Alone th) (tasks : s.tasks = []) : (s.leave th).Watching := by
  cases th with
  | main => exact ⟨tasks, Or.inl ⟨rfl, Or.inr (Or.inr (Or.inl alone))⟩⟩
  | watchdog => exact ⟨tasks, Or.inl ⟨alone, Or.inr (Or.inr (Or.inl rfl))⟩⟩

theorem Svc.Alone.forks {pid : Int} (alone : s.Alone th) (tasks : s.tasks = [])
    (free : s.pidFree pid = true) : ((s.spawn pid).goto th (.record pid)).Awaiting pid := by
  have positive : 0 < pid := by simp [Svc.pidFree] at free; exact free.1
  refine ⟨by omega, ?_⟩
  cases th with
  | main => exact Or.inl ⟨rfl, alone, tasks⟩
  | watchdog => exact Or.inr (Or.inl ⟨alone, rfl, tasks⟩)

end

/-- Once its task has begun, the watchdog waits, decides and perhaps forks again. When it has
given up, the next child comes from the service. -/
theorem Svc.Watching.step {s t : Svc} {a : Action} (h : s.Watching)
    (start : a = .onStartCommand → s.watchdog = .idle) (destroy : a ≠ .onDestroy)
    (hs : Service.step s a = some t) :
    (a.passing = true ∧ t.Watching ∧ t.sshdStartTime = s.sshdStartTime ∧
      t.sshdDuration = s.sshdDuration ∧ (s.children ≠ [] → t.children ≠ [])) ∨
    ∃ th pid, a = .fork th pid ∧ t.Awaiting pid ∧ t.sshdStartTime = s.sshdStartTime ∧
      t.children ≠ [] := by
  obtain ⟨ht, at'⟩ := id h
  cases step_does hs with
  | startCommand hm =>
    exact Or.inl ⟨rfl, ⟨ht, Or.inr ⟨start rfl, _, rfl, by simp [StartPc.childless]⟩⟩, rfl, rfl, id⟩
  | destroy _ => exact absurd rfl destroy
  | createStale hm' _ | create hm' _ | destroyStop _ hm' _ | destroyNone _ hm' _ | createKill hm'
  | destroyKill hm' =>
    rcases at' with ⟨hm, -⟩ | ⟨-, pc, hm, -⟩ <;> rw [hm] at hm' <;> cases hm'
  | @stop th _ hp _ | @stopNone th _ hp _ =>
    obtain ⟨-, alone⟩ := h.starting hp
    have alone' : { s with sshdPid := 0 }.Alone th := by cases th <;> exact alone
    refine Or.inl ⟨rfl, alone'.goto ht (by simp [StartPc.childless]), ?_⟩
    cases th <;> exact ⟨rfl, rfl, id⟩
  | @kill th pid hp =>
    obtain ⟨-, alone⟩ := h.starting hp
    have alone' : (s.signal pid fun c => { c with killed := true }).Alone th := by
      cases th <;> exact alone
    refine Or.inl ⟨rfl, alone'.goto ht (by simp [StartPc.childless]), ?_⟩
    cases th <;> exact ⟨rfl, rfl, onPid_ne_nil⟩
  | @forkFail th hp =>
    obtain ⟨-, alone⟩ := h.starting hp
    refine Or.inl ⟨rfl, alone.goto ht fun pid same => (StartPc.record.inj same).symm, ?_⟩
    cases th <;> exact ⟨rfl, rfl, id⟩
  | @fork th pid hp free =>
    obtain ⟨-, alone⟩ := h.starting hp
    refine Or.inr ⟨th, pid, rfl, alone.forks ht free, ?_⟩
    cases th <;> exact ⟨rfl, by simp [Svc.goto, Svc.spawn]⟩
  | @recordFail th _ hp =>
    obtain ⟨-, alone⟩ := h.starting hp
    have alone' : { s with sshdPid := 0 }.Alone th := by cases th <;> exact alone
    refine Or.inl ⟨rfl, alone'.leave ht, ?_⟩
    cases th <;> exact ⟨rfl, rfl, id⟩
  | record _ hp hn => exact absurd ((h.starting hp).1 _ rfl) hn
  | take _ ht' => rw [ht] at ht'; cases ht'
  | begin _ hw' =>
    rcases at' with ⟨-, hw | hw | hw | ⟨pc, hw, -⟩⟩ | ⟨hw, -⟩ <;> rw [hw'] at hw <;> cases hw
  | waitpid hw' hr =>
    rcases at' with ⟨hm, hw | hw | hw | ⟨pc, hw, -⟩⟩ | ⟨hw, -⟩ <;> rw [hw'] at hw <;> cases hw
    exact Or.inl ⟨rfl, ⟨ht, Or.inl ⟨hm, Or.inr (Or.inl rfl)⟩⟩, rfl, rfl, onPid_ne_nil⟩
  | restart _ hw' _ _ | giveUp _ hw' _ _ | stale _ hw' _ =>
    rcases at' with ⟨hm, -⟩ | ⟨hw, -⟩
    · exact Or.inl ⟨rfl, ⟨ht, Or.inl ⟨hm, by simp [StartPc.childless]⟩⟩, rfl, rfl, id⟩
    · rw [hw] at hw'; cases hw'
  | die => exact Or.inl ⟨rfl, ⟨ht, at'⟩, rfl, rfl, onPid_ne_nil⟩

theorem step_forked {k : Clocks} {s t : Timed} {now : Nat} {a : Action} {pid : Int}
    (hs : timedStep k s (now, a) = some t) (ok : Undisturbed s (now, a))
    (children : s.svc.children ≠ []) (awaiting : s.svc.Awaiting pid) (h : Unread k s) :
    Phase k t := by
  obtain ⟨later, span, reads, svc, done, rfl⟩ := timedStep_some hs
  rcases awaiting.step (fun ha => (ok.2 ha).2) ok.1 done with
    ⟨passing, awaiting, start, kept⟩ | ⟨r, rfl, hm, ht, hp, rfl⟩
  · exact .forked (kept children) awaiting (h.later later start (Timed.note_past passing).1)
  · have now_r : r = k.nanoTime now := by simpa [Clocks.reads] using reads
    refine .watched children ⟨ht, Or.inl ⟨hm, Or.inl (congrArg _ hp.symm)⟩⟩ ⟨now_r, ?_, ?_, Nat.le_refl _⟩
    · simp only [Svc.noteStart, h.start, Timed.note, now_r]
      cases s.past.head? <;> rfl
    · exact fun p hp => Nat.le_trans (h.order p hp) later

theorem step_watched {k : Clocks} {s t : Timed} {now : Nat} {a : Action}
    (hs : timedStep k s (now, a) = some t) (ok : Undisturbed s (now, a))
    (children : s.svc.children ≠ []) (watching : s.svc.Watching) (h : Read k s) :
    Phase k t := by
  obtain ⟨later, span, reads, svc, done, rfl⟩ := timedStep_some hs
  rcases watching.step (fun ha => (ok.2 ha).2.1) ok.1 done with
    ⟨passing, watching, start, duration, kept⟩ | ⟨th, pid, rfl, awaiting, start, kept⟩
  · exact .watched (kept children) watching (h.later later start duration
      (Timed.note_past passing).1 (Timed.note_past passing).2)
  · refine .forked kept awaiting ⟨?_, ?_⟩
    · simp [Timed.note, awaiting.1, children, start, h.start]
    · simpa [Timed.note, awaiting.1, children] using Nat.le_trans h.begun later

theorem step_phase {k : Clocks} {s t : Timed} {x : Nat × Action} (h : Phase k s)
    (ok : Undisturbed s x) (hs : timedStep k s x = some t) : Phase k t := by
  cases h with
  | new children watchdog tasks main past start =>
    exact step_new hs children watchdog tasks main past start
  | forked children awaiting unread => exact step_forked hs ok children awaiting unread
  | watched children watching read => exact step_watched hs ok children watching read

theorem run_phase {k : Clocks} {xs : List (Nat × Action)} {s : Timed}
    (h : Run (timedStep k) Undisturbed {} xs s) : Phase k s :=
  h.invariant (.new rfl rfl rfl (fun _ h => by cases h) rfl rfl) fun _ _ _ => step_phase

/-- Within the span of `nanoTime`, the difference of two readings is the time
between them. -/
theorem long_nanoTime_sub {k : Clocks} {a b : Nat} (hab : a ≤ b) (hb : b < maxSpan) :
    long (k.nanoTime b - k.nanoTime a) = (b - a : Nat) := by
  unfold long Clocks.nanoTime long
  rw [← Int.sub_bmod]
  have : ((b : Int) + k.origin - (a + k.origin)) = (b - a : Nat) := by omega
  rw [this]
  simp only [maxSpan] at hb
  exact Int.bmod_eq_of_le_mul_two (by omega) (by omega)

/-- The watchdog tasks of the last two children began less than 10000 ns apart,
but not at once, the former clock reading was not 0, and the milliseconds of
one clock stand less than 10000 above the nanoseconds of the other. -/
def Quick (k : Clocks) (s : Timed) (now : Nat) : Prop :=
  ∃ p ∈ s.past.head?, k.nanoTime p.begun ≠ 0 ∧
    p.begun < s.current.begun ∧ s.current.begun - p.begun < 10000 ∧
    long (k.currentTimeMillis now - k.nanoTime s.current.begun) < 10000

/-- The test of the watchdog's second block, in terms of the instants. -/
theorem shouldRestart_iff {k : Clocks} {s : Timed} {now : Nat} (h : Read k s)
    (span : s.now < maxSpan) :
    s.svc.shouldRestart (k.currentTimeMillis now) = true ↔ ¬ Quick k s now := by
  simp only [Svc.shouldRestart, minDurationMs, h.duration, h.start, Quick, Bool.or_eq_true,
    decide_eq_true_eq]
  cases hp : s.past.head? with
  | none => simp
  | some p =>
    have before := h.order p hp
    have gap := long_nanoTime_sub (k := k) before (Nat.lt_of_le_of_lt h.begun span)
    by_cases zero : k.nanoTime p.begun = 0
    · simp [zero]
    · simp only [Option.elim_some, zero, if_false, gap, Option.mem_def, Option.some.injEq,
        exists_eq_left', ne_eq, not_false_eq_true, true_and]
      omega

/-- On every run over children that exit by themselves, and at every decision,
the watchdog follows the documented rule exactly at the first start, after a
long run unless the two tasks began in quick succession, and after two short
runs if they did. -/
theorem restart_as_documented_iff {k : Clocks} {xs : List (Nat × Action)} {s t : Timed} {now : Nat}
    {millis : Int} (h : Run (timedStep k) Undisturbed {} xs s)
    (hs : timedStep k s (now, .decide millis) = some t) :
    (t.Restarts ↔ Documented s) ↔
      s.past = [] ∨ (LongRun s ∧ ¬ Quick k s now) ∨ (¬ LongRun s ∧ Quick k s now) := by
  have restarts : t.Restarts ↔ ¬ Quick k s now := by
    obtain ⟨later, span, reads, svc, done, rfl⟩ := timedStep_some hs
    have clock : millis = k.currentTimeMillis now := by simpa [Clocks.reads] using reads
    subst clock
    cases run_phase h with
    | new _ hw _ _ _ _ => simp [step, hw] at done
    | forked _ awaiting _ =>
      rcases awaiting.watchdog with hw | hw | hw <;> simp [step, hw] at done
    | watched _ watching read =>
      rw [← shouldRestart_iff read (Nat.lt_of_le_of_lt later span)]
      cases step_does done with
      | restart hl hw hp hr => simp [Timed.Restarts, hr]
      | giveUp hl hw hp hr => simp [Timed.Restarts, hr]
      | stale hl hw hp =>
        obtain ⟨-, ⟨-, hw' | hw' | hw' | ⟨pc, hw', -⟩⟩ | ⟨hw', -⟩⟩ := watching <;>
          rw [hw'] at hw <;> cases hw
        exact absurd rfl hp
  have first : s.past = [] → ¬ Quick k s now := by
    intro past
    simp [Quick, past]
  rw [restarts, Documented]
  by_cases past : s.past = []
  · simp [past, first past]
  · by_cases ran : LongRun s <;> by_cases quick : Quick k s now <;> simp [past, ran, quick]

/-- Two children in a row that each run for one second. -/
def twoShortRuns : List (Nat × Action) :=
  [(0, .onCreate 0), (0, .onStartCommand), (0, .stopSshd .main), (0, .fork .main 10),
   (0, .record .main), (0, .take), (0, .begin 5), (1000000000, .die 10), (1000000000, .waitpid),
   (1000000000, .decide 1000), (1000000000, .stopSshd .watchdog), (1000000000, .fork .watchdog 11),
   (1000000000, .record .watchdog), (1000000000, .take), (1000000000, .begin 1000000005),
   (2000000000, .die 11), (2000000000, .waitpid)]

def clocks : Clocks := ⟨5, 0⟩

def secondExit : Timed where
  svc :=
    { sshdPid := 11, sshdStartTime := 1000000005, sshdDuration := 1000000000, main := .idle,
      watchdog := .decide 11,
      children := [{ pid := 10, alive := false, reaped := true },
        { pid := 11, alive := false, reaped := true }] }
  now := 2000000000
  current := ⟨1000000000, 1000000000, 2000000000⟩
  past := [⟨0, 0, 1000000000⟩]

def thirdStart : Timed :=
  { secondExit with
    svc := { secondExit.svc with sshdPid := 0, watchdog := .restart (.stop .block) } }

theorem secondExit_reached : Run (timedStep clocks) Undisturbed {} twoShortRuns secondExit :=
  run_of_foldlM (by decide +kernel)

theorem restart_as_documented_iff_second_exit :
    (thirdStart.Restarts ↔ Documented secondExit) ↔
      secondExit.past = [] ∨ (LongRun secondExit ∧ ¬ Quick clocks secondExit 2000000000) ∨
        (¬ LongRun secondExit ∧ Quick clocks secondExit 2000000000) :=
  @restart_as_documented_iff _ _ _ _ _ 2000 secondExit_reached (by decide +kernel)

theorem crash_loop_restarted :
    ¬ ∀ (k : Clocks) (xs : List (Nat × Action)) (s t : Timed) (now : Nat) (millis : Int),
      Run (timedStep k) Undisturbed {} xs s → timedStep k s (now, .decide millis) = some t →
      (t.Restarts ↔ Documented s) := by
  intro claim
  have rule := claim clocks twoShortRuns secondExit thirdStart 2000000000 2000 secondExit_reached
    (by decide +kernel)
  rcases rule.mp rfl with first | ⟨p, hp, long⟩ | long
  · cases first
  · cases hp
    exact absurd long (by decide)
  · exact absurd long (by decide)

end Ikofi.Service
