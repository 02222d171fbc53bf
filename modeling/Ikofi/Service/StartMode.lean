import Ikofi.Service.Foreground
import Ikofi.Service.Running

/-!
# The recorded start mode

`startMode` is static. `startService` writes it before the request is made and
`stopService` clears it at once, while the service follows later, callback by
callback; the death of the app process clears it too, and the system then
creates the service again with a null intent.
-/

namespace Ikofi.Service

open Runs World

/-- A request on its way to the main thread. -/
inductive Message
  | start (mode : StartMode)
  | stop
  deriving DecidableEq, Repr

/-- `delivered` is the mode of the last start request that reached the service. -/
structure Modes where
  world : World := {}
  startMode : Option StartMode := none
  delivered : Option StartMode := none
  queue : List Message := []
  deriving DecidableEq, Repr

/-- `startService` with `accepted` off throws or returns null. `deliver` hands the first
message to the service, `sticky` is `onStartCommand` with a null intent, `world` every other
step of the service and its surroundings. -/
inductive Modes.Action
  | startService (mode : StartMode) (accepted : Bool)
  | stopService
  | deliver
  | sticky
  | world (a : World.Action)
  deriving DecidableEq, Repr

/-- The app process does not survive the step. -/
def World.ends (w : World) : World.Action → Bool
  | .appDeath | .reboot => true
  | .onCreate => match readPidFile w.pidFile with
    | .error _ => true
    | .ok _ => false
  | _ => false

namespace Modes

def startService (s : Modes) (mode : StartMode) (accepted : Bool) : Modes :=
  { s with
    startMode := some mode
    queue := if accepted then s.queue ++ [.start mode] else s.queue }

def stopService (s : Modes) : Modes :=
  { s with startMode := none, queue := s.queue ++ [.stop] }

/-- `MainFragment.onDestroy`. -/
def onDestroy (s : Modes) (keepRunningOnAppExit : Bool) : Modes :=
  if s.startMode = some .byUser ∧ !keepRunningOnAppExit then s.stopService else s

/-- `MainActivity.stopByIntent`. -/
def stopByIntent (s : Modes) : Modes :=
  if !s.world.isRunning then s
  else if s.startMode = some .byIntent then s.stopService else s

def step (s : Modes) : Action → Option Modes
  | .startService mode accepted => some (s.startService mode accepted)
  | .stopService => some s.stopService
  | .deliver =>
    match s.queue with
    | .start mode :: rest =>
      (s.world.step .onStartCommand).map fun w =>
        { s with world := w, delivered := some mode, queue := rest }
    | .stop :: rest =>
      if s.world.main = .absent then some { s with queue := rest }
      else (s.world.step .onDestroy).map fun w => { s with world := w, queue := rest }
    | [] => none
  | .sticky => (s.world.step .onStartCommand).map fun w => { s with world := w }
  | .world .onStartCommand => none
  | .world a =>
    (s.world.step a).map fun w =>
      { s with
        world := w
        startMode := if s.world.ends a then none else s.startMode
        queue := if a = .reboot then [] else s.queue }

/-- While the server runs, the recorded mode is that of the last delivered request; the
fragment does not stop a server of another mode than its own, and a `STOP` intent stops the
one that an intent has started. -/
structure Faithful (s : Modes) : Prop where
  mode : s.world.isRunning = true → s.startMode = s.delivered
  kept : s.world.isRunning = true → s.delivered = some .byIntent ∨ s.delivered = some .onBoot →
    ∀ keep, s.onDestroy keep = s
  stopped : s.world.isRunning = true → s.delivered = some .byIntent →
    s.stopByIntent = s.stopService

/-- `startService` is called in the mode of the requests under way and of the server that
runs. `stopService` is called while no server runs and no start is under way. The process
does not die while a start is under way. A null intent is delivered only if the mode of the
last delivered request has been recorded again. -/
def Orderly (s : Modes) : Action → Prop
  | .startService mode _ => (∀ r ∈ s.queue, r = .stop ∨ r = .start mode) ∧
      (s.world.MayRun → s.delivered = some mode)
  | .stopService => (∀ r ∈ s.queue, r = .stop) ∧ ¬ s.world.MayRun
  | .sticky => s.startMode = s.delivered
  | .world a => s.world.ends a = true → ∀ r ∈ s.queue, r = .stop
  | .deliver => True

instance (s : Modes) : (a : Action) → Decidable (s.Orderly a)
  | .startService _ _ => inferInstanceAs (Decidable (_ ∧ _))
  | .stopService => inferInstanceAs (Decidable (_ ∧ _))
  | .sticky => inferInstanceAs (Decidable (_ = _))
  | .world a => inferInstanceAs (Decidable (s.world.ends a = true → _))
  | .deliver => isTrue trivial

end Modes

theorem absent_of_ends {w u : World} {a : World.Action} (ends : w.ends a = true)
    (hs : w.step a = some u) : u.main = .absent := by
  cases a with
  | appDeath | reboot =>
    cases hs
    rfl
  | onCreate =>
    simp only [World.ends] at ends
    simp only [World.step] at hs
    split at hs
    · split at hs
      · cases hs
        rfl
      · rename_i hr
        rw [hr] at ends
        cases ends
    · cases hs
  | _ => cases ends

/-- The recorded mode is that of every start under way, and of a server that runs or is
being started. -/
structure Modes.InStep (s : Modes) : Prop where
  tracked : s.world.Tracked
  indexed : s.world.Indexed
  mode : s.world.MayRun → s.startMode = s.delivered
  queued : ∀ m, .start m ∈ s.queue → s.startMode = some m

section
variable {s s' : Modes} {w : World}

/-- A step of the world that delivers no start request and leaves the app process alive. -/
theorem Modes.InStep.move {a : World.Action} {queue : List Message} (h : s.InStep)
    (other : a ≠ .onStartCommand) (hs : s.world.step a = some w) (fewer : queue ⊆ s.queue) :
    Modes.InStep { s with world := w, queue := queue } :=
  ⟨World.step_tracked h.tracked hs, World.step_indexed h.indexed hs,
    fun may => h.mode (World.step_mayRun h.tracked h.indexed other hs may),
    fun m hm => h.queued m (fewer hm)⟩

theorem Modes.InStep.ended {a : World.Action} {queue : List Message} (h : s.InStep)
    (ends : s.world.ends a = true) (hs : s.world.step a = some w) (stops : ∀ r ∈ queue, r = .stop) :
    Modes.InStep { s with world := w, startMode := none, queue := queue } := by
  refine ⟨World.step_tracked h.tracked hs, World.step_indexed h.indexed hs, ?_, ?_⟩
  · intro may
    exact absurd (absent_of_ends ends hs) may.1
  · intro m hm
    cases stops _ hm

theorem Modes.step_inStep {a : Modes.Action} (h : s.InStep) (ok : s.Orderly a)
    (hs : s.step a = some s') : s'.InStep := by
  cases a with
  | startService mode accepted =>
    cases hs
    refine ⟨h.tracked, h.indexed, fun may => (ok.2 may).symm, ?_⟩
    intro m hm
    have known : ∀ r ∈ s.queue ++ [.start mode], r = .stop ∨ r = .start mode := by
      intro r hr
      rcases List.mem_append.mp hr with hr | hr
      · exact ok.1 r hr
      · exact Or.inr (List.mem_singleton.mp hr)
    have mem : .start m ∈ s.queue ++ [.start mode] := by
      cases accepted with
      | true => exact hm
      | false => exact List.mem_append_left _ hm
    rcases known _ mem with stop | same
    · cases stop
    · cases same
      rfl
  | stopService =>
    cases hs
    refine ⟨h.tracked, h.indexed, fun may => absurd may ok.2, ?_⟩
    intro m hm
    rcases List.mem_append.mp hm with hm | hm
    · cases ok.1 _ hm
    · cases List.mem_singleton.mp hm
  | deliver =>
    simp only [Modes.step] at hs
    split at hs
    · rename_i mode rest queue
      obtain ⟨w, hw, rfl⟩ := Option.map_eq_some_iff.mp hs
      have recorded : s.startMode = some mode := h.queued mode (by simp [queue])
      refine ⟨World.step_tracked h.tracked hw, World.step_indexed h.indexed hw,
        fun _ => recorded, ?_⟩
      intro m hm
      exact h.queued m (queue ▸ List.mem_cons_of_mem _ hm)
    · rename_i rest queue
      have fewer : rest ⊆ s.queue := queue ▸ List.subset_cons_self _ _
      split at hs
      · cases hs
        exact ⟨h.tracked, h.indexed, h.mode, fun m hm => h.queued m (fewer hm)⟩
      · obtain ⟨w, hw, rfl⟩ := Option.map_eq_some_iff.mp hs
        exact h.move (by simp) hw fewer
    · cases hs
  | sticky =>
    obtain ⟨w, hw, rfl⟩ := Option.map_eq_some_iff.mp hs
    exact ⟨World.step_tracked h.tracked hw, World.step_indexed h.indexed hw, fun _ => ok, h.queued⟩
  | world a =>
    have moved : a ≠ .onStartCommand ∧ ∃ w, s.world.step a = some w ∧
        { s with
          world := w
          startMode := if s.world.ends a then none else s.startMode
          queue := if a = .reboot then [] else s.queue } = s' := by
      cases a with
      | onStartCommand => cases hs
      | _ => exact ⟨by simp, Option.map_eq_some_iff.mp hs⟩
    obtain ⟨other, w, hw, rfl⟩ := moved
    have fewer : (if a = .reboot then [] else s.queue) ⊆ s.queue := by
      split
      · exact List.nil_subset _
      · exact List.Subset.refl _
    by_cases ends : s.world.ends a = true
    · rw [if_pos ends]
      exact h.ended ends hw fun r hr => ok ends r (fewer hr)
    · rw [if_neg ends]
      exact h.move other hw fewer

theorem mayRun_of_isRunning {w : World} (h : w.isRunning = true) : w.MayRun := by
  unfold World.isRunning at h
  split at h
  · cases h
  · cases h
  · rename_i other _
    exact ⟨other, Or.inl (of_decide_eq_true h)⟩

theorem Modes.InStep.faithful (h : s.InStep) : s.Faithful := by
  have mode : s.world.isRunning = true → s.startMode = s.delivered :=
    fun running => h.mode (mayRun_of_isRunning running)
  refine ⟨mode, ?_, ?_⟩
  · intro running other keep
    rw [Modes.onDestroy, mode running]
    rcases other with other | other <;> simp [other]
  · intro running intent
    simp [Modes.stopByIntent, running, mode running, intent]

end

/-- In a run where each start has the mode of the requests under way and of the server that
runs, where a stop is requested only if there is no server to stop, and where no null intent
finds another mode than that of the last request, the recorded mode is that of the running
server. -/
theorem start_mode_faithful {as : List Modes.Action} {s : Modes}
    (h : Run Modes.step Modes.Orderly {} as s) : s.Faithful := by
  have start : Modes.InStep {} := by
    refine ⟨tracked_without_app (by simp), ⟨by simp, by simp, by simp⟩, fun _ => rfl, by simp⟩
  exact (h.invariant start fun _ _ _ hi ok hs => Modes.step_inStep hi ok hs).faithful

/-- A start by intent, up to the running server. -/
def startedByIntent : List Modes.Action :=
  [.startService .byIntent true, .world .onCreate, .deliver, .world (.stopSshd .main),
    .world (.fork .main 10), .world (.record .main)]

def runningByIntent : Modes where
  world :=
    { instances := [{ sshdPid := 10 }]
      main := .idle
      tasks := [(0, 10)]
      procs := [{ pid := 10, dropbear := true, child := true }] }
  startMode := some .byIntent
  delivered := some .byIntent

theorem start_mode_faithful_by_intent :
    runningByIntent.world.isRunning = true ∧ runningByIntent.startMode = runningByIntent.delivered ∧
      runningByIntent.stopByIntent = runningByIntent.stopService :=
  have run : Run Modes.step Modes.Orderly {} startedByIntent runningByIntent :=
    run_of_foldlM (by decide)
  have faithful := start_mode_faithful run
  ⟨rfl, faithful.mode rfl, faithful.stopped rfl rfl⟩

/-- The app process is killed, and the system creates the service again. -/
def killedAndRecreated : List Modes.Action :=
  startedByIntent ++ [.world .appDeath, .world .onCreate, .sticky, .world (.stopSshd .main),
    .world (.fork .main 11), .world (.record .main)]

def runningWithoutMode : Modes where
  world :=
    { instances := [{ sshdPid := 11 }]
      main := .idle
      tasks := [(0, 11)]
      procs := [{ pid := 10, dropbear := true }, { pid := 11, dropbear := true, child := true }] }
  delivered := some .byIntent

theorem start_mode_lost :
    ¬ ∀ (as : List Modes.Action) (s : Modes), Reached Modes.step {} as s → s.Faithful := by
  intro claim
  have run : Reached Modes.step {} killedAndRecreated runningWithoutMode :=
    run_of_foldlM (by decide)
  exact absurd ((claim _ _ run).mode rfl) (by decide)

end Ikofi.Service
