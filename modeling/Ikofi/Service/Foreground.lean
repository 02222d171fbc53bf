import Ikofi.Lib.Runs

/-!
# Requests for a foreground service

`startService` chooses between `startForegroundService` and `startService`
when the request is made; `onStartCommand` decides whether to call
`startForeground` when the request is delivered, from the preference alone. The
settings screen keeps the preference on while the server starts on boot. It
does so for no other start mode, and it does not look at the requests under way.
-/

namespace Ikofi.Service

open Runs

inductive StartMode
  | byUser
  | byIntent
  | onBoot
  deriving DecidableEq, Repr

/-- `RUN_ON_BOOT` and `RUN_IN_FOREGROUND`, with their defaults. -/
structure Prefs where
  runOnBoot : Bool := false
  runInForeground : Bool := true
  deriving DecidableEq, Repr

inductive Prefs.Key
  | runOnBoot
  | runInForeground
  deriving DecidableEq, Repr

namespace Prefs

def put (p : Prefs) (value : Bool) : Key → Prefs
  | .runOnBoot => { p with runOnBoot := value }
  | .runInForeground => { p with runInForeground := value }

/-- Both keys lead to the same branch. The `setChecked` of the source calls the
listener again, which then finds nothing to do. -/
def onSharedPreferenceChanged (p : Prefs) : Prefs :=
  if p.runOnBoot && !p.runInForeground then { p with runInForeground := true } else p

/-- A switch of the settings screen is flipped: the listener runs on the main
thread before anything else does. -/
def edit (p : Prefs) (value : Bool) (key : Key) : Prefs :=
  (p.put value key).onSharedPreferenceChanged

end Prefs

/-- Whether `startService` goes through `startForegroundService`. -/
def StartMode.foreground (p : Prefs) : StartMode → Bool
  | .byUser => p.runInForeground
  | .byIntent | .onBoot => true

/-- A delivered request: whether it was made with `startForegroundService`, and
whether `onStartCommand` called `startForeground`. -/
structure Delivery where
  requestedForeground : Bool
  startForeground : Bool
  deriving DecidableEq, Repr

/-- `pending` holds the requests not delivered yet, `runInForeground` is the
field of the service that `onStartCommand` stores. -/
structure Requests where
  prefs : Prefs := {}
  pending : List Bool := []
  runInForeground : Bool := true
  delivered : List Delivery := []
  deriving DecidableEq, Repr

/-- `startService` with `accepted` off is a request that the system refused,
with an exception or with a null component name. `onReceive` is `BootReceiver`.
`onStartCommand i` delivers the pending request at place `i`. -/
inductive Requests.Action
  | edit (key : Prefs.Key) (value : Bool)
  | startService (mode : StartMode) (accepted : Bool)
  | onReceive (accepted : Bool)
  | onStartCommand (i : Nat)
  deriving DecidableEq, Repr

namespace Requests

def request (s : Requests) (mode : StartMode) (accepted : Bool) : Requests :=
  if accepted then { s with pending := s.pending ++ [mode.foreground s.prefs] } else s

def deliver (s : Requests) (i : Nat) (foreground : Bool) : Requests :=
  let runInForeground := s.prefs.runInForeground
  { s with
    pending := s.pending.eraseIdx i
    runInForeground := runInForeground
    delivered := s.delivered ++ [⟨foreground, runInForeground⟩] }

def step (s : Requests) : Action → Option Requests
  | .edit key value => some { s with prefs := s.prefs.edit value key }
  | .startService mode accepted => some (s.request mode accepted)
  | .onReceive accepted => if s.prefs.runOnBoot then some (s.request .onBoot accepted) else some s
  | .onStartCommand i => (s.pending[i]?).map (s.deliver i)

/-- Every delivered `startForegroundService` was answered by `startForeground`. -/
def Honoured (s : Requests) : Prop :=
  ∀ d ∈ s.delivered, d.requestedForeground = true → d.startForeground = true

instance (s : Requests) : Decidable s.Honoured := List.decidableBAll _ _

/-- A start by intent or on boot is requested while `RUN_IN_FOREGROUND` is on,
and the preference is not switched off while a request made with
`startForegroundService` is under way. -/
def Timely (s : Requests) : Action → Prop
  | .edit .runInForeground value => value = false → true ∉ s.pending
  | .startService .byIntent _ | .startService .onBoot _ => s.prefs.runInForeground = true
  | _ => True

instance (s : Requests) : (a : Action) → Decidable (s.Timely a)
  | .edit .runInForeground value => inferInstanceAs (Decidable (value = false → true ∉ s.pending))
  | .startService .byIntent _ => inferInstanceAs (Decidable (_ = _))
  | .startService .onBoot _ => inferInstanceAs (Decidable (_ = _))
  | .startService .byUser _ => isTrue trivial
  | .edit .runOnBoot _ => isTrue trivial
  | .onReceive _ => isTrue trivial
  | .onStartCommand _ => isTrue trivial

end Requests

/-- What the settings screen keeps. -/
def Prefs.Coupled (p : Prefs) : Prop := p.runOnBoot = true → p.runInForeground = true

theorem coupled_edit (p : Prefs) (value : Bool) (key : Prefs.Key) : (p.edit value key).Coupled := by
  simp only [Prefs.edit, Prefs.onSharedPreferenceChanged, Prefs.Coupled]
  split
  · exact fun _ => rfl
  · rename_i h
    simpa using h

/-- Only an edit of `RUN_IN_FOREGROUND` itself can switch it off. -/
theorem edit_keeps_foreground {p : Prefs} {value : Bool} {key : Prefs.Key}
    (on : p.runInForeground = true) (h : key = .runInForeground → value = true) :
    (p.edit value key).runInForeground = true := by
  simp only [Prefs.edit, Prefs.onSharedPreferenceChanged]
  split
  · rfl
  · cases key with
    | runOnBoot => exact on
    | runInForeground => exact h rfl

/-- While a foreground request is under way the preference is on. -/
structure Answered (s : Requests) : Prop where
  coupled : s.prefs.Coupled
  pending : true ∈ s.pending → s.prefs.runInForeground = true
  honoured : s.Honoured

theorem Answered.request {s : Requests} {mode : StartMode} {accepted : Bool} (h : Answered s)
    (on : mode = .byUser ∨ s.prefs.runInForeground = true) :
    Answered (s.request mode accepted) := by
  unfold Requests.request
  split
  · refine ⟨h.coupled, ?_, h.honoured⟩
    intro hp
    rcases List.mem_append.mp hp with old | new
    · exact h.pending old
    · rcases on with rfl | on
      · exact (List.mem_singleton.mp new).symm
      · exact on
  · exact h

theorem Answered.deliver {s : Requests} {i : Nat} {foreground : Bool} (h : Answered s)
    (hi : s.pending[i]? = some foreground) : Answered (s.deliver i foreground) := by
  refine ⟨h.coupled, fun hp => h.pending (List.mem_of_mem_eraseIdx hp), ?_⟩
  intro d hd requested
  rcases List.mem_append.mp hd with old | new
  · exact h.honoured d old requested
  · obtain rfl := List.mem_singleton.mp new
    -- the request being delivered is itself under way until this step
    have asked : foreground = true := requested
    rw [asked] at hi
    exact h.pending (List.mem_of_getElem? hi)

theorem step_answered {s t : Requests} {a : Requests.Action} (h : Answered s) (ok : s.Timely a)
    (hs : s.step a = some t) : Answered t := by
  cases a with
  | edit key value =>
    cases hs
    refine ⟨coupled_edit _ _ _, ?_, h.honoured⟩
    intro hp
    refine edit_keeps_foreground (h.pending hp) ?_
    rintro rfl
    cases value with
    | true => rfl
    | false => exact absurd hp (ok rfl)
  | startService mode accepted =>
    cases hs
    refine h.request ?_
    cases mode with
    | byUser => exact .inl rfl
    | byIntent | onBoot => exact .inr ok
  | onReceive accepted =>
    simp only [Requests.step] at hs
    split at hs <;> cases hs
    · rename_i boot
      exact h.request (.inr (h.coupled boot))
    · exact h
  | onStartCommand i =>
    obtain ⟨foreground, hi, rfl⟩ := Option.map_eq_some_iff.mp hs
    exact h.deliver hi

/-- With every request by intent or on boot made while `RUN_IN_FOREGROUND` is
on, and the preference left on until the requests made with it are delivered,
no `startForegroundService` goes unanswered. The requests of `BootReceiver`
need no condition: the settings screen sees to theirs. -/
theorem foreground_honoured {as : List Requests.Action} {s : Requests}
    (h : Run Requests.step Requests.Timely {} as s) : s.Honoured := by
  have start : Answered {} :=
    ⟨fun boot => absurd boot (by decide), fun _ => rfl, by simp [Requests.Honoured]⟩
  exact (h.invariant start fun _ _ _ hi ok hs => step_answered hi ok hs).honoured

/-- A start on boot and one by intent, answered in the other order, and a start
by the user after the preference has been switched off. -/
def startsInEveryMode : List Requests.Action :=
  [.edit .runOnBoot true, .onReceive true, .startService .byIntent true, .onStartCommand 1,
    .onStartCommand 0, .edit .runOnBoot false, .edit .runInForeground false,
    .startService .byUser true, .onStartCommand 0]

def everyModeServed : Requests where
  prefs := { runInForeground := false }
  runInForeground := false
  delivered := [⟨true, true⟩, ⟨true, true⟩, ⟨false, false⟩]

theorem foreground_honoured_in_every_mode : everyModeServed.Honoured :=
  have run : Run Requests.step Requests.Timely {} startsInEveryMode everyModeServed :=
    run_of_foldlM (by decide)
  foreground_honoured run

/-- A start by intent with `RUN_IN_FOREGROUND` off. -/
def intentWithoutForeground : List Requests.Action :=
  [.edit .runInForeground false, .startService .byIntent true, .onStartCommand 0]

def intentUnanswered : Requests where
  prefs := { runInForeground := false }
  runInForeground := false
  delivered := [⟨true, false⟩]

theorem foreground_unanswered :
    ¬ ∀ (as : List Requests.Action) (s : Requests), Reached Requests.step {} as s →
      s.Honoured := by
  intro h
  have run : Reached Requests.step {} intentWithoutForeground intentUnanswered :=
    run_of_foldlM (by decide)
  exact absurd (h _ _ run) (by decide)

end Ikofi.Service
