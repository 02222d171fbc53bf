import Ikofi.Channel.Confined
import Ikofi.Keys.Settings

/-!
# What the options of a key do to its session

Whatever the client asks for on its channels, a forced command is all that is executed, and a
key without terminals gets none.
-/

namespace Ikofi.Channel

open Wire Runs

/-- What a request keeps to, with the command that is forced and the ban on terminals. -/
structure Obeys (c : Config) (ch : ChanSess) (turn : Turn) : Prop where
  execs : ∀ cmd, c.forcedCommand.or c.pubkeyForcedCommand = some cmd → ∀ e ∈ turn.execs,
    runShellCommand c (some cmd) (getUserShell c) = some e
  kills : ∀ cmd, c.forcedCommand.or c.pubkeyForcedCommand = some cmd → turn.kills = []
  pty : c.pubkeyAllowsPty = false → ch.pty = false → turn.ch.pty = false

section
variable {c : Config} {os : Os} {ch : ChanSess} {turn : Turn} {buf : Bytes}

/-- Where nothing is started and no signal sent, only the terminal matters. -/
theorem Obeys.quiet (execs : turn.execs = []) (kills : turn.kills = [])
    (pty : c.pubkeyAllowsPty = false → ch.pty = false → turn.ch.pty = false) :
    Obeys c ch turn := by
  refine ⟨fun _ _ e he => ?_, fun _ _ => kills, pty⟩
  rw [execs] at he
  cases he

theorem failure_obeys : Obeys c ch (failure ch) := .quiet rfl rfl fun _ => id

theorem forceCommand_pty : (forceCommand c ch).pty = ch.pty := by
  unfold forceCommand
  split <;> rfl

theorem forceCommand_cmd {cmd : Bytes}
    (forced : c.forcedCommand.or c.pubkeyForcedCommand = some cmd) :
    (forceCommand c ch).cmd = some cmd := by
  rw [forceCommand, forced]

theorem spawn_obeys : Obeys c ch (spawn c os (forceCommand c ch)) := by
  refine ⟨fun cmd forced e he => ?_, fun _ _ => ?_, fun _ off => ?_⟩
  · have executed := spawn_execs he
    rwa [forceCommand_cmd forced] at executed
  · unfold spawn
    split <;> rfl
  · unfold spawn
    split <;> exact forceCommand_pty.trans off

theorem startCommand_obeys : Obeys c ch (startCommand c os ch) := by
  have turns : ∀ turn : Turn,
      turn = spawn c os (forceCommand c ch) ∨ turn = failure (forceCommand c ch) →
      Obeys c ch (if turn.ret then turn else { turn with ch := { turn.ch with cmd := none } }) := by
    rintro turn (rfl | rfl)
    · have obeys : Obeys c ch (spawn c os (forceCommand c ch)) := spawn_obeys
      split
      · exact obeys
      · exact ⟨obeys.execs, obeys.kills, obeys.pty⟩
    · exact .quiet rfl rfl fun _ off => forceCommand_pty.trans off
  rw [startCommand]
  apply turns
  unfold noptycommand ptycommand
  split <;> split <;> simp

theorem sessioncommand_obeys {iscmd issubsys : Bool}
    (h : sessioncommand c os ch iscmd issubsys buf = .ok turn) : Obeys c ch turn := by
  unfold sessioncommand at h
  split at h
  · cases h
    exact failure_obeys
  split at h
  · obtain ⟨read, -, h⟩ := bind_ok.mp h
    cases read with
    | none =>
      cases h
      exact .quiet rfl rfl fun _ => id
    | some cmd =>
      cases h
      have obeys : Obeys c _ (startCommand c os { ch with cmd := some cmd }) := startCommand_obeys
      exact ⟨obeys.execs, obeys.kills, obeys.pty⟩
  · cases h
    exact startCommand_obeys

theorem sessionpty_obeys (h : sessionpty c os ch buf = .ok turn) : Obeys c ch turn := by
  unfold sessionpty at h
  cases allowed : c.pubkeyAllowsPty with
  | false =>
    rw [allowed] at h
    cases h
    exact failure_obeys
  | true =>
    rw [allowed, if_neg (by decide)] at h
    obtain ⟨⟨term, buf'⟩, -, h⟩ := bind_ok.mp h
    have banned : c.pubkeyAllowsPty = false → ch.pty = false → turn.ch.pty = false := by
      intro off
      rw [allowed] at off
      cases off
    dsimp only at h
    split at h
    · cases h
      exact .quiet rfl rfl banned
    split at h
    · cases h
    split at h
    · cases h
      exact .quiet rfl rfl banned
    · obtain ⟨_, -, h⟩ := bind_ok.mp h
      obtain ⟨_, -, h⟩ := bind_ok.mp h
      cases h
      exact .quiet rfl rfl banned

theorem sessionwinchange_obeys {rest : Bytes} (h : sessionwinchange ch buf = .ok (turn, rest)) :
    Obeys c ch turn := by
  unfold sessionwinchange at h
  split at h
  · obtain ⟨_, -, h⟩ := bind_ok.mp h
    obtain ⟨_, -, h⟩ := bind_ok.mp h
    obtain ⟨_, -, h⟩ := bind_ok.mp h
    obtain ⟨_, -, h⟩ := bind_ok.mp h
    cases h
    exact .quiet rfl rfl fun _ => id
  · cases h
    exact failure_obeys

theorem sessionsignal_obeys (h : sessionsignal c os ch buf = .ok turn) : Obeys c ch turn := by
  obtain ⟨same, none⟩ := sessionsignal_spec h
  refine ⟨fun _ _ e he => ?_, fun cmd forced => ?_, fun _ off => same ▸ off⟩
  · rw [none] at he
    cases he
  · unfold sessionsignal at h
    split at h
    · cases h
      rfl
    · rw [forced, if_pos (show (some cmd).isSome = true from rfl)] at h
      cases h
      rfl

theorem chansessionrequest_obeys {wantreply : Bool}
    (h : chansessionrequest c os ch buf = .ok (turn, wantreply)) : Obeys c ch turn := by
  obtain ⟨⟨type, buf'⟩, -, h⟩ := bind_ok.mp h
  obtain ⟨⟨w, buf''⟩, -, h⟩ := bind_ok.mp h
  obtain ⟨turn', request, h⟩ := bind_ok.mp h
  obtain ⟨rfl, rfl⟩ : turn' = turn ∧ w = wantreply := by
    simpa [pure, Except.pure] using h
  unfold dispatch at request
  split at request
  · cases request
    exact failure_obeys
  split at request
  · cases hwin : sessionwinchange ch buf'' with
    | error e =>
      rw [hwin] at request
      cases request
    | ok x =>
      rw [hwin] at request
      cases request
      exact sessionwinchange_obeys hwin
  split at request
  · exact sessioncommand_obeys request
  split at request
  · exact sessionpty_obeys request
  split at request
  · exact sessioncommand_obeys request
  split at request
  · exact sessioncommand_obeys request
  split at request
  · exact sessionsignal_obeys request
  · cases request
    exact failure_obeys

/-- What holds of a whole session. -/
structure Bound (c : Config) (s : Ses) : Prop where
  execs : ∀ cmd, c.forcedCommand.or c.pubkeyForcedCommand = some cmd → ∀ e ∈ s.execs,
    runShellCommand c (some cmd) (getUserShell c) = some e
  kills : ∀ cmd, c.forcedCommand.or c.pubkeyForcedCommand = some cmd → s.kills = []
  pty : c.pubkeyAllowsPty = false → ∀ ch, some ch ∈ s.channels → ch.pty = false

theorem step_bound {s t : Ses} {ev : Event} (h : Bound c s) (hs : step c s ev = some t) :
    Bound c t := by
  cases ev with
  | opened =>
    cases hs
    refine ⟨h.execs, h.kills, fun off ch hch => ?_⟩
    rcases newchannel_mem hch with rfl | old
    · rfl
    · exact h.pty off ch old
  | removed i =>
    cases hs
    refine ⟨h.execs, h.kills, fun off ch hch => ?_⟩
    rcases List.mem_or_eq_of_mem_set hch with old | bad
    · exact h.pty off ch old
    · cases bad
  | request payload os =>
    have received : recvMsgChannelRequest c os s payload = .ok t := ok_of_toOption hs
    obtain ⟨⟨i, buf⟩, -, received⟩ := bind_ok.mp received
    dsimp only at received
    split at received
    · rename_i ch found
      obtain ⟨⟨turn, wantreply⟩, request, received⟩ := bind_ok.mp received
      have obeys := chansessionrequest_obeys request
      cases received
      refine ⟨fun cmd forced e he => ?_, fun cmd forced => ?_, fun off d hd => ?_⟩
      · rcases List.mem_append.mp he with old | new
        · exact h.execs cmd forced e old
        · exact obeys.execs cmd forced e new
      · dsimp only
        rw [h.kills cmd forced, obeys.kills cmd forced]
        rfl
      · rcases List.mem_or_eq_of_mem_set hd with old | new
        · exact h.pty off d old
        · cases new
          exact obeys.pty off (h.pty off ch (List.mem_of_getElem? found))
    · cases received

theorem run_bound {evs : List Event} {s : Ses} (h : Reached (step c) {} evs s) : Bound c s := by
  have nothing : Bound c {} := by
    refine ⟨fun _ _ e he => ?_, fun _ _ => rfl, fun _ ch hch => ?_⟩
    · cases he
    · cases hch
  exact h.invariant nothing fun _ _ _ before _ hs => step_bound before hs

end

end Ikofi.Channel

namespace Ikofi.Keys

open Channel (runShellCommand getUserShell)
open Runs

/-- The session of a key with these options. -/
def PubKeyOptions.limit (o : PubKeyOptions) (c : Channel.Config) : Channel.Config :=
  { c with pubkeyForcedCommand := o.forcedCommand, pubkeyAllowsPty := !o.noPty }

/-- What the options of a key say of the whole session, whatever options follow them: their
command, unless the server forces another, is the only one that is executed, whatever the
requests, and no signal is sent to it; and where they forbid terminals, no channel gets one. -/
theorem options_enforced {s text : Bytes} {o o' : PubKeyOptions} {c : Channel.Config}
    {evs : List Channel.Event} {ses : Channel.Ses} (h : svrParsePubkeyOptions (some s) = some o)
    (h' : svrParsePubkeyOptions (some text) = some o')
    (starts : text = s ∨ ∃ t, text = s ++ 44 :: t)
    (run : Reached (Channel.step (o'.limit c)) {} evs ses) :
    (∀ cmd, c.forcedCommand.or o.forcedCommand = some cmd →
      (∀ e ∈ ses.execs, runShellCommand c (some cmd) (getUserShell c) = some e) ∧
      ses.kills = []) ∧
    (o.noPty = true → ∀ ch, some ch ∈ ses.channels → ch.pty = false) := by
  have within : o.Within o' := by
    rcases starts with rfl | ⟨t, rfl⟩
    · obtain rfl := Option.some.inj (h.symm.trans h')
      exact .refl o
    · exact restrictions_kept h h'
  have bound := Channel.run_bound run
  refine ⟨fun cmd forced => ?_, fun banned => ?_⟩
  · have still : c.forcedCommand.or o'.forcedCommand = some cmd := by
      cases server : c.forcedCommand with
      | some own =>
        rw [server] at forced
        exact forced
      | none =>
        rw [server] at forced
        exact within.command cmd forced
    exact ⟨bound.execs cmd still, bound.kills cmd still⟩
  · refine bound.pty ?_
    rw [PubKeyOptions.limit, within.pty banned]
    rfl

/-- The options `no-pty,command="id"`, for the examples. -/
def sampleText : Bytes := lit "no-pty,command=\"id\""

def sampleOptions : PubKeyOptions := { noPty := true, forcedCommand := some (lit "id") }

def sampleLimited : Channel.Config :=
  PubKeyOptions.limit { sampleOptions with verifyRequired := true } Channel.sampleConfig

theorem options_enforced_id :
    ∃ ses, Channel.step sampleLimited { channels := [some {}] }
        (.request (Channel.execPayload (lit "ls")) {}) = some ses ∧
      (∀ cmd, Channel.sampleConfig.forcedCommand.or sampleOptions.forcedCommand = some cmd →
        (∀ e ∈ ses.execs, runShellCommand Channel.sampleConfig (some cmd)
          (getUserShell Channel.sampleConfig) = some e) ∧ ses.kills = []) ∧
      (sampleOptions.noPty = true → ∀ ch, some ch ∈ ses.channels → ch.pty = false) := by
  have parsed : svrParsePubkeyOptions (some sampleText) = some sampleOptions := by rfl
  have longer : svrParsePubkeyOptions (some (sampleText ++ 44 :: lit "Verify-Required")) =
    some { sampleOptions with verifyRequired := true } := by rfl
  have opened : Channel.step sampleLimited {} .opened = some { channels := [some {}] } := rfl
  have handled : (Channel.step sampleLimited { channels := [some {}] }
      (.request (Channel.execPayload (lit "ls")) {})).isSome = true := by
    decide +kernel
  obtain ⟨ses, requested⟩ := Option.isSome_iff_exists.mp handled
  exact ⟨ses, requested, options_enforced parsed longer (.inr ⟨_, rfl⟩)
    (.next (.next .start trivial opened) trivial requested)⟩

end Ikofi.Keys
