import Ikofi.Channel.Session
import Ikofi.Lib.Runs

/-!
# Which programs a session starts without shell access

`run_shell_command` asks for shell access only where there is no command. With a
command it hands the text to the user's shell, translated or not, and the shell
reads it as any other. So the session starts nothing but the bundled programs as
long as each command is one of theirs and its words are a simple command line.
-/

namespace Ikofi.Channel

open Wire Runs Posix

/-- The programs for transferring files. -/
def bundled (c : Config) : List Bytes :=
  [c.libPath ++ lit "/libscp.so", c.libPath ++ lit "/librsync.so", c.libPath ++ lit "/libsftp-server.so"]

/-- The user's shell is started for one command text, and starts only bundled programs. -/
def Confined (shell : Shell) (c : Config) (e : Exec) : Prop :=
  ∃ text, e.argv = [basename (getUserShell c), lit "-c", text] ∧
    ∀ p ∈ shell.runs text, p ∈ bundled c

/-- The command is `sftp-server`, whatever follows it, or `scp` or `rsync` with words
that the shell takes as arguments. -/
def Transfer (cmd : Bytes) : Prop :=
  lit "sftp-server" <+: cmd ∨
  ∃ rest, (cmd = lit "scp " ++ rest ∨ cmd = lit "rsync " ++ rest) ∧ isSimple rest = true

/-- The payload is an `exec` request on channel `i` for the command `cmd`. -/
def ExecRequest (payload : Bytes) (i : Nat) (cmd : Bytes) : Prop :=
  ∃ buf type buf' wantreply buf'' rest, bufGetInt payload = .ok (i, buf) ∧
    bufGetString buf = .ok (type, buf') ∧ type.length ≤ maxNameLen ∧ cstr type = lit "exec" ∧
    bufGetBool buf' = .ok (wantreply, buf'') ∧ bufGetString buf'' = .ok (cmd, rest)

/-- A command for a channel that has no child yet is a transfer. -/
def Transfers (s : Ses) : Event → Prop
  | .request payload _ => ∀ i cmd ch, ExecRequest payload i cmd → s.channels[i]? = some (some ch) →
      ch.pid = none → Transfer (cstr cmd)
  | .opened | .removed _ => True

section
variable {c : Config} {shell : Shell}

theorem confined_of_runs {text : Bytes} (h : ∀ p ∈ shell.runs text, p ∈ bundled c) :
    Confined shell c ⟨getUserShell c, [basename (getUserShell c), lit "-c", text]⟩ :=
  ⟨text, rfl, h⟩

/-- A bundled program with simple words after it is the only program that is run. -/
theorem runs_bundled {lib words : Bytes} (member : c.libPath ++ lib ∈ bundled c)
    (plain : lib.all isPlain = true) (blank : words = [] ∨ words.head? = some 32)
    (simple : isSimple words = true) :
    ∀ p ∈ shell.runs (c.libPath ++ lib ++ words), p ∈ bundled c := by
  intro p hp
  rw [shell.simple _ _ (isPath_append c.installed plain) blank simple p hp]
  exact member

theorem libPath_absolute : ∃ rest, c.libPath = 47 :: rest := by
  have path := c.installed
  unfold isPath at path
  rw [Bool.and_eq_true, beq_iff_eq] at path
  exact List.head?_eq_some_iff.mp path.1

/-- An installed library keeps its path when it is translated again. -/
theorem exeToLib_installed {tail : Bytes} :
    ikofiExeToLib c.libPath (c.libPath ++ tail) = c.libPath ++ tail := by
  obtain ⟨rest, hr⟩ := libPath_absolute (c := c)
  rw [hr]
  rfl

theorem transfer_runs {cmd : Bytes} (h : Transfer cmd) :
    ∀ p ∈ shell.runs (ikofiExeToLib c.libPath cmd), p ∈ bundled c := by
  rcases h with ⟨rest, rfl⟩ | ⟨rest, rfl | rfl, simple⟩
  · have text : ikofiExeToLib c.libPath (lit "sftp-server" ++ rest) =
        c.libPath ++ lit "/libsftp-server.so" ++ [] := by
      rw [List.append_nil]
      rfl
    rw [text]
    exact runs_bundled (by simp [bundled]) (by decide) (Or.inl rfl) rfl
  · have text : ikofiExeToLib c.libPath (lit "scp " ++ rest) =
        c.libPath ++ lit "/libscp.so" ++ 32 :: rest := by
      change c.libPath ++ (lit "/libscp.so" ++ [32]) ++ rest = _
      simp
    rw [text]
    exact runs_bundled (by simp [bundled]) (by decide) (Or.inr rfl) (isSimple_blank ▸ simple)
  · have text : ikofiExeToLib c.libPath (lit "rsync " ++ rest) =
        c.libPath ++ lit "/librsync.so" ++ 32 :: rest := by
      change c.libPath ++ (lit "/librsync.so" ++ [32]) ++ rest = _
      simp
    rw [text]
    exact runs_bundled (by simp [bundled]) (by decide) (Or.inr rfl) (isSimple_blank ▸ simple)

end

/-- A channel without a child has no command waiting. -/
def Idle (ch : ChanSess) : Prop := ch.pid = none → ch.cmd = none

section
variable {c : Config} {os : Os} {ch : ChanSess} {turn : Turn} {buf : Bytes}

theorem spawn_execs {e : Exec} (h : e ∈ (spawn c os ch).execs) :
    runShellCommand c ch.cmd (getUserShell c) = some e := by
  unfold spawn at h
  split at h
  · cases h
  · rw [Option.mem_toList] at h
    unfold execchild at h
    split at h
    · exact h
    · cases h

theorem spawn_pid (h : (spawn c os ch).ret = true) : (spawn c os ch).ch.pid ≠ none := by
  unfold spawn at *
  split at h
  · cases h
  · simp

/-- A command that is not forced is executed as it is, once, or not at all. -/
theorem startCommand_spec (os : Os) (ch : ChanSess)
    (free : c.forcedCommand.or c.pubkeyForcedCommand = none) :
    Idle (startCommand c os ch).ch ∧
    ∀ e ∈ (startCommand c os ch).execs, runShellCommand c ch.cmd (getUserShell c) = some e := by
  have same : forceCommand c ch = ch := by rw [forceCommand, free]
  have turns : ∀ turn : Turn, (turn = spawn c os ch ∨ turn = failure ch) →
      Idle (if turn.ret then turn else { turn with ch := { turn.ch with cmd := none } }).ch ∧
      ∀ e ∈ (if turn.ret then turn else { turn with ch := { turn.ch with cmd := none } }).execs,
        runShellCommand c ch.cmd (getUserShell c) = some e := by
    rintro turn (rfl | rfl)
    · split
      · rename_i started
        exact ⟨fun none => absurd none (spawn_pid started), fun e => spawn_execs⟩
      · exact ⟨fun _ => rfl, fun e => spawn_execs⟩
    · exact ⟨fun _ => rfl, by simp [failure]⟩
  rw [startCommand, same]
  apply turns
  unfold noptycommand ptycommand
  split <;> split <;> simp

theorem requestedCommand_exec {cmd : Bytes} (idle : ch.cmd = none)
    (h : requestedCommand c ch false buf = .ok (some cmd)) :
    ∃ text rest, bufGetString buf = .ok (text, rest) ∧ cmd = cstr text := by
  obtain ⟨read, hr, h⟩ := bind_ok.mp h
  rw [readCommand, idle] at hr
  obtain ⟨⟨text, rest⟩, got, hr⟩ := bind_ok.mp hr
  refine ⟨text, rest, got, ?_⟩
  cases read with
  | none => cases h
  | some x =>
    obtain ⟨x, n⟩ := x
    simp only [pure, Except.pure, Except.ok.injEq] at hr
    split at hr
    · cases hr
    · cases hr
      cases h
      rfl

/-- The only subsystem is the library for `sftp-server`. -/
theorem requestedCommand_subsystem {cmd : Bytes}
    (h : requestedCommand c ch true buf = .ok (some cmd)) :
    cmd = c.libPath ++ lit "/libsftp-server.so" := by
  obtain ⟨read, -, h⟩ := bind_ok.mp h
  obtain ⟨rest, hr⟩ := libPath_absolute (c := c)
  have path : expandHomedirPath c.home (ikofiExeToLib c.libPath (lit "sftp-server")) =
      c.libPath ++ lit "/libsftp-server.so" := by
    rw [hr]
    unfold expandHomedirPath
    split <;> rfl
  cases read with
  | none => cases h
  | some x =>
    simp only [if_true, pure, Except.pure, path] at h
    split at h
    · cases h
      rfl
    · cases h

theorem sessioncommand_spec {iscmd issubsys : Bool}
    (free : c.forcedCommand.or c.pubkeyForcedCommand = none) (idle : Idle ch)
    (h : sessioncommand c os ch iscmd issubsys buf = .ok turn) :
    Idle turn.ch ∧ ∀ e ∈ turn.execs, ch.pid = none ∧
      ((iscmd = false ∧ runShellCommand c none (getUserShell c) = some e) ∨
      (iscmd = true ∧ ∃ cmd, requestedCommand c ch issubsys buf = .ok (some cmd) ∧
        runShellCommand c (some cmd) (getUserShell c) = some e)) := by
  unfold sessioncommand at h
  split at h
  · rename_i running
    cases h
    exact ⟨idle, by simp [failure]⟩
  · rename_i running
    have pid : ch.pid = none := by simpa using running
    split at h
    · rename_i command
      obtain ⟨read, hr, h⟩ := bind_ok.mp h
      cases read with
      | none =>
        cases h
        exact ⟨fun _ => rfl, by simp [failure]⟩
      | some cmd =>
        cases h
        obtain ⟨after, execs⟩ := startCommand_spec os { ch with cmd := some cmd } free
        exact ⟨after, fun e he => ⟨pid, Or.inr ⟨command, cmd, hr, execs e he⟩⟩⟩
    · rename_i command
      cases h
      obtain ⟨after, execs⟩ := startCommand_spec os ch free
      rw [idle pid] at execs
      exact ⟨after, fun e he => ⟨pid, Or.inl ⟨by simpa using command, execs e he⟩⟩⟩

theorem sessionpty_spec (idle : Idle ch) (h : sessionpty c os ch buf = .ok turn) :
    Idle turn.ch ∧ turn.execs = [] := by
  unfold sessionpty at h
  split at h
  · cases h
    exact ⟨idle, rfl⟩
  · obtain ⟨⟨term, buf'⟩, -, h⟩ := bind_ok.mp h
    dsimp only at h
    split at h
    · cases h
      exact ⟨idle, rfl⟩
    · split at h
      · cases h
      · split at h
        · cases h
          exact ⟨idle, rfl⟩
        · obtain ⟨_, -, h⟩ := bind_ok.mp h
          obtain ⟨_, -, h⟩ := bind_ok.mp h
          cases h
          exact ⟨idle, rfl⟩

theorem sessionwinchange_spec {rest : Bytes} (h : sessionwinchange ch buf = .ok (turn, rest)) :
    turn.ch = ch ∧ turn.execs = [] := by
  unfold sessionwinchange at h
  split at h
  · obtain ⟨_, -, h⟩ := bind_ok.mp h
    obtain ⟨_, -, h⟩ := bind_ok.mp h
    obtain ⟨_, -, h⟩ := bind_ok.mp h
    obtain ⟨_, -, h⟩ := bind_ok.mp h
    cases h
    exact ⟨rfl, rfl⟩
  · cases h
    exact ⟨rfl, rfl⟩

theorem sessionsignal_spec (h : sessionsignal c os ch buf = .ok turn) :
    turn.ch = ch ∧ turn.execs = [] := by
  unfold sessionsignal at h
  split at h
  · cases h
    exact ⟨rfl, rfl⟩
  · split at h
    · cases h
      exact ⟨rfl, rfl⟩
    · obtain ⟨⟨signame, _⟩, -, h⟩ := bind_ok.mp h
      dsimp only at h
      split at h
      · cases h
        exact ⟨rfl, rfl⟩
      · cases h
        exact ⟨rfl, rfl⟩

end

section
variable {c : Config} {shell : Shell}

/-- Without shell access and forced commands, a request on an idle channel starts only
bundled programs, if a command in it is a transfer. -/
theorem chansessionrequest_confined (shell : Shell) {os : Os} {ch : ChanSess} {turn : Turn}
    {buf : Bytes} {wantreply : Bool} (off : c.enableServiceShellAccess = false)
    (free : c.forcedCommand.or c.pubkeyForcedCommand = none) (idle : Idle ch)
    (transfer : ∀ type buf' w buf'' cmd rest, bufGetString buf = .ok (type, buf') →
      type.length ≤ maxNameLen → cstr type = lit "exec" → bufGetBool buf' = .ok (w, buf'') →
      bufGetString buf'' = .ok (cmd, rest) → ch.pid = none → Transfer (cstr cmd))
    (h : chansessionrequest c os ch buf = .ok (turn, wantreply)) :
    Idle turn.ch ∧ ∀ e ∈ turn.execs, Confined shell c e := by
  obtain ⟨⟨type, buf'⟩, hr, h⟩ := bind_ok.mp h
  obtain ⟨⟨w, buf''⟩, hw, h⟩ := bind_ok.mp h
  obtain ⟨turn', request, h⟩ := bind_ok.mp h
  obtain ⟨rfl, rfl⟩ : turn' = turn ∧ w = wantreply := by
    simpa [pure, Except.pure] using h
  unfold dispatch at request
  split at request
  · cases request
    exact ⟨idle, by simp [failure]⟩
  rename_i short
  split at request
  · cases hwin : sessionwinchange ch buf'' with
    | error e => rw [hwin] at request; cases request
    | ok x =>
      rw [hwin] at request
      cases request
      obtain ⟨same, none⟩ := sessionwinchange_spec hwin
      exact ⟨same ▸ idle, by simp [none]⟩
  split at request
  · obtain ⟨after, execs⟩ := sessioncommand_spec free idle request
    refine ⟨after, fun e he => ?_⟩
    obtain ⟨-, ⟨-, shellOnly⟩ | ⟨bad, -⟩⟩ := execs e he
    · simp [runShellCommand, off] at shellOnly
    · cases bad
  split at request
  · obtain ⟨after, none⟩ := sessionpty_spec idle request
    exact ⟨after, by simp [none]⟩
  split at request
  · rename_i exec
    obtain ⟨after, execs⟩ := sessioncommand_spec free idle request
    refine ⟨after, fun e he => ?_⟩
    obtain ⟨pid, ⟨bad, -⟩ | ⟨-, cmd, read, run⟩⟩ := execs e he
    · cases bad
    · obtain ⟨text, rest, got, rfl⟩ := requestedCommand_exec (idle pid) read
      cases run
      exact confined_of_runs
        (transfer_runs (transfer _ _ _ _ _ _ hr (Nat.not_lt.mp short) exec hw got pid))
  split at request
  · obtain ⟨after, execs⟩ := sessioncommand_spec free idle request
    refine ⟨after, fun e he => ?_⟩
    obtain ⟨-, ⟨bad, -⟩ | ⟨-, cmd, read, run⟩⟩ := execs e he
    · cases bad
    · obtain rfl := requestedCommand_subsystem read
      cases run
      rw [exeToLib_installed]
      apply confined_of_runs
      rw [← List.append_nil (c.libPath ++ _)]
      exact runs_bundled (by simp [bundled]) (by decide) (Or.inl rfl) rfl
  split at request
  · obtain ⟨same, none⟩ := sessionsignal_spec request
    exact ⟨same ▸ idle, by simp [none]⟩
  · cases request
    exact ⟨idle, by simp [failure]⟩

/-- Every channel is idle or has its child, and everything executed so far is confined. -/
structure Safe (shell : Shell) (c : Config) (s : Ses) : Prop where
  idle : ∀ ch, some ch ∈ s.channels → Idle ch
  confined : ∀ e ∈ s.execs, Confined shell c e

theorem newchannel_mem {ch d : ChanSess} {cs : List (Option ChanSess)}
    (h : some d ∈ newchannel ch cs) : d = ch ∨ some d ∈ cs := by
  fun_induction newchannel ch cs with
  | case1 => simp_all
  | case2 cs => simp_all
  | case3 e cs ih =>
    rcases List.mem_cons.mp h with same | h
    · exact Or.inr (by simp [same])
    · exact (ih h).imp_right (List.mem_cons_of_mem _)

theorem step_safe {s t : Ses} {ev : Event} (off : c.enableServiceShellAccess = false)
    (free : c.forcedCommand.or c.pubkeyForcedCommand = none) (h : Safe shell c s)
    (ok : Transfers s ev) (hs : step c s ev = some t) : Safe shell c t := by
  cases ev with
  | opened =>
    cases hs
    refine ⟨fun ch hch => ?_, h.confined⟩
    rcases newchannel_mem hch with rfl | old
    · exact fun _ => rfl
    · exact h.idle ch old
  | removed i =>
    cases hs
    refine ⟨fun ch hch => ?_, h.confined⟩
    rcases List.mem_or_eq_of_mem_set hch with old | bad
    · exact h.idle ch old
    · cases bad
  | request payload os =>
    have received : recvMsgChannelRequest c os s payload = .ok t := ok_of_toOption hs
    obtain ⟨⟨i, buf⟩, hi, received⟩ := bind_ok.mp received
    dsimp only at received
    split at received
    · rename_i ch found
      obtain ⟨⟨turn, wantreply⟩, request, received⟩ := bind_ok.mp received
      have idle : Idle ch := h.idle ch (List.mem_of_getElem? found)
      obtain ⟨after, execs⟩ := chansessionrequest_confined shell off free idle
        (fun type buf' w buf'' cmd rest hr short exec hw got pid =>
          ok i cmd ch ⟨buf, type, buf', w, buf'', rest, hi, hr, short, exec, hw, got⟩ found pid)
        request
      cases received
      refine ⟨fun d hd => ?_, fun e he => ?_⟩
      · rcases List.mem_or_eq_of_mem_set hd with old | new
        · exact h.idle d old
        · cases new
          exact after
      · rcases List.mem_append.mp he with old | new
        · exact h.confined e old
        · exact execs e new
    · cases received

/-- Without shell access and forced commands, every session whose commands are all
transfers starts only the bundled programs. -/
theorem shell_access_confined {evs : List Event} {s : Ses}
    (off : c.enableServiceShellAccess = false) (forced : c.forcedCommand = none)
    (pubkey : c.pubkeyForcedCommand = none) (h : Run (step c) Transfers {} evs s) :
    ∀ e ∈ s.execs, Confined shell c e := by
  have free : c.forcedCommand.or c.pubkeyForcedCommand = none := by rw [forced, pubkey]; rfl
  have safe : Safe shell c s :=
    h.invariant (I := Safe shell c) ⟨by simp, by simp⟩
      fun _ _ _ before ok hs => step_safe off free before ok hs
  exact safe.confined

end

/-- A device with shell access off, for the examples. -/
def sampleConfig : Config where
  libPath := lit "/data/app/lib"
  installed := by decide
  shellExe := lit "/system/bin/sh"
  home := none
  enableServiceShellAccess := false

/-- An `exec` request on the first channel. -/
def execPayload (cmd : Bytes) : Bytes := store32 0 ++ (putString (lit "exec") ++ 1 :: putString cmd)

theorem execRequest_execPayload {cmd text : Bytes} {i : Nat} (short : cmd.length ≤ maxStringLen)
    (h : ExecRequest (execPayload cmd) i text) : text = cmd := by
  obtain ⟨buf, type, buf', w, buf'', rest, channel, name, -, -, reply, read⟩ := h
  rw [execPayload, bufGetInt_store32] at channel
  obtain ⟨-, rfl⟩ := Prod.mk.inj (Except.ok.inj channel)
  rw [bufGetString_putString (by decide)] at name
  obtain ⟨-, rfl⟩ := Prod.mk.inj (Except.ok.inj name)
  cases reply
  have got := bufGetString_putString short []
  rw [List.append_nil, read] at got
  exact (Prod.mk.inj (Except.ok.inj got)).1

/-- The session after a command on its only channel. -/
def afterCommand (cmd : Bytes) : Ses where
  channels := [some { cmd := some cmd, pid := some 1 }]
  execs := [⟨lit "/system/bin/sh", [lit "sh", lit "-c", ikofiExeToLib (lit "/data/app/lib") cmd]⟩]
  replies := [(0, true)]

theorem shell_access_confined_scp :
    Confined firstWord sampleConfig ⟨lit "/system/bin/sh",
      [lit "sh", lit "-c", lit "/data/app/lib/libscp.so -t x"]⟩ := by
  have opened : step sampleConfig {} .opened = some { channels := [some {}] } := rfl
  have requested : step sampleConfig { channels := [some {}] }
      (.request (execPayload (lit "scp -t x")) {}) = some (afterCommand (lit "scp -t x")) := by
    decide +kernel
  have transfers : Transfers { channels := [some {}] }
      (.request (execPayload (lit "scp -t x")) {}) := by
    intro i cmd ch request _ _
    rw [execRequest_execPayload (by decide) request]
    exact Or.inr ⟨lit "-t x", Or.inl (by decide), by decide⟩
  have first : Transfers {} .opened := trivial
  exact shell_access_confined rfl rfl rfl (.next (.next .start first opened) transfers requested) _
    (by decide +kernel)

/-- The command `id` is given to the shell as it is. -/
theorem exec_runs_other_program :
    ¬ ∀ (shell : Shell) (c : Config) (evs : List Event) (s : Ses),
      c.enableServiceShellAccess = false → c.forcedCommand = none →
      c.pubkeyForcedCommand = none → Reached (step c) {} evs s →
      ∀ e ∈ s.execs, Confined shell c e := by
  intro claim
  have opened : step sampleConfig {} .opened = some { channels := [some {}] } := rfl
  have requested : step sampleConfig { channels := [some {}] }
      (.request (execPayload (lit "id")) {}) = some (afterCommand (lit "id")) := by
    decide +kernel
  obtain ⟨text, argv, runs⟩ := claim firstWord sampleConfig _ _ rfl rfl rfl
    (.next (.next .start trivial opened) trivial requested) _ (List.mem_singleton.mpr rfl)
  obtain rfl : ikofiExeToLib (lit "/data/app/lib") (lit "id") = text := by
    simpa using (List.cons.inj (List.cons.inj argv).2).2
  have other := runs (lit "id") (by decide)
  exact absurd other (by decide)

end Ikofi.Channel
