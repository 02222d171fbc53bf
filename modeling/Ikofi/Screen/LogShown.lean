import Ikofi.Screen.LogView

/-!
# The log view is not stuck

The loop remembers what it has sampled, not what it has read. A log that has the time and
the length of the samples is the one that was read, and has not grown since, provided
that no two logs have a time in common. Zero is not such a time: a loop begins with it,
and it stands for a log that is missing.
-/

namespace Ikofi.Screen

open PasswordFile Generations Runs

/-- The last lines of a file, or all of them. -/
def lastLines (debug : Bool) (content : Bytes) : List JString :=
  (lines (fileReader content)).rtake (nrOfLogLines debug)

theorem subList_eq (debug : Bool) (lines : List JString) :
    subList debug lines = lines.rtake (nrOfLogLines debug) := by
  unfold subList List.rtake
  split
  · rfl
  · rename_i few
    rw [Nat.sub_eq_zero_of_le (Nat.le_of_not_lt few), List.drop_zero]

/-- A reader of a file that holds `content`, if nothing is written meanwhile. -/
inductive Reader.On (i : Nat) (content : Bytes) : Reader → Prop
  | reading {pos : Nat} (bound : pos ≤ content.length) :
      On i content { log := i, pos, bytes := content.take pos }
  | decoded : On i content { log := i, pos := content.length, text := fileReader content }
  | given : On i content { log := i, pos := content.length, given := lines (fileReader content) }

section
variable {debug : Bool} {content : Bytes} {i n : Nat} {r r' : Reader} {ls : List JString}

theorem Reader.On.log (h : On i content r) : r.log = i := by
  cases h <;> rfl

theorem Reader.On.read (h : On i content r) :
    (∃ r', r.read content n = .inl r' ∧ On i content r') ∨
      r.read content n = .inr (lines (fileReader content)) := by
  cases h with
  | @reading pos bound =>
    by_cases more : pos < content.length
    · refine Or.inl ⟨_, by rw [Reader.read, if_pos more], ?_⟩
      have taken : content.take pos ++ (content.drop pos).take (n + 1) =
          content.take (min (pos + (n + 1)) content.length) := by
        rw [← List.take_add, ← List.take_take, List.take_length]
      rw [taken]
      exact .reading (Nat.min_le_right _ _)
    · obtain rfl : pos = content.length := by omega
      by_cases filled : content = []
      · subst filled
        exact Or.inr (by simp [Reader.read, unfinished])
      · exact Or.inl ⟨_, by simp [Reader.read, filled], .decoded⟩
  | decoded =>
    cases unended : unfinished (fileReader content) with
    | true => exact Or.inl ⟨_, by simp [Reader.read, unended], .given⟩
    | false => exact Or.inr (by simp [Reader.read, unended])
  | given => exact Or.inr (by simp [Reader.read, unfinished])

theorem Reader.On.next (h : On i content r) (read : r.read content n = .inl r') :
    On i content r' := by
  rcases h.read (n := n) with ⟨r'', same, on⟩ | ended
  · obtain rfl : r'' = r' := Sum.inl.inj (same.symm.trans read)
    exact on
  · rw [ended] at read
    cases read

theorem Reader.On.ends (h : On i content r) (read : r.read content n = .inr ls) :
    ls = lines (fileReader content) := by
  rcases h.read (n := n) with ⟨r'', same, -⟩ | ended
  · rw [same] at read
    cases read
  · exact Sum.inr.inj (read.symm.trans ended)

/-- What is known of the log while an iteration goes on. -/
def Pc.Holds (debug : Bool) (logs : Logs) : Pc → Prop
  | .length mod => logs.Sampled mod 0 fun _ _ => True
  | .compare mod len | .fileExists mod len | .newFileReader mod len =>
    logs.Sampled mod len fun _ _ => True
  | .readLine mod len r => logs.Sampled mod len fun i content => r.On i content
  | .postValue mod len ls => logs.Sampled mod len fun _ content => ls = lastLines debug content
  | .cancelRequested | .lastModified | .sleep => True

/-- The list that was posted is that of the log, as long as the log is the one that was
sampled and has not grown. -/
structure Loop.Holds (debug : Bool) (logs : Logs) (l : Loop) : Prop where
  memory : logs.Sampled l.lastModified l.lastLength fun _ content =>
    l.posted = some (lastLines debug content)
  iteration : l.pc.Holds debug logs

variable {logs : Logs} {l l' : Loop} {pc : Pc} {v w : LogView} {e : LogView.Event}

theorem Pc.Holds.after {c : Change UInt8 Int} (h : pc.Holds debug logs)
    (apart : (logs.after c).Apart) : pc.Holds debug (logs.after c) := by
  cases pc with
  | cancelRequested | lastModified | sleep => trivial
  | length | compare | fileExists | newFileReader | readLine | postValue =>
    exact Store.Sampled.after h apart

theorem Loop.Holds.after {c : Change UInt8 Int} (h : l.Holds debug logs)
    (apart : (logs.after c).Apart) : l.Holds debug (logs.after c) :=
  ⟨h.memory.after apart, h.iteration.after apart⟩

namespace LogView

theorem logs_poll : (v.poll debug l n).logs = v.logs := by
  unfold poll
  split <;> first | rfl | (split <;> rfl)

theorem poll_holds (h : l.Holds debug v.logs) (polled : (v.poll debug l n).loop = some l') :
    l'.Holds debug v.logs := by
  obtain ⟨lastModified, lastLength, posted, pc⟩ := l
  obtain ⟨memory, iteration⟩ := h
  cases pc with
  | cancelRequested =>
    simp only [poll] at polled
    split at polled <;> cases polled
    exact ⟨memory, trivial⟩
  | lastModified =>
    cases polled
    exact ⟨memory, .ofStamp⟩
  | length mod =>
    cases polled
    exact ⟨memory, Store.Sampled.ofLength iteration⟩
  | compare mod len =>
    cases polled
    refine ⟨memory, ?_⟩
    dsimp only
    split
    · exact iteration
    · trivial
  | fileExists mod len =>
    simp only [poll] at polled
    split at polled <;> cases polled
    · exact ⟨memory, iteration⟩
    · rename_i missing
      refine ⟨memory, Store.Sampled.imp iteration fun i g current made _ => absurd ?_ missing⟩
      rw [Store.file_of_current current made]
      rfl
  | newFileReader mod len =>
    simp only [poll] at polled
    split at polled <;> cases polled
    · rename_i missing
      refine ⟨memory, Store.Sampled.imp iteration fun i g current _ _ => ?_⟩
      rw [missing] at current
      cases current
    · rename_i i opened
      refine ⟨memory, Store.Sampled.imp iteration fun j g current _ _ => ?_⟩
      obtain rfl : i = j := Option.some.inj (opened.symm.trans current)
      exact .reading (Nat.zero_le _)
  | readLine mod len r =>
    simp only [poll] at polled
    split at polled <;> cases polled
    · rename_i r' read
      refine ⟨memory, Store.Sampled.imp iteration fun i g _ made on => ?_⟩
      rw [on.log, Store.content_of_made made] at read
      exact on.next read
    · rename_i ls read
      refine ⟨memory, Store.Sampled.imp iteration fun i g _ made on => ?_⟩
      rw [on.log, Store.content_of_made made] at read
      rw [on.ends read, subList_eq]
      rfl
  | postValue mod len lines =>
    cases polled
    exact ⟨Store.Sampled.imp iteration fun _ _ _ _ same => by rw [same], trivial⟩
  | sleep =>
    cases polled
    exact ⟨memory, trivial⟩

/-- In whatever order the steps come. -/
def UpToDate (debug : Bool) (v : LogView) : Prop :=
  v.logs.Apart → ∀ l, v.loop = some l → l.Holds debug v.logs

/-- What a step does to the log and to the loop. -/
inductive Effect (debug : Bool) (v w : LogView) : Event → Prop
  | log {c : Change UInt8 Int} (logs : w.logs = v.logs.after c) (loop : w.loop = v.loop) :
      Effect debug v w (.log c)
  | flag {e : Event} (logs : w.logs = v.logs) (loop : w.loop = v.loop) : Effect debug v w e
  | execute (logs : w.logs = v.logs) (idle : v.loop = none) (loop : w.loop = some {}) :
      Effect debug v w .execute
  | interrupt {l : Loop} (logs : w.logs = v.logs) (running : v.loop = some l)
      (asleep : l.pc = .sleep) (loop : w.loop = some { l with pc := .cancelRequested }) :
      Effect debug v w .interrupt
  | poll {l : Loop} {n : Nat} (logs : w.logs = v.logs) (running : v.loop = some l)
      (loop : w.loop = (v.poll debug l n).loop) : Effect debug v w (.poll n)

theorem step_effect (hs : step debug v e = some w) : Effect debug v w e := by
  cases e with
  | log c =>
    cases hs
    exact .log rfl rfl
  | startUpdateThread | cancelUpdateThread | forceLogUpdate =>
    cases hs
    exact .flag rfl rfl
  | execute =>
    simp only [step] at hs
    split at hs <;> cases hs
    rename_i ready
    simp only [Bool.and_eq_true, Option.isNone_iff_eq_none] at ready
    exact .execute rfl ready.1 rfl
  | interrupt =>
    simp only [step] at hs
    split at hs
    · rename_i l running
      split at hs <;> cases hs
      rename_i asleep
      exact .interrupt rfl running asleep rfl
    · cases hs
  | poll n =>
    obtain ⟨l, running, rfl⟩ := Option.map_eq_some_iff.mp hs
    exact .poll logs_poll running rfl

theorem step_apart (hs : step debug v e = some w) (apart : w.logs.Apart) : v.logs.Apart := by
  cases step_effect hs with
  | log logs => exact Store.apart_of_after (logs ▸ apart)
  | flag logs | execute logs | interrupt logs | poll logs => exact logs ▸ apart

theorem step_upToDate (h : UpToDate debug v) (hs : step debug v e = some w) :
    UpToDate debug w := by
  intro apart l' loop'
  have held := h (step_apart hs apart)
  cases step_effect hs with
  | log logs loop =>
    rw [loop] at loop'
    rw [logs] at apart ⊢
    exact (held l' loop').after apart
  | flag logs loop =>
    rw [loop] at loop'
    exact logs ▸ held l' loop'
  | execute logs idle loop =>
    rw [loop] at loop'
    cases loop'
    exact ⟨.zero, trivial⟩
  | interrupt logs running asleep loop =>
    rw [loop] at loop'
    cases loop'
    exact ⟨logs ▸ (held _ running).memory, trivial⟩
  | poll logs running loop =>
    rw [loop] at loop'
    exact logs ▸ poll_holds (held _ running) loop'

theorem run_apart {ok : LogView → Event → Prop} {es : List Event} (h : Run (step debug) ok v es w)
    (apart : w.logs.Apart) : v.logs.Apart :=
  h.invariant (I := fun u => u.logs.Apart → v.logs.Apart) id
    (fun _ _ _ back _ hs apart => back (step_apart hs apart)) apart

theorem run_upToDate {ok : LogView → Event → Prop} {es : List Event}
    (h : Run (step debug) ok v es w) (start : UpToDate debug v) : UpToDate debug w :=
  h.invariant start fun _ _ _ up _ hs => step_upToDate up hs

/-- Only its own steps change a loop that does not sleep. -/
theorem loop_waits {es : List Event} (h : Run (step debug) (fun _ e => e.polls = false) v es w)
    (loop : v.loop = some l) (awake : l.pc ≠ .sleep) : w.loop = some l := by
  refine h.invariant (I := fun u => u.loop = some l) loop fun u e u' same ok hs => ?_
  cases step_effect hs with
  | log _ loop | flag _ loop => exact loop.trans same
  | execute _ idle =>
    rw [idle] at same
    cases same
  | interrupt _ running asleep =>
    obtain rfl := Option.some.inj (running.symm.trans same)
    exact absurd asleep awake
  | poll => cases ok

theorem name_stays {es : List Event} {x : Int}
    (h : Run (step debug) (fun _ e => e.polls = false ∧ e.rotates = false) v es w)
    (shown : v.logs.Shows i x) : w.logs.Shows i x := by
  refine h.invariant (I := fun u => u.logs.Shows i x) shown fun u e u' same ok hs => ?_
  cases step_effect hs with
  | @log c logs =>
    cases c with
    | append => exact logs ▸ same.append
    | remove | create => cases ok.2
  | flag logs | execute logs | interrupt logs | poll logs => exact logs ▸ same

theorem step_poll (loop : v.loop = some l) (hs : step debug v (.poll n) = some w) :
    w = v.poll debug l n := by
  rw [step, loop] at hs
  exact (Option.some.inj hs).symm

theorem samples_time (loop : v.loop = some l) (pc : l.pc = .lastModified)
    (hs : step debug v (.poll n) = some w) :
    w.logs = v.logs ∧ w.loop = some { l with pc := .length v.logs.stamp } := by
  rw [step_poll loop hs, poll, pc]
  exact ⟨rfl, rfl⟩

theorem samples_length {mod : Int} (loop : v.loop = some l) (pc : l.pc = .length mod)
    (hs : step debug v (.poll n) = some w) :
    w.logs = v.logs ∧ w.loop = some { l with pc := .compare mod v.logs.length } := by
  rw [step_poll loop hs, poll, pc]
  exact ⟨rfl, rfl⟩

/-- A comparison behind which the loop sleeps has found what was sampled before. -/
theorem compares_equal {mod : Int} {len : Nat} (loop : v.loop = some l)
    (pc : l.pc = .compare mod len) (hs : step debug v (.poll n) = some w)
    (loop' : w.loop = some l') (asleep : l'.pc = .sleep) :
    mod = l.lastModified ∧ len = l.lastLength ∧ l'.posted = l.posted := by
  rw [step_poll loop hs, poll, pc] at loop'
  cases loop'
  dsimp only at asleep
  split at asleep
  · cases asleep
  · rename_i same
    simp only [Bool.or_eq_true, bne_iff_ne, not_or, not_not] at same
    exact ⟨same.1.2, same.2, rfl⟩

/-- An iteration that decides not to post: the states in which it samples the time and
the length, with no rotation between them, and the one behind its decision. -/
inductive Skips (debug : Bool) (before sampled after : LogView) : Prop
  | intro {v u w : LogView} {l l' : Loop} {n m k : Nat} {es fs : List Event}
      (top : before.loop = some l) (start : l.pc = .lastModified)
      (modified : step debug before (.poll n) = some v)
      (between : Run (step debug) (fun _ e => e.polls = false ∧ e.rotates = false) v es sampled)
      (length : step debug sampled (.poll m) = some u)
      (later : Run (step debug) (fun _ e => e.polls = false) u fs w)
      (compared : step debug w (.poll k) = some after)
      (loop : after.loop = some l') (asleep : l'.pc = .sleep)

/-- Both samples are those that the loop remembers. -/
theorem Skips.same {before sampled after : LogView} (h : Skips debug before sampled after) :
    ∃ l l', sampled.loop = some l ∧ after.loop = some l' ∧ l'.posted = l.posted ∧
      before.logs.stamp = l.lastModified ∧ sampled.logs.length = l.lastLength ∧
      ∀ i, before.logs.Shows i before.logs.stamp → sampled.logs.Shows i before.logs.stamp := by
  obtain ⟨top, start, modified, between, length, later, compared, loop, asleep⟩ := h
  obtain ⟨logs, started⟩ := samples_time top start modified
  have waits := loop_waits (between.mono fun _ _ ok => ok.1) started (by simp)
  obtain ⟨-, measured⟩ := samples_length waits rfl length
  have waits' := loop_waits later measured (by simp)
  obtain ⟨time, size, posted⟩ := compares_equal waits' rfl compared loop asleep
  exact ⟨_, _, waits, loop, posted, time, size, fun i shown => name_stays between (logs ▸ shown)⟩

theorem Skips.upToDate {before sampled after : LogView} (h : Skips debug before sampled after)
    (start : UpToDate debug before) : UpToDate debug sampled := by
  obtain ⟨-, -, modified, between⟩ := h
  exact run_upToDate between (step_upToDate start modified)

theorem Skips.apart {before sampled after : LogView} (h : Skips debug before sampled after)
    (apart : after.logs.Apart) : sampled.logs.Apart := by
  obtain ⟨-, -, -, -, length, later, compared⟩ := h
  exact step_apart length (run_apart later (step_apart compared apart))

/-- In any run, an iteration that samples a time other than zero and decides not to post
leaves the list that the loop has posted last, and this is that of the log as it was when
the length was sampled. -/
theorem log_view_current {logs : Logs} {es : List Event} {before sampled after : LogView}
    {log : Generation UInt8 Int} (reached : Reached (step debug) { logs := logs } es before)
    (skips : Skips debug before sampled after) (file : sampled.logs.file = some log)
    (apart : after.logs.Apart) (time : before.logs.stamp ≠ 0) :
    ∃ l, after.loop = some l ∧ l.posted = some (lastLines debug log.content) := by
  have start : UpToDate debug { logs := logs } := fun _ _ none => by cases none
  have upToDate : UpToDate debug sampled := skips.upToDate (run_upToDate reached start)
  obtain ⟨l, l', loop, loop', posted, sameTime, sameLength, stays⟩ := skips.same
  obtain ⟨i, shown⟩ := Store.shows_stamp time
  obtain ⟨current, g, made, hx⟩ := stays i shown
  have found : some g = some log := (Store.file_of_current current made).symm.trans file
  obtain rfl := Option.some.inj found
  have memory := (upToDate (skips.apart apart) l loop).memory
  rw [sameTime] at time hx
  obtain ⟨-, unchanged⟩ := memory.holds time i g current made hx
  have length := Store.length_of_current current made
  exact ⟨l', loop', posted.trans (unchanged (sameLength.symm.trans length))⟩

/-- A server is started and prints a password. -/
def printsPassword (i : Nat) (mod : Int) (password : String) : List Event :=
  (startSshd i mod ++ [Change.append i (lit password) mod]).map .log

/-- A loop posts what it reads, sleeps and begins the next iteration. -/
def posts : List Event := [.startUpdateThread, .execute] ++ List.replicate 12 (.poll 99)

def printed (mod : Int) (password : String) : Generation UInt8 Int :=
  { content := lit "Starting dropbear\n" ++ lit password, stamp := mod, earlier := [mod, mod] }

/-- The loop has posted the log of the first server. -/
def postedFirst (logs : Logs) (mod : Int) (pc : Pc) : LogView :=
  let shown := subList false (lines (fileReader (printed mod "abcd\n").content))
  { logs := logs
    logData := some shown
    loop := some { lastModified := mod, lastLength := 23, posted := some shown, pc := pc } }

/-- The second iteration, if nothing happens meanwhile. -/
theorem skips_unchanged {logs : Logs} (length : logs.length = 23) :
    Skips false (postedFirst logs logs.stamp .lastModified)
      (postedFirst logs logs.stamp (.length logs.stamp)) (postedFirst logs logs.stamp .sleep) := by
  refine ⟨rfl, rfl, (rfl : step false _ (.poll 0) = _), .start, (rfl : step false _ (.poll 0) = _),
    .start, (?_ : step false _ (.poll 0) = _), rfl, rfl⟩
  simp [step, poll, goto, postedFirst, length]

def oneLog : Logs := ⟨[printed 7 "abcd\n"], some 0, by simp⟩

theorem log_view_current_password :
    ∃ l, (postedFirst oneLog 7 .sleep).loop = some l ∧
      l.posted = some (lastLines false (printed 7 "abcd\n").content) := by
  have reached : Reached (step false) { logs := .empty } (printsPassword 0 7 "abcd\n" ++ posts)
      (postedFirst oneLog 7 .lastModified) := run_of_foldlM (by rfl)
  have skips : Skips false (postedFirst oneLog 7 .lastModified) (postedFirst oneLog 7 (.length 7))
      (postedFirst oneLog 7 .sleep) := skips_unchanged rfl
  have file : oneLog.file = some (printed 7 "abcd\n") := rfl
  have apart : oneLog.Apart := List.pairwise_singleton _ _
  have time : oneLog.stamp ≠ 0 := by decide
  exact log_view_current reached skips file apart time

theorem lines_two {a b : JString} (text : fileReader content = a ++ 10 :: (b ++ [10]))
    (first : a.all (! isLineEnd ·) = true) (second : b.all (! isLineEnd ·) = true) :
    lines (fileReader content) = [a, b] := by
  rw [text, lines_cons first, lines_cons second, lines_nil]

def twoLogs : Logs := ⟨[printed 0 "abcd\n", printed 0 "efgh\n"], some 1, by simp⟩

/-- The clock stands at zero when both servers are started, and the second log gets as
long as the first. The loop sees no difference, and shows the first password. -/
theorem log_view_stuck :
    ¬ ∀ (debug : Bool) (logs : Logs) (es : List Event) (before sampled after : LogView)
        (log : Generation UInt8 Int), Reached (step debug) { logs := logs } es before →
      Skips debug before sampled after → sampled.logs.file = some log → after.logs.Apart →
      ∃ l, after.loop = some l ∧ l.posted = some (lastLines debug log.content) := by
  intro claim
  have reached : Reached (step false) { logs := .empty }
      (printsPassword 0 0 "abcd\n" ++ posts ++ printsPassword 1 0 "efgh\n")
      (postedFirst twoLogs 0 .lastModified) := run_of_foldlM (by rfl)
  have apart : twoLogs.Apart := by
    simp [Store.Apart, twoLogs, printed, Generation.stamps]
  obtain ⟨l, loop, shown⟩ :=
    claim _ _ _ _ _ _ (printed 0 "efgh\n") reached (skips_unchanged rfl) rfl apart
  cases loop
  have first : lines (fileReader (lit "Starting dropbear\n" ++ lit "abcd\n")) =
      [jlit "Starting dropbear", jlit "abcd"] :=
    lines_two (by decide +kernel) (by decide) (by decide)
  have second : lines (fileReader (lit "Starting dropbear\n" ++ lit "efgh\n")) =
      [jlit "Starting dropbear", jlit "efgh"] :=
    lines_two (by decide +kernel) (by decide) (by decide)
  have same : subList false (lines (fileReader (lit "Starting dropbear\n" ++ lit "abcd\n"))) =
      (lines (fileReader (lit "Starting dropbear\n" ++ lit "efgh\n"))).rtake 50 :=
    Option.some.inj shown
  rw [first, second] at same
  exact absurd same (by decide)

end LogView

end

end Ikofi.Screen
