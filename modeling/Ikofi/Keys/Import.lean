import Ikofi.Text

/-!
# Importing `authorized_keys`

`importAuthKeys` copies a stream to a temporary file and renames that. Everything
outside the app answers once in a call, and may answer with an exception; what a
reader may see is the directory between any two steps.
-/

namespace Ikofi.Keys

/-- The two files, `none` where there is none. -/
structure Dir where
  keys : Option Bytes
  tmp : Option Bytes
  deriving DecidableEq, Repr

/-- An `IOException` with its message, or an exception that is not one. -/
inductive Thrown
  | ioException (message : Option JString)
  | unchecked
  deriving DecidableEq, Repr

def Thrown.isIO : Thrown → Bool
  | .ioException _ => true
  | .unchecked => false

/-- What one call meets: the stream that the resolver opens, which may be null; the
failure of deleting a temporary file that is there, of creating it, and of copying
after a number of bytes; whether the file is renamed; and the failure of closing
the stream. -/
structure Platform where
  openInputStream : Except Thrown (Option Bytes)
  deleteTmp : Option Thrown := none
  createTmp : Option Thrown := none
  copy : Option (Nat × Thrown) := none
  renameTo : Bool := true
  close : Option Thrown := none

/-- The states of the directory so far, and the last of them. -/
structure Walk where
  seen : List Dir
  now : Dir

namespace Walk

def start (d : Dir) : Walk := ⟨[d], d⟩

def next (w : Walk) (d : Dir) : Walk := ⟨w.seen ++ [d], d⟩

/-- The temporary file grows to the first `n` bytes of `content`. -/
def grow (w : Walk) (content : Bytes) (n : Nat) : Walk :=
  (List.range (n + 1)).foldl (fun w k => w.next { w.now with tmp := some (content.take k) }) w

end Walk

/-- `Files.copy` with `REPLACE_EXISTING`. -/
def copy (p : Platform) (content : Bytes) (w : Walk) : Walk × Option Thrown :=
  match p.deleteTmp with
  | some e => (w, some e)
  | none =>
    let w := w.next { w.now with tmp := none }
    match p.createTmp with
    | some e => (w, some e)
    | none =>
      match p.copy with
      | some (n, e) => (w.grow content n, some e)
      | none => (w.grow content content.length, none)

def errKeyImport : JString := jlit "Something went wrong while importing your keys."

/-- How the `try` block ends, with the file installed or not. -/
structure Tried where
  walk : Walk
  installed : Bool := false
  result : Except Thrown (Option JString)

/-- The `try` block, with the stream closed behind it. A second exception, thrown
while the stream is closed, is suppressed. -/
def tryImport (p : Platform) (d : Dir) : Tried :=
  let w := Walk.start d
  match p.openInputStream with
  | .error e => { walk := w, result := .error e }
  -- the copy refuses a null stream
  | .ok none => { walk := w, result := .error .unchecked }
  | .ok (some content) =>
    match copy p content w with
    | (w, some e) => { walk := w, result := .error e }
    | (w, none) =>
      let result (error : Option JString) : Except Thrown (Option JString) :=
        match p.close with
        | some e => .error e
        | none => .ok error
      if p.renameTo then
        { walk := w.next { keys := w.now.tmp, tmp := none }, installed := true, result := result none }
      else { walk := w, result := result (some errKeyImport) }

/-- The whole call: the `catch` clause, and the temporary file deleted at the end. -/
def importAuthKeys (p : Platform) (d : Dir) : Tried :=
  let tried := tryImport p d
  { tried with
    walk := tried.walk.next { tried.walk.now with tmp := none }
    result := match tried.result with
      | .error (.ioException message) =>
        .ok (some (errKeyImport ++ 10 :: message.getD (jlit "null")))
      | result => result }

/-- A reader finds the old keys or all of the new ones, the call returns, with null
exactly if the new ones are installed, and leaves no temporary file. -/
structure AllOrNothing (p : Platform) (d : Dir) : Prop where
  readers : ∀ x ∈ (importAuthKeys p d).walk.seen,
    x.keys = d.keys ∨ ∃ content, p.openInputStream = .ok (some content) ∧ x.keys = some content
  returns : ∃ error, (importAuthKeys p d).result = .ok error ∧
    (error = none ↔ (importAuthKeys p d).installed = true)
  installed : (importAuthKeys p d).installed = true →
    ∃ content, p.openInputStream = .ok (some content) ∧
      (importAuthKeys p d).walk.now.keys = some content
  kept : (importAuthKeys p d).installed = false → (importAuthKeys p d).walk.now.keys = d.keys
  clean : (importAuthKeys p d).walk.now.tmp = none

/-- The first failure of the copy. -/
def Platform.copyFails (p : Platform) : Option Thrown :=
  p.deleteTmp.or (p.createTmp.or (p.copy.map Prod.snd))

/-- There is a stream or an `IOException`, no other exception is thrown, and closing
the stream does not fail after the file is renamed. -/
def Orderly (p : Platform) : Prop :=
  match p.openInputStream with
  | .error e => e.isIO = true
  | .ok none => False
  | .ok (some _) =>
    match p.copyFails with
    | some e => e.isIO = true
    | none => ∀ e ∈ p.close, e.isIO = true ∧ p.renameTo = false

/-- The keys have not changed yet. -/
structure Walk.Keeps (w : Walk) (keys : Option Bytes) : Prop where
  seen : ∀ x ∈ w.seen, x.keys = keys
  now : w.now.keys = keys

section
variable {w : Walk} {keys : Option Bytes}

theorem Walk.Keeps.next (h : w.Keeps keys) (tmp : Option Bytes) :
    (w.next { w.now with tmp := tmp }).Keeps keys := by
  refine ⟨fun x hx => ?_, h.now⟩
  rcases List.mem_append.mp hx with old | new
  · exact h.seen x old
  · obtain rfl := List.mem_singleton.mp new
    exact h.now

theorem Walk.Keeps.grow (h : w.Keeps keys) (content : Bytes) (n : Nat) :
    (w.grow content n).Keeps keys := by
  unfold Walk.grow
  induction n with
  | zero => exact h.next _
  | succ n ih =>
    rw [List.range_succ, List.foldl_append]
    exact ih.next _

theorem Walk.grow_tmp (content : Bytes) (n : Nat) :
    (w.grow content n).now.tmp = some (content.take n) := by
  rw [Walk.grow, List.range_succ, List.foldl_append]
  rfl

/-- The copy touches the temporary file only, and ends with all of the stream in it
or with the first failure. -/
theorem copy_spec (p : Platform) (content : Bytes) (h : w.Keeps keys) :
    ∃ after, copy p content w = (after, p.copyFails) ∧ after.Keeps keys ∧
      (p.copyFails = none → after.now.tmp = some content) := by
  unfold copy Platform.copyFails
  cases p.deleteTmp with
  | some e => exact ⟨w, rfl, h, by simp⟩
  | none =>
    cases p.createTmp with
    | some e => exact ⟨_, rfl, h.next none, by simp⟩
    | none =>
      cases p.copy with
      | some failure => exact ⟨_, rfl, (h.next none).grow content failure.1, by simp⟩
      | none =>
        refine ⟨_, rfl, (h.next none).grow content content.length, fun _ => ?_⟩
        rw [Walk.grow_tmp, List.take_length]

end

/-- The ways in which the `try` block ends. -/
inductive Ends (p : Platform) (d : Dir) : Tried → Prop
  | notOpened {w : Walk} {e : Thrown} : p.openInputStream = .error e → w.Keeps d.keys →
      Ends p d { walk := w, result := .error e }
  | noStream {w : Walk} : p.openInputStream = .ok none → w.Keeps d.keys →
      Ends p d { walk := w, result := .error .unchecked }
  | notCopied {w : Walk} {content : Bytes} {e : Thrown} :
      p.openInputStream = .ok (some content) → p.copyFails = some e → w.Keeps d.keys →
      Ends p d { walk := w, result := .error e }
  | refused {w : Walk} {content : Bytes} : p.openInputStream = .ok (some content) →
      p.copyFails = none → p.renameTo = false → w.Keeps d.keys →
      Ends p d { walk := w, result := p.close.elim (.ok (some errKeyImport)) .error }
  | renamed {w : Walk} {content : Bytes} : p.openInputStream = .ok (some content) →
      p.copyFails = none → p.renameTo = true → w.Keeps d.keys →
      Ends p d
        { walk := w.next { keys := some content, tmp := none }
          installed := true
          result := p.close.elim (.ok none) .error }

section
variable {p : Platform} {d : Dir}

theorem tryImport_ends (p : Platform) (d : Dir) : Ends p d (tryImport p d) := by
  have start : (Walk.start d).Keeps d.keys := ⟨by simp [Walk.start], rfl⟩
  unfold tryImport
  cases opened : p.openInputStream with
  | error e => exact .notOpened opened start
  | ok stream =>
    cases stream with
    | none => exact .noStream opened start
    | some content =>
      obtain ⟨w, copied, keeps, whole⟩ := copy_spec p content start
      simp only [copied]
      cases failed : p.copyFails with
      | some e => exact .notCopied opened failed keeps
      | none =>
        simp only [whole failed]
        cases renamed : p.renameTo with
        | true =>
          have ends := Ends.renamed opened failed renamed keeps
          cases closed : p.close <;> simpa [closed] using ends
        | false =>
          have ends := Ends.refused opened failed renamed keeps
          cases closed : p.close <;> simpa [closed] using ends

/-- The files come out right whatever fails: until the file is renamed nothing but
the temporary file changes, and that is deleted at the end. -/
theorem import_files (p : Platform) (d : Dir) :
    (∀ x ∈ (importAuthKeys p d).walk.seen,
      x.keys = d.keys ∨
        ∃ content, p.openInputStream = .ok (some content) ∧ x.keys = some content) ∧
    ((importAuthKeys p d).installed = true →
      ∃ content, p.openInputStream = .ok (some content) ∧
        (importAuthKeys p d).walk.now.keys = some content) ∧
    ((importAuthKeys p d).installed = false → (importAuthKeys p d).walk.now.keys = d.keys) ∧
    (importAuthKeys p d).walk.now.tmp = none := by
  unfold importAuthKeys
  have ends := tryImport_ends p d
  generalize tryImport p d = tried at ends
  cases ends with
  | notOpened _ keeps | noStream _ keeps | notCopied _ _ keeps | refused _ _ _ keeps =>
    exact ⟨fun x hx => Or.inl ((keeps.next none).seen x hx), by simp, fun _ => keeps.now, rfl⟩
  | @renamed w content opened _ _ keeps =>
    refine ⟨fun x hx => ?_, fun _ => ⟨content, opened, rfl⟩, by simp, rfl⟩
    simp only [Walk.next, List.mem_append, List.mem_singleton] at hx
    rcases hx with (old | rfl) | rfl
    · exact Or.inl (keeps.seen x old)
    · exact Or.inr ⟨content, opened, rfl⟩
    · exact Or.inr ⟨content, opened, rfl⟩

/-- The call returns, and says what it did, exactly in an orderly call. -/
theorem import_returns_iff :
    (∃ error, (importAuthKeys p d).result = .ok error ∧
      (error = none ↔ (importAuthKeys p d).installed = true)) ↔ Orderly p := by
  unfold importAuthKeys Orderly
  have ends := tryImport_ends p d
  generalize tryImport p d = tried at ends
  cases ends with
  | @notOpened w e opened keeps =>
    rw [opened]
    cases e <;> simp [Thrown.isIO]
  | noStream opened keeps => simp [opened]
  | @notCopied w content e opened failed keeps =>
    rw [opened, failed]
    cases e <;> simp [Thrown.isIO]
  | refused opened failed renamed keeps =>
    rw [opened, failed, renamed]
    rcases p.close with _ | (_ | _) <;> simp [Thrown.isIO]
  | renamed opened failed renamed keeps =>
    rw [opened, failed, renamed]
    rcases p.close with _ | (_ | _) <;> simp

/-- The import is all or nothing exactly in an orderly call. -/
theorem import_all_or_nothing_iff (p : Platform) (d : Dir) : AllOrNothing p d ↔ Orderly p := by
  obtain ⟨readers, installed, kept, clean⟩ := import_files p d
  constructor
  · intro h
    exact import_returns_iff.mp h.returns
  · intro orderly
    exact ⟨readers, import_returns_iff.mpr orderly, installed, kept, clean⟩

end

/-- A resolver that returns no stream makes the call throw. -/
theorem null_stream_throws : ¬ ∀ (p : Platform) (d : Dir), AllOrNothing p d := by
  intro claim
  obtain ⟨error, returned, -⟩ := (claim { openInputStream := .ok none } ⟨none, none⟩).returns
  cases returned

end Ikofi.Keys
