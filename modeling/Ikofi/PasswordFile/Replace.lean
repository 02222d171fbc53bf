import Ikofi.PasswordFile.Native
import Ikofi.PasswordFile.Settings
import Ikofi.Lib.Runs

/-!
# The password file while it is written

`writePasswordFile` step by step, as a server that reads the file at any moment
meets it. Each step may fail and end the call, and the process may die between any
two, so every state on the way may also stay.
-/

namespace Ikofi.PasswordFile

open Cut Runs

/-- What a call is going to do to the file. `create` is a call of `createNewFile`
before the file is written. -/
inductive Plan
  | nothing
  | delete
  | rewrite (create : Bool) (content : Bytes)
  deriving DecidableEq, Repr

/-- The decisions of `writePasswordFile`, made before it touches the file. A call
that cannot read the previous entry throws. -/
def plan (sha512 : Bytes → Bytes) (debug : Bool) (file : Option Bytes)
    (username : Option JString) (passwordUpdated : Bool) (password : Option JString) : Plan :=
  let clear := if file.isSome then Plan.delete else .nothing
  match username with
  | none => clear
  | some username =>
    if isBlank username then clear
    else if passwordUpdated then
      match password with
      | none => clear
      | some password =>
        if isBlank password then clear
        else .rewrite true (writeFile username (hash sha512 password))
    else if file.isNone then .nothing
    else
      match readPasswordFile debug file with
      | .ok (some [_, previous]) => .rewrite false (writeFile username previous)
      | _ => .nothing

/-- The file that a plan leads to. -/
def Plan.result (file : Option Bytes) : Plan → Option Bytes
  | .nothing => file
  | .delete => none
  | .rewrite _ content => some content

/-- What the call has still to do. -/
inductive Pc
  | create (content : Bytes)
  | openTruncated (content : Bytes)
  | write (rest : Bytes)
  | delete
  | done
  deriving DecidableEq, Repr

structure Writer where
  file : Option Bytes
  pc : Pc
  deriving DecidableEq, Repr

/-- One step of the call; `fail` is an I/O error in the next one, or the end of the
process. -/
inductive Io
  | createNewFile
  | openTruncated
  | write (n : Nat)
  | close
  | delete
  | fail
  deriving DecidableEq, Repr

def ioStep (w : Writer) : Io → Option Writer
  | .createNewFile =>
    match w.pc with
    | .create content => some ⟨some (w.file.getD []), .openTruncated content⟩
    | _ => none
  | .openTruncated =>
    match w.pc with
    | .openTruncated content => some ⟨some [], .write content⟩
    | _ => none
  | .write n =>
    match w.pc with
    | .write rest => some ⟨w.file.map (· ++ rest.take n), .write (rest.drop n)⟩
    | _ => none
  | .close =>
    match w.pc with
    | .write [] => some ⟨w.file, .done⟩
    | _ => none
  | .delete =>
    match w.pc with
    | .delete => some ⟨none, .done⟩
    | _ => none
  | .fail => some ⟨w.file, .done⟩

def Plan.start (file : Option Bytes) : Plan → Writer
  | .nothing => ⟨file, .done⟩
  | .delete => ⟨file, .delete⟩
  | .rewrite create content => ⟨file, if create then .create content else .openTruncated content⟩

/-- At every moment, and after every failure, a native read finds what the old or the
new file gives, or nothing where there was no file before or is to be none after. -/
def Atomic (file : Option Bytes) (p : Plan) : Prop :=
  ∀ as w, Reached ioStep (p.start file) as w →
    ikofiGetUserPassword w.file = ikofiGetUserPassword file ∨
    ikofiGetUserPassword w.file = ikofiGetUserPassword (p.result file) ∨
    (ikofiGetUserPassword w.file = {} ∧ (file = none ∨ p.result file = none))

/-- The part of the content that the native reader cuts: the first line, up to a NUL. -/
def nativeBytes (content : Bytes) : Bytes :=
  cstr (content.takeWhile (· != 10) ++ (content.dropWhile (· != 10)).take 1)

/-- Text without colons, and behind it colons only. -/
def ColonsLast (line : Bytes) : Prop := ∃ x seps, line = x ++ seps ∧ (∀ b ∈ x, isColon b = false) ∧
  ∀ b ∈ seps, isColon b = true

/-- Without an I/O error, the steps lead to the file of the whole call. -/
theorem writePasswordFile_plan {sha512 : Bytes → Bytes} {debug : Bool} {file after : Option Bytes}
    {username : Option JString} {updated : Bool} {password : Option JString}
    (h : writePasswordFile sha512 debug file username updated password = .ok after) :
    (plan sha512 debug file username updated password).result file = after := by
  have deleted : (if file.isSome then Plan.delete else .nothing).result file = none := by
    cases file <;> rfl
  unfold writePasswordFile at h
  unfold plan
  cases username with
  | none =>
    cases h
    exact deleted
  | some u =>
    cases blank : isBlank u with
    | true =>
      simp only [blank, if_true] at h ⊢
      cases h
      exact deleted
    | false =>
      simp only [blank, Bool.false_eq_true, if_false] at h ⊢
      cases updated with
      | true =>
        cases password with
        | none =>
          cases h
          exact deleted
        | some p =>
          cases empty : isBlank p with
          | true =>
            simp only [empty, if_true] at h ⊢
            cases h
            exact deleted
          | false =>
            simp only [empty, Bool.false_eq_true, if_false, if_true] at h ⊢
            cases h
            rfl
      | false =>
        cases file with
        | none =>
          cases h
          rfl
        | some content =>
          simp only [Option.isNone_some, Bool.false_eq_true, if_false] at h ⊢
          cases read : readPasswordFile debug (some content) with
          | error e => simp [read, bind, Except.bind] at h
          | ok found =>
            simp only [read, bind, Except.bind] at h ⊢
            split at h
            · cases h
              rfl
            · cases h

/-- What the native reader makes of its line. -/
def cutLine (line : Bytes) : UserPassword :=
  if line.any isColon then
    match token isColon line with
    | none => { ret := true }
    | some (user, saveptr) =>
      { ret := true, user := some user, password := (token isColon saveptr).map Prod.fst }
  else {}

theorem ikofiGetUserPassword_cutLine (content : Bytes) :
    ikofiGetUserPassword (some content) = cutLine (nativeBytes content) := by
  cases content with
  | nil => rfl
  | cons b content => rfl

@[simp] theorem nativeBytes_nil : nativeBytes [] = [] := rfl

theorem nativeBytes_cons (b : UInt8) (bs : Bytes) :
    nativeBytes (b :: bs) = if b = 0 then [] else if b = 10 then [10] else b :: nativeBytes bs := by
  unfold nativeBytes cstr
  by_cases newline : b = 10
  · subst newline
    simp
  · by_cases nul : b = 0
    · subst nul
      simp
    · simp [newline, nul]

theorem nativeBytes_mono {q content : Bytes} (h : q <+: content) :
    nativeBytes q <+: nativeBytes content := by
  induction q generalizing content with
  | nil => exact List.nil_prefix
  | cons b q ih =>
    obtain ⟨rest, rfl⟩ := h
    rw [List.cons_append, nativeBytes_cons, nativeBytes_cons]
    split
    · exact List.prefix_refl _
    · split
      · exact List.prefix_refl _
      · exact List.cons_prefix_cons.mpr ⟨rfl, ih (List.prefix_append _ _)⟩

theorem nativeBytes_start (content : Bytes) : nativeBytes content <+: content := by
  induction content with
  | nil => exact List.prefix_refl _
  | cons b content ih =>
    rw [nativeBytes_cons]
    split
    · exact List.nil_prefix
    · split
      · rename_i newline
        exact ⟨content, by rw [newline]; rfl⟩
      · exact List.cons_prefix_cons.mpr ⟨rfl, ih⟩

/-- The reader sees any part of its line whole. -/
theorem nativeBytes_part {q content : Bytes} (h : q <+: nativeBytes content) :
    nativeBytes q = q := by
  induction content generalizing q with
  | nil => simp [List.prefix_nil.mp h]
  | cons b content ih =>
    cases q with
    | nil => rfl
    | cons c q =>
      rw [nativeBytes_cons] at h
      split at h
      · simp at h
      · rename_i nul
        split at h
        · obtain ⟨rfl, rest⟩ := List.cons_prefix_cons.mp h
          obtain rfl := List.prefix_nil.mp rest
          rfl
        · rename_i newline
          obtain ⟨rfl, rest⟩ := List.cons_prefix_cons.mp h
          rw [nativeBytes_cons, if_neg nul, if_neg newline, ih rest]

theorem cutLine_plain {line : Bytes} (h : ∀ b ∈ line, isColon b = false) : cutLine line = {} := by
  have none : line.any isColon = false := by simpa using h
  simp [cutLine, none]

/-- A line that ends in colons has no second field, whatever their number. -/
theorem cutLine_colons {x seps : Bytes} (plain : ∀ b ∈ x, isColon b = false) (some : seps ≠ [])
    (colons : ∀ b ∈ seps, isColon b = true) :
    cutLine (x ++ seps) = { ret := true, user := if x = [] then none else Option.some x } := by
  obtain ⟨s, rest, rfl⟩ := List.exists_cons_of_ne_nil some
  have colon : (x ++ s :: rest).any isColon = true := by simp [colons s (by simp)]
  have last : token isColon rest = none := token_eq_none.mpr fun b hb => colons b (by simp [hb])
  unfold cutLine
  rw [if_pos colon]
  by_cases empty : x = []
  · subst empty
    simp [token_eq_none.mpr colons]
  · have first : token isColon (x ++ s :: rest) = Option.some (x, rest) :=
      token_append (by simp : ∀ b ∈ [], isColon b = true) empty plain
        (by simpa using colons s (by simp))
    simp [first, last, empty]

/-- Nothing but colons follows the first one, if the fields are all read with it. -/
theorem colons_of_cutLine {x rest : Bytes} {s : UInt8} (plain : ∀ b ∈ x, isColon b = false)
    (colon : isColon s = true) (same : cutLine (x ++ s :: rest) = cutLine (x ++ [s])) :
    ∀ b ∈ rest, isColon b = true := by
  have found : (x ++ s :: rest).any isColon = true := by simp [colon]
  have short : cutLine (x ++ [s]) = { ret := true, user := if x = [] then none else some x } :=
    cutLine_colons plain (by simp) (by simpa using colon)
  rw [short, cutLine, if_pos found] at same
  by_cases empty : x = []
  · subst empty
    cases first : token isColon ([] ++ s :: rest) with
    | none => exact fun b hb => token_eq_none.mp first b (by simp [hb])
    | some t =>
      rw [first] at same
      cases same
  · have first : token isColon (x ++ s :: rest) = Option.some (x, rest) :=
      token_append (by simp : ∀ b ∈ [], isColon b = true) empty plain (by simpa using colon)
    rw [first] at same
    simp only [empty, if_false, UserPassword.mk.injEq, true_and, Option.map_eq_none_iff] at same
    exact token_eq_none.mp same

section
variable {file : Option Bytes} {content : Bytes}

/-- A rewriting call on its way: the old file, or a part of the new one. -/
inductive Rewriting (file : Option Bytes) (content : Bytes) : Writer → Prop
  | create : Rewriting file content ⟨file, .create content⟩
  | openOld : Rewriting file content ⟨file, .openTruncated content⟩
  | openNew : Rewriting file content ⟨some [], .openTruncated content⟩
  | write (k : Nat) : Rewriting file content ⟨some (content.take k), .write (content.drop k)⟩
  | doneOld : Rewriting file content ⟨file, .done⟩
  | done (k : Nat) : Rewriting file content ⟨some (content.take k), .done⟩

theorem ioStep_rewriting {w v : Writer} {io : Io} (h : Rewriting file content w)
    (hs : ioStep w io = some v) : Rewriting file content v := by
  cases io with
  | createNewFile =>
    cases h with
    | create =>
      cases hs
      cases file with
      | none => exact .openNew
      | some old => exact .openOld
    | openOld | openNew | write | doneOld | done => cases hs
  | openTruncated =>
    cases h with
    | openOld | openNew =>
      cases hs
      have begun : Rewriting file content ⟨some (content.take 0), .write (content.drop 0)⟩ := .write 0
      simpa using begun
    | create | write | doneOld | done => cases hs
  | write n =>
    cases h with
    | write k =>
      cases hs
      have more : content.take k ++ (content.drop k).take n = content.take (k + n) :=
        List.take_add.symm
      have longer : Rewriting file content
          ⟨some (content.take (k + n)), .write (content.drop (k + n))⟩ := .write (k + n)
      simpa [more, List.drop_drop] using longer
    | create | openOld | openNew | doneOld | done => cases hs
  | close =>
    cases h with
    | write k =>
      simp only [ioStep] at hs
      split at hs
      · cases hs
        exact .done k
      · cases hs
    | create | openOld | openNew | doneOld | done => cases hs
  | delete => cases h <;> cases hs
  | fail =>
    cases hs
    cases h with
    | create | openOld | doneOld => exact .doneOld
    | openNew => exact .done 0
    | write k | done k => exact .done k

/-- The files that a rewriting call can leave. -/
theorem rewriting_files {create : Bool} {as : List Io} {w : Writer}
    (h : Reached ioStep ((Plan.rewrite create content).start file) as w) :
    w.file = file ∨ ∃ k, w.file = some (content.take k) := by
  have start : Rewriting file content ((Plan.rewrite create content).start file) := by
    cases create
    · exact .openOld
    · exact .create
  have reached : Rewriting file content w :=
    h.invariant (I := Rewriting file content) start fun _ _ _ before _ hs => ioStep_rewriting before hs
  cases reached with
  | create | openOld | doneOld => exact Or.inl rfl
  | openNew => exact Or.inr ⟨0, rfl⟩
  | write k | done k => exact Or.inr ⟨k, rfl⟩

/-- A rewriting call may stop behind any part of the new content. -/
theorem rewriting_reaches (file : Option Bytes) (create : Bool) (content : Bytes) (k : Nat) :
    ∃ as w, Reached ioStep ((Plan.rewrite create content).start file) as w ∧
      w.file = some (content.take k) := by
  have written : Reached ioStep ⟨some [], .write content⟩ [.write k]
      ⟨some (content.take k), .write (content.drop k)⟩ :=
    .next .start trivial rfl
  cases create with
  | false => exact ⟨.openTruncated :: _, _, .cons trivial rfl written, rfl⟩
  | true =>
    exact ⟨.createNewFile :: .openTruncated :: _, _, .cons trivial rfl (.cons trivial rfl written), rfl⟩

/-- A rewriting call is atomic if and only if its parts are. -/
theorem atomic_rewrite_iff {create : Bool} :
    Atomic file (.rewrite create content) ↔ ∀ k,
      ikofiGetUserPassword (some (content.take k)) = ikofiGetUserPassword file ∨
      ikofiGetUserPassword (some (content.take k)) = ikofiGetUserPassword (some content) ∨
      (ikofiGetUserPassword (some (content.take k)) = {} ∧ file = none) := by
  constructor
  · intro atomic k
    obtain ⟨as, w, reached, part⟩ := rewriting_reaches file create content k
    have found := atomic as w reached
    simpa [part, Plan.result] using found
  · intro parts as w reached
    rcases rewriting_files reached with old | ⟨k, part⟩
    · exact Or.inl (by rw [old])
    · rw [part]
      exact (parts k).imp_right fun h => h.imp_right fun h => ⟨h.1, Or.inl h.2⟩

/-- The native reader finds no colon, and so nothing at all. -/
def Silent (file : Option Bytes) : Prop :=
  ∀ old, file = some old → ∀ b ∈ nativeBytes old, isColon b = false

theorem silent_iff : Silent file ↔ ikofiGetUserPassword file = {} := by
  cases file with
  | none => simp [Silent, ikofiGetUserPassword]
  | some old =>
    rw [ikofiGetUserPassword_cutLine]
    constructor
    · intro silent
      exact cutLine_plain (silent old rfl)
    · rintro nothing _ ⟨rfl⟩ b hb
      by_contra colon
      have found : (nativeBytes old).any isColon = true :=
        List.any_eq_true.mpr ⟨b, hb, by simpa using colon⟩
      rw [cutLine, if_pos found] at nothing
      split at nothing <;> cases nothing

/-- Every part of a line that ends in colons reads as nothing or as the whole line. -/
theorem cutLine_part {q line : Bytes} (part : q <+: line) (last : ColonsLast line) :
    cutLine q = {} ∨ cutLine q = cutLine line := by
  obtain ⟨x, seps, rfl, plain, colons⟩ := last
  obtain ⟨rest, cut⟩ := part
  rcases List.append_eq_append_iff.mp cut with ⟨y, rfl, -⟩ | ⟨y, rfl, rfl⟩
  · exact Or.inl (cutLine_plain fun b hb => plain b (by simp [hb]))
  · cases y with
    | nil => exact Or.inl (by rw [List.append_nil]; exact cutLine_plain plain)
    | cons c y =>
      right
      rw [cutLine_colons plain (by simp) fun b hb => colons b (List.mem_append_left _ hb),
        cutLine_colons plain (by simp) colons]

/-- The parts of a rewritten file are all read as the old or the new one only if the
reader sees no hash in the new one either. -/
theorem parts_iff :
    (∀ k,
      ikofiGetUserPassword (some (content.take k)) = ikofiGetUserPassword file ∨
      ikofiGetUserPassword (some (content.take k)) = ikofiGetUserPassword (some content) ∨
      (ikofiGetUserPassword (some (content.take k)) = {} ∧ file = none)) ↔
    Silent (some content) ∨ (Silent file ∧ ColonsLast (nativeBytes content)) := by
  constructor
  · intro parts
    by_cases colon : ∃ b ∈ nativeBytes content, isColon b = true
    · have newNot : ikofiGetUserPassword (some content) ≠ {} := by
        rw [Ne, ← silent_iff]
        obtain ⟨b, hb, hc⟩ := colon
        intro silent
        exact absurd (silent content rfl b hb) (by simp [hc])
      have empty : ikofiGetUserPassword (some (content.take 0)) = {} := rfl
      have silent : ikofiGetUserPassword file = {} := by
        rcases parts 0 with h | h | ⟨-, none⟩
        · exact h.symm.trans empty
        · exact absurd (h.symm.trans empty) newNot
        · rw [none]; rfl
      refine Or.inr ⟨silent_iff.mpr silent, ?_⟩
      -- the part that ends with the first colon
      have split := List.takeWhile_append_dropWhile (p := (! isColon ·)) (l := nativeBytes content)
      generalize hx : (nativeBytes content).takeWhile (! isColon ·) = x at split
      have plain : ∀ b ∈ x, isColon b = false := by
        intro b hb
        rw [← hx] at hb
        simpa using List.mem_takeWhile_imp hb
      cases hy : (nativeBytes content).dropWhile (! isColon ·) with
      | nil =>
        obtain ⟨b, hb, hc⟩ := colon
        rw [← split, hy, List.append_nil] at hb
        exact absurd (plain b hb) (by simp [hc])
      | cons s rest =>
        have first : isColon s = true := by
          have := List.head?_dropWhile_not (! isColon ·) (nativeBytes content)
          simpa [hy] using this
        rw [hy] at split
        have part : x ++ [s] <+: nativeBytes content := ⟨rest, by rw [← split]; simp⟩
        have taken : content.take (x ++ [s]).length = x ++ [s] :=
          (List.prefix_iff_eq_take.mp (part.trans (nativeBytes_start content))).symm
        have read : ikofiGetUserPassword (some (x ++ [s])) = cutLine (x ++ [s]) := by
          rw [ikofiGetUserPassword_cutLine, nativeBytes_part part]
        have half : cutLine (x ++ [s]) ≠ {} := by
          rw [cutLine_colons plain (by simp) (by simpa using first)]
          simp
        have whole : cutLine (x ++ s :: rest) = cutLine (x ++ [s]) := by
          have allowed := parts (x ++ [s]).length
          rw [taken, read, silent, ikofiGetUserPassword_cutLine content, ← split] at allowed
          rcases allowed with h | h | ⟨h, -⟩
          · exact absurd h half
          · exact h.symm
          · exact absurd h half
        refine ⟨x, s :: rest, split.symm, plain, ?_⟩
        rw [List.forall_mem_cons]
        exact ⟨first, colons_of_cutLine plain first whole⟩
    · refine Or.inl fun _ same b hb => ?_
      cases same
      by_contra bad
      exact colon ⟨b, hb, by simpa using bad⟩
  · rintro (silent | ⟨silent, last⟩) k
    · have part : Silent (some (content.take k)) := by
        intro _ same b hb
        cases same
        exact silent content rfl b ((nativeBytes_mono (List.take_prefix k content)).subset hb)
      exact Or.inr (Or.inl ((silent_iff.mp part).trans (silent_iff.mp silent).symm))
    · rw [silent_iff.mp silent, ikofiGetUserPassword_cutLine, ikofiGetUserPassword_cutLine]
      rcases cutLine_part (nativeBytes_mono (List.take_prefix k content)) last with h | h
      · exact Or.inl h
      · exact Or.inr (Or.inl h)

theorem atomic_nothing : Atomic file .nothing := by
  intro as w reached
  have same : w = ⟨file, .done⟩ := by
    refine reached.invariant (I := fun w => w = ⟨file, .done⟩) rfl fun w io v before _ hs => ?_
    subst before
    cases io <;> cases hs
    rfl
  exact Or.inl (by rw [same])

theorem atomic_delete : Atomic file .delete := by
  intro as w reached
  have files : w = ⟨file, .delete⟩ ∨ w = ⟨file, .done⟩ ∨ w = ⟨none, .done⟩ := by
    refine reached.invariant (I := fun w => w = ⟨file, .delete⟩ ∨ w = ⟨file, .done⟩ ∨
      w = ⟨none, .done⟩) (Or.inl rfl) fun w io v before _ hs => ?_
    rcases before with rfl | rfl | rfl <;> cases io <;> cases hs <;> simp
  rcases files with rfl | rfl | rfl
  · exact Or.inl rfl
  · exact Or.inl rfl
  · exact Or.inr (Or.inl rfl)

end

/-- The call is to write `content`: there is a user name, and a new password or the
hash of a readable file. -/
def Writes (sha512 : Bytes → Bytes) (debug : Bool) (file : Option Bytes)
    (username : Option JString) (passwordUpdated : Bool) (password : Option JString)
    (content : Bytes) : Prop :=
  ∃ u h, username = some u ∧ isBlank u = false ∧ content = writeFile u h ∧
    ((passwordUpdated = true ∧ ∃ p, password = some p ∧ isBlank p = false ∧ h = hash sha512 p) ∨
      (passwordUpdated = false ∧ ∃ v, readPasswordFile debug file = .ok (some [v, h])))

theorem plan_cases (sha512 : Bytes → Bytes) (debug : Bool) (file : Option Bytes)
    (username : Option JString) (updated : Bool) (password : Option JString) :
    (∃ create content, plan sha512 debug file username updated password = .rewrite create content ∧
      ∀ other, Writes sha512 debug file username updated password other ↔ other = content) ∨
    ((plan sha512 debug file username updated password = .nothing ∨
      plan sha512 debug file username updated password = .delete) ∧
      ∀ content, ¬ Writes sha512 debug file username updated password content) := by
  have clear : (if file.isSome then Plan.delete else .nothing) = .nothing ∨
      (if file.isSome then Plan.delete else .nothing) = .delete := by
    cases file <;> simp
  unfold plan Writes
  cases username with
  | none => exact Or.inr ⟨clear, by simp⟩
  | some u =>
    cases blank : isBlank u with
    | true => exact Or.inr ⟨by simpa [blank] using clear, by simp [blank]⟩
    | false =>
      cases updated with
      | true =>
        cases password with
        | none => exact Or.inr ⟨by simpa [blank] using clear, by simp⟩
        | some p =>
          cases empty : isBlank p with
          | true => exact Or.inr ⟨by simpa [blank, empty] using clear, by simp [empty]⟩
          | false =>
            exact Or.inl ⟨true, writeFile u (hash sha512 p), by simp [blank, empty],
              by simp [blank, empty]⟩
      | false =>
        cases file with
        | none => exact Or.inr ⟨Or.inl (by simp [blank]), by simp [readPasswordFile]⟩
        | some old =>
          simp only [blank, Bool.false_eq_true, if_false, Option.isNone_some]
          split
          · rename_i v previous read
            refine Or.inl ⟨false, _, rfl, fun other => ?_⟩
            simp [blank, read]
          · rename_i other
            refine Or.inr ⟨Or.inl rfl, ?_⟩
            rintro content ⟨u, h, -, -, -, ⟨new, -⟩ | ⟨-, v, read⟩⟩
            · cases new
            · exact absurd read (other v h)

/-- Replacing the credentials is atomic for the server exactly if the call does not
write the file, or the reader finds nothing in what it writes, or no hash and
nothing in the old file either. -/
theorem replacement_atomic_iff (sha512 : Bytes → Bytes) (debug : Bool) (file : Option Bytes)
    (username : Option JString) (updated : Bool) (password : Option JString) :
    Atomic file (plan sha512 debug file username updated password) ↔
      ∀ content, Writes sha512 debug file username updated password content →
        Silent (some content) ∨ (Silent file ∧ ColonsLast (nativeBytes content)) := by
  rcases plan_cases sha512 debug file username updated password with
    ⟨create, content, planned, writes⟩ | ⟨planned, writes⟩
  · rw [planned, atomic_rewrite_iff, parts_iff]
    simp [writes]
  · have atomic : Atomic file (plan sha512 debug file username updated password) := by
      rcases planned with planned | planned
      · rw [planned]
        exact atomic_nothing
      · rw [planned]
        exact atomic_delete
    simp [writes, atomic]

/-- A new password for an existing user: between the truncating `open` and the first
write the server finds no credentials. -/
theorem truncated_file_read :
    ¬ ∀ (sha512 : Bytes → Bytes) (debug : Bool) (file : Option Bytes) (username : Option JString)
        (updated : Bool) (password : Option JString),
      Atomic file (plan sha512 debug file username updated password) := by
  intro claim
  have atomic := claim (fun _ => List.replicate 64 0) false (some (lit "u:h")) (some (jlit "u")) true
    (some (jlit "p"))
  have opened := atomic [.createNewFile, .openTruncated] _ (.cons trivial rfl (.cons trivial rfl .start))
  revert opened
  decide +kernel

end Ikofi.PasswordFile
