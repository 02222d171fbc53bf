import Ikofi.Channel.Session

/-!
# The command line that takes the place of another

`ikofi_exe_to_lib` looks for the names of three programs in front of a command, two
of them with a blank behind, and prints the path of a library over the name, into a
buffer of a size of its own.
-/

namespace Ikofi.Channel

/-- The longest prefix without a space. -/
def program (cmd : Bytes) : Bytes := cmd.takeWhile (· != 32)

def transferPrograms : List Bytes := [lit "scp", lit "rsync", lit "sftp-server"]

/-- The command with the library in the place of the program, and everything else kept. -/
def redirected (libPath cmd : Bytes) : Bytes :=
  if transferPrograms.contains (program cmd) then
    libPath ++ lit "/lib" ++ program cmd ++ lit ".so" ++ cmd.drop (program cmd).length
  else cmd

/-- What `ikofi_exe_to_lib` passes to `m_malloc`; `none` where it returns its argument. -/
def allocated (libPath cmd : Bytes) : Option Nat :=
  if (lit "scp ").isPrefixOf cmd then some (libPath.length + 11 + cmd.length + 1)
  else if (lit "rsync ").isPrefixOf cmd then some (libPath.length + 13 + cmd.length - 6 + 1)
  else if (lit "sftp-server").isPrefixOf cmd then some (libPath.length + 18 + 1)
  else none

/-- The text is the redirected command, and fits its buffer with the NUL behind. -/
structure Redirects (libPath cmd : Bytes) : Prop where
  text : ikofiExeToLib libPath cmd = redirected libPath cmd
  fits : ∀ size ∈ allocated libPath cmd, (ikofiExeToLib libPath cmd).length + 1 ≤ size

section
variable {libPath cmd : Bytes}

theorem program_cases (cmd : Bytes) : cmd = program cmd ∨ ∃ rest, cmd = program cmd ++ 32 :: rest := by
  have cut := cmd.takeWhile_append_dropWhile (p := (· != 32))
  cases rest : cmd.dropWhile (· != 32) with
  | nil =>
    rw [rest, List.append_nil] at cut
    exact Or.inl cut.symm
  | cons b rest' =>
    have stop := List.head_dropWhile_not (p := (· != 32)) (l := cmd) (by simp [rest])
    simp only [rest, List.head_cons, bne_eq_false_iff_eq] at stop
    rw [rest, stop] at cut
    exact Or.inr ⟨rest', cut.symm⟩

theorem program_append {p rest : Bytes} (plain : 32 ∉ p) : program (p ++ 32 :: rest) = p := by
  have all : ∀ b ∈ p, (b != 32) = true := by
    intro b hb
    simpa using ne_of_mem_of_not_mem hb plain
  rw [program, List.takeWhile_append_of_pos all]
  simp

theorem redirected_listed (listed : program cmd ∈ transferPrograms) :
    redirected libPath cmd =
      libPath ++ lit "/lib" ++ program cmd ++ lit ".so" ++ cmd.drop (program cmd).length :=
  if_pos (List.contains_iff_mem.mpr listed)

theorem redirected_other (other : program cmd ∉ transferPrograms) : redirected libPath cmd = cmd :=
  if_neg fun listed => other (List.contains_iff_mem.mp listed)

/-- A command that begins with a program's name and a blank. -/
theorem redirected_append {p rest : Bytes} (plain : 32 ∉ p) (listed : p ∈ transferPrograms) :
    redirected libPath (p ++ 32 :: rest) =
      libPath ++ lit "/lib" ++ p ++ lit ".so" ++ 32 :: rest := by
  have name : program (p ++ 32 :: rest) = p := program_append plain
  rw [redirected_listed (by rwa [name]), name, List.drop_left]

theorem program_plain (cmd : Bytes) : 32 ∉ program cmd := by
  intro space
  simpa using List.mem_takeWhile_imp space

/-- The first two tests look for a name with a blank behind. -/
theorem exeToLib_other (scp : ¬ lit "scp" ++ [32] <+: cmd) (rsync : ¬ lit "rsync" ++ [32] <+: cmd)
    (sftp : ¬ lit "sftp-server" <+: cmd) : ikofiExeToLib libPath cmd = cmd := by
  have scp : (lit "scp ").isPrefixOf cmd = false := by
    rw [← Bool.not_eq_true, List.isPrefixOf_iff_prefix]
    exact scp
  have rsync : (lit "rsync ").isPrefixOf cmd = false := by
    rw [← Bool.not_eq_true, List.isPrefixOf_iff_prefix]
    exact rsync
  have sftp : (lit "sftp-server").isPrefixOf cmd = false := by
    rw [← Bool.not_eq_true, List.isPrefixOf_iff_prefix]
    exact sftp
  simp [ikofiExeToLib, scp, rsync, sftp]

theorem program_of_start {p : Bytes} (plain : 32 ∉ p) (h : p ++ [32] <+: cmd) : program cmd = p := by
  obtain ⟨rest, rfl⟩ := h
  rw [List.append_assoc, List.singleton_append, program_append plain]

/-- Printing never runs over the end of the buffer. -/
theorem exeToLib_fits {size : Nat} (h : allocated libPath cmd = some size) :
    (ikofiExeToLib libPath cmd).length + 1 ≤ size := by
  unfold allocated at h
  unfold ikofiExeToLib
  have scp : (lit "/libscp.so ").length = 11 := by decide
  have rsync : (lit "/librsync.so ").length = 13 := by decide
  have sftp : (lit "/libsftp-server.so").length = 18 := by decide
  split at h
  · rename_i found
    rw [if_pos found]
    cases h
    simp only [List.length_append, List.length_drop, scp]
    omega
  · rename_i other
    rw [if_neg other]
    split at h
    · rename_i found
      obtain ⟨rest, rfl⟩ := List.isPrefixOf_iff_prefix.mp found
      have name : (lit "rsync ").length = 6 := by decide
      rw [if_pos found]
      cases h
      simp only [List.length_append, List.length_drop, rsync, name]
      omega
    · rename_i other
      rw [if_neg other]
      split at h
      · rename_i found
        rw [if_pos found]
        cases h
        simp only [List.length_append, sftp]
        omega
      · cases h

/-- A command that begins with `sftp-server` is redirected as it should be only if it
is nothing more, or happens to be the path of the library itself. -/
theorem redirects_sftp (found : lit "sftp-server" <+: cmd) :
    ikofiExeToLib libPath cmd = redirected libPath cmd ↔ cmd = lit "sftp-server" ∨
      (cmd = libPath ++ lit "/libsftp-server.so" ∧ program cmd ≠ lit "sftp-server") := by
  obtain ⟨rest, rfl⟩ := found
  have text : ikofiExeToLib libPath (lit "sftp-server" ++ rest) =
      libPath ++ lit "/libsftp-server.so" := rfl
  have name : program (lit "sftp-server" ++ rest) = lit "sftp-server" ++ program rest :=
    List.takeWhile_append_of_pos (List.all_eq_true.mp (by decide))
  have length : (lit "sftp-server").length = 11 ∧ (lit "scp").length = 3 ∧
      (lit "rsync").length = 5 := by decide
  rw [text]
  by_cases bare : program rest = []
  · rw [bare, List.append_nil] at name
    rw [redirected_listed (by rw [name]; decide), name, List.drop_left]
    have library : libPath ++ lit "/lib" ++ lit "sftp-server" ++ lit ".so" ++ rest =
        libPath ++ lit "/libsftp-server.so" ++ rest := by
      have joined : lit "/lib" ++ lit "sftp-server" ++ lit ".so" = lit "/libsftp-server.so" := by
        decide
      rw [← joined]
      simp only [List.append_assoc]
    rw [library]
    simp
  · have other : lit "sftp-server" ++ program rest ∉ transferPrograms := by
      have longer := List.length_pos_of_ne_nil bare
      simp only [transferPrograms, List.mem_cons, List.not_mem_nil, or_false]
      rintro (same | same | same) <;>
      · have lengths := congrArg List.length same
        rw [List.length_append] at lengths
        omega
    have more : rest ≠ [] := by
      rintro rfl
      exact bare rfl
    rw [redirected_other (by rwa [name])]
    simp [name, bare, more, eq_comm]

/-- The command line is preserved except for `scp` and `rsync` without a blank behind them,
and for what follows `sftp-server`. -/
theorem redirects_iff : Redirects libPath cmd ↔
    cmd ≠ lit "scp" ∧ cmd ≠ lit "rsync" ∧ (lit "sftp-server" <+: cmd → cmd = lit "sftp-server" ∨
      (cmd = libPath ++ lit "/libsftp-server.so" ∧ program cmd ≠ lit "sftp-server")) := by
  have fits : Redirects libPath cmd ↔ ikofiExeToLib libPath cmd = redirected libPath cmd :=
    ⟨Redirects.text, fun text => ⟨text, fun _ => exeToLib_fits⟩⟩
  rw [fits]
  by_cases sftp : lit "sftp-server" <+: cmd
  · rw [redirects_sftp sftp]
    have scp : cmd ≠ lit "scp" := by
      rintro rfl
      exact absurd sftp (by decide)
    have rsync : cmd ≠ lit "rsync" := by
      rintro rfl
      exact absurd sftp (by decide)
    simp [sftp, scp, rsync]
  · simp only [sftp, false_imp_iff, and_true]
    have blank : ∀ p, 32 ∉ p → (p ++ [32] <+: cmd → cmd = program cmd → False) := by
      intro p plain found whole
      have space : 32 ∈ cmd := found.mem (by simp)
      rw [whole] at space
      exact program_plain cmd space
    rcases program_cases cmd with whole | ⟨rest, cut⟩
    · -- without a space the command is kept, whatever it is
      have other : cmd ≠ lit "sftp-server" := by
        rintro rfl
        exact sftp (List.prefix_refl _)
      have names : cmd ∈ transferPrograms ↔ cmd = lit "scp" ∨ cmd = lit "rsync" := by
        simp [transferPrograms, other]
      rw [exeToLib_other (blank _ (by decide) · whole) (blank _ (by decide) · whole) sftp, ← not_or,
        ← names]
      by_cases listed : cmd ∈ transferPrograms
      · rw [redirected_listed (by rwa [← whole]), ← whole]
        refine iff_of_false (fun same => ?_) (not_not.mpr listed)
        have lengths := congrArg List.length same
        have lib : (lit "/lib").length = 4 := by decide
        simp only [List.length_append, lib] at lengths
        omega
      · exact iff_of_true (redirected_other (by rwa [← whole])).symm listed
    · have kept : ∀ p, 32 ∉ p → cmd ≠ p := by
        rintro p plain rfl
        rw [cut] at plain
        simp at plain
      simp only [ne_eq, kept _ (show 32 ∉ lit "scp" by decide), kept _ (show 32 ∉ lit "rsync" by decide),
        not_false_eq_true, and_self, iff_true]
      by_cases scp : program cmd = lit "scp"
      · rw [cut, scp, redirected_append (by decide) (by decide)]
        change libPath ++ (lit "/libscp.so" ++ [32]) ++ rest = _
        have library : lit "/lib" ++ lit "scp" ++ lit ".so" = lit "/libscp.so" := by decide
        simp [← library]
      · by_cases rsync : program cmd = lit "rsync"
        · rw [cut, rsync, redirected_append (by decide) (by decide)]
          change libPath ++ (lit "/librsync.so" ++ [32]) ++ rest = _
          have library : lit "/lib" ++ lit "rsync" ++ lit ".so" = lit "/librsync.so" := by decide
          simp [← library]
        · have server : program cmd ≠ lit "sftp-server" := by
            intro name
            exact sftp ⟨32 :: rest, by rw [cut, name]⟩
          have other : program cmd ∉ transferPrograms := by
            simp [transferPrograms, scp, rsync, server]
          rw [exeToLib_other (mt (program_of_start (by decide)) scp)
            (mt (program_of_start (by decide)) rsync) sftp, redirected_other other]

end

/-- The options of `sftp-server` are lost. -/
theorem sftp_options_lost : ¬ ∀ libPath cmd, Redirects libPath cmd := by
  intro claim
  exact absurd (claim (lit "/lib") (lit "sftp-server -R")).text (by decide)

end Ikofi.Channel
