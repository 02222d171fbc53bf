import Ikofi.Keys.Authorized

/-!
# Which public keys are let in

A key is accepted only where a line of `authorized_keys` says so, and the keys of a file
of plain lines are exactly those that are accepted.
-/

namespace Ikofi.Keys

open Wire

section
variable {ω : Type} {parse : Option Bytes → Option ω} {algo keyblob line content : Bytes}
  {o : Options ω}

/-- A line that names the algorithm, at its front or behind options and a blank. -/
inductive Names (algo : Bytes) : Option Bytes → Bytes → Bytes → Prop
  | plain (rest : Bytes) : Names algo none (algo ++ rest) rest
  | options {blanks options : Bytes} {c : UInt8} (rest : Bytes)
      (leading : ∀ b ∈ blanks, isBlank b = true) (blank : isBlank c = true)
      (comment : (options ++ [c]).head? ≠ some 35) :
      Names algo (some options) (blanks ++ (options ++ c :: (algo ++ rest))) rest

theorem take_eq_iff {s t : Bytes} : t.take s.length = s ↔ ∃ rest, t = s ++ rest := by
  constructor
  · intro h
    refine ⟨t.drop s.length, ?_⟩
    have parts := (List.take_append_drop s.length t).symm
    rwa [h] at parts
  · rintro ⟨rest, rfl⟩
    exact List.take_left

/-- The options end at a blank, or at the end of the line. -/
theorem optionsLen_spec (quoted escape : Bool) (s : Bytes) :
    s.drop (optionsLen quoted escape s) = [] ∨
      ∃ c rest, isBlank c = true ∧ s.drop (optionsLen quoted escape s) = c :: rest := by
  induction s generalizing quoted escape with
  | nil => exact Or.inl rfl
  | cons c rest ih =>
    unfold optionsLen
    by_cases stop : (!quoted && isBlank c) = true
    · rw [if_pos stop]
      rw [Bool.and_eq_true] at stop
      exact Or.inr ⟨c, rest, stop.2, rfl⟩
    · rw [if_neg stop]
      dsimp only
      rw [Nat.add_comm, List.drop_succ_cons]
      exact ih _ _

theorem afterAlgo_some {rest : Bytes} (h : afterAlgo algo line = some rest) :
    line = algo ++ rest ∧ 3 ≤ rest.length := by
  unfold afterAlgo at h
  split at h
  · cases h
  · rename_i room
    split at h
    · rename_i found
      obtain ⟨rest', rfl⟩ := take_eq_iff.mp found
      rw [List.drop_left] at h
      cases h
      rw [List.length_append] at room
      exact ⟨rfl, by omega⟩
    · cases h

/-- What `findEntry` finds is there. -/
theorem findEntry_names {e : Entry} (h : findEntry algo line = .ok (some e)) :
    Names algo e.options line e.rest := by
  unfold findEntry at h
  split at h
  · cases h
  split at h
  · rename_i found
    obtain ⟨rest, rfl⟩ := take_eq_iff.mp found
    rw [List.drop_left] at h
    cases h
    exact .plain rest
  · dsimp only at h
    split at h
    · cases h
    · rename_i noComment
      obtain ⟨first, got, h⟩ := bind_ok.mp h
      generalize hs : line.dropWhile isBlank = start at h got noComment
      have whole : line = line.takeWhile isBlank ++ start := by
        rw [← hs]
        exact List.takeWhile_append_dropWhile.symm
      cases found : afterAlgo algo (start.drop (optionsLen false false start + 1)) with
      | none =>
        rw [found] at h
        cases h
      | some rest =>
        rw [found] at h
        cases h
        obtain ⟨behind, room⟩ := afterAlgo_some found
        obtain none | ⟨c, rest', blank, parts⟩ := optionsLen_spec false false start
        · -- the blank is missing, and so is everything behind it
          rw [← List.drop_drop, none, List.drop_nil] at behind
          rw [(List.append_eq_nil_iff.mp behind.symm).2] at room
          exact absurd room (by decide)
        · rw [← List.drop_drop, parts] at behind
          change rest' = algo ++ rest at behind
          subst behind
          generalize optionsLen false false start = n at *
          have cut : start = start.take n ++ c :: (algo ++ rest) := by
            rw [← parts, List.take_append_drop]
          have comment : (start.take n ++ [c]).head? ≠ some 35 := by
            intro sharp
            obtain ⟨tail, sharp⟩ := List.head?_eq_some_iff.mp sharp
            apply noComment (tail ++ (algo ++ rest))
            calc start = start.take n ++ c :: (algo ++ rest) := cut
              _ = start.take n ++ [c] ++ (algo ++ rest) := (List.append_cons _ _ _)
              _ = 35 :: tail ++ (algo ++ rest) := congrArg (· ++ (algo ++ rest)) sharp
          have named : Names algo (some (start.take n))
              (line.takeWhile isBlank ++ (start.take n ++ c :: (algo ++ rest))) rest :=
            .options rest (fun b hb => List.mem_takeWhile_imp hb) blank comment
          rw [← cut, ← whole] at named
          exact named

/-- The text behind the name, as far as the blank behind it. -/
def dataOf (text : Bytes) : Bytes := text.takeWhile (· != 32)

theorem cmpBase64Key_true {text : Bytes} (h : cmpBase64Key keyblob algo text = .ok true) :
    Base64.decode text = some keyblob ∧
      ∃ len rest, bufGetInt keyblob = .ok (len, rest) ∧ bufGetPtr rest len = .ok algo := by
  unfold cmpBase64Key at h
  split at h
  · cases h
  cases decoded : Base64.decode text with
  | none =>
    rw [decoded] at h
    cases h
  | some b =>
    rw [decoded] at h
    dsimp only at h
    split at h
    · rename_i same
      subst same
      obtain ⟨⟨len, rest⟩, int, h⟩ := bind_ok.mp h
      obtain ⟨name, ptr, h⟩ := bind_ok.mp h
      have named : name = algo := beq_iff_eq.mp (Except.ok.inj h)
      subst named
      exact ⟨rfl, len, rest, int, ptr⟩
    · cases h

/-- A line that lets a key in. -/
structure Lists (parse : Option Bytes → Option ω) (algo keyblob : Bytes) (o : Options ω)
    (line : Bytes) : Prop where
  bounds : minAuthkeysLine ≤ line.length ∧ line.length ≤ maxAuthkeysLine ∧ (0 : UInt8) ∉ line
  named : ∃ options text, Names algo options line (32 :: text) ∧
    Base64.decode (dataOf text) = some keyblob ∧ parse options = some o.parsed
  type : ∃ len rest, bufGetInt keyblob = .ok (len, rest) ∧ bufGetPtr rest len = .ok algo

theorem checkpubkeyLine_some (h : checkpubkeyLine parse algo keyblob line = .ok (some o)) :
    Lists parse algo keyblob o line := by
  unfold checkpubkeyLine at h
  split at h
  · cases h
  rename_i bounds
  simp only [Bool.or_eq_true, decide_eq_true_eq, not_or, Nat.not_lt, List.contains_iff_mem]
    at bounds
  obtain ⟨entry, found, h⟩ := bind_ok.mp h
  split at h
  · cases h
  · rename_i options rest
    split at h
    · rename_i text
      dsimp only at h
      obtain ⟨same, compared, h⟩ := bind_ok.mp h
      cases same with
      | false => cases h
      | true =>
        obtain ⟨decoded, type⟩ := cmpBase64Key_true compared
        have parsed := Except.ok.inj h
        rw [if_pos rfl, Option.map_eq_some_iff] at parsed
        obtain ⟨p, parsed, rfl⟩ := parsed
        exact ⟨⟨bounds.1.1, bounds.1.2, bounds.2⟩,
          ⟨options, text, findEntry_names found, decoded, parsed⟩, type⟩
    · cases h

/-- The lines before the one that decides give nothing. -/
theorem checkLines_some {lines : List Bytes}
    (h : checkLines parse algo keyblob lines = .ok (some o)) :
    ∃ before line after, lines = before ++ line :: after ∧
      (∀ x ∈ before, checkpubkeyLine parse algo keyblob x = .ok none) ∧
      checkpubkeyLine parse algo keyblob line = .ok (some o) := by
  induction lines with
  | nil => cases h
  | cons x xs ih =>
    rw [checkLines] at h
    obtain ⟨first, checked, h⟩ := bind_ok.mp h
    cases first with
    | some found =>
      cases h
      exact ⟨[], x, xs, rfl, nofun, checked⟩
    | none =>
      obtain ⟨before, line, after, rfl, nothing, decides⟩ := ih h
      refine ⟨x :: before, line, after, rfl, ?_, decides⟩
      intro y hy
      obtain rfl | hy := List.mem_cons.mp hy
      · exact checked
      · exact nothing y hy

/-- Whatever the file holds: a key that is accepted is the one that a line of it spells out
behind the algorithm's name, the key is itself of that algorithm, and the options are those
of the line, which is the first that decides. -/
theorem accepted_is_listed {file : Option Bytes}
    (h : checkpubkey parse algo keyblob file = .ok (some o)) :
    ∃ content before line after, file = some content ∧
      getlines [] content = before ++ line :: after ∧
      (∀ x ∈ before, checkpubkeyLine parse algo keyblob x = .ok none) ∧
      Lists parse algo keyblob o line := by
  cases file with
  | none => cases h
  | some content =>
    obtain ⟨before, line, after, parts, nothing, decides⟩ := checkLines_some h
    exact ⟨content, before, line, after, rfl, parts, nothing, checkpubkeyLine_some decides⟩

end

/-- A key with an option in front of it and a comment behind it. -/
theorem accepted_is_listed_options : ∃ content before line after,
    some (lit "no-pty ssh-rsa AAAAB3NzaC1yc2EB me\n") = some content ∧
    getlines [] content = before ++ line :: after ∧
    (∀ x ∈ before, checkpubkeyLine some (lit "ssh-rsa") (putString (lit "ssh-rsa") ++ [1]) x =
      .ok none) ∧
    Lists some (lit "ssh-rsa") (putString (lit "ssh-rsa") ++ [1])
      ⟨some (lit "no-pty"), some (lit "me")⟩ line :=
  accepted_is_listed (by rfl)

end Ikofi.Keys
