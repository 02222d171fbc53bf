import Ikofi.Options.Model

/-!
# The words of the extra options

`splitOptions` is a search with a backtracking expression. Where a word ends depends
on what follows it: a word with a quote in it goes on behind white space if there is
another quote further on, up to that quote and the word behind it.
-/

namespace Ikofi.Options

open Match

def Word (s : JString) : Prop := ∀ u ∈ s, isSpace u = false

instance (s : JString) : Decidable (Word s) :=
  decidable_of_iff (s.all (! isSpace ·) = true) (by simp [Word])

/-- White space, or nothing. -/
def Boundary (rest : JString) : Prop := ∀ u ∈ rest.head?, isSpace u = true

instance (rest : JString) : Decidable (Boundary rest) :=
  decidable_of_iff (rest.head?.all isSpace = true) (by cases rest <;> simp [Boundary])

/-- A text and the tokens that are found in it, one after the other. -/
inductive Tokens : JString → List JString → Prop
  | nil : Tokens [] []
  | space {u : UInt16} {s : JString} {ts : List JString} :
      isSpace u = true → Tokens s ts → Tokens (u :: s) ts
  | word {run rest : JString} {ts : List JString} : run ≠ [] → Word run → Boundary rest →
      (quote ∈ run → quote ∉ rest) → Tokens rest ts → Tokens (run ++ rest) (run :: ts)
  | quoted {run mid more rest : JString} {ts : List JString} : Word run → quote ∈ run →
      mid ≠ [] → Boundary mid → quote ∉ mid → Word more → Boundary rest → Tokens rest ts →
      Tokens (run ++ (mid ++ quote :: more) ++ rest) ((run ++ (mid ++ quote :: more)) :: ts)

section
variable {s run mid more rest xs : JString} {r : JString}

theorem dropWhile_word (word : Word run) (ends : Boundary rest) :
    (run ++ rest).dropWhile (! isSpace ·) = rest := by
  rw [List.dropWhile_append_of_pos (by simpa [Word] using word)]
  cases rest with
  | nil => rfl
  | cons u rest => rw [List.dropWhile_cons_of_neg (by simp [ends u rfl])]

/-- From an opening quote on: up to the next quote, and the word behind it. -/
def closing : JString → Option JString :=
  one (· == quote) (many (· != quote) (one (· == quote) (many (! isSpace ·) some)))

theorem closing_eq (mid more : JString) (plain : quote ∉ mid) :
    closing (quote :: (mid ++ quote :: more)) = some (more.dropWhile (! isSpace ·)) := by
  have inside : ∀ u ∈ mid, (u != quote) = true := by
    intro u hu
    simpa using ne_of_mem_of_not_mem hu plain
  refine one_eq_some.mpr ⟨_, _, rfl, by simp, many_longest inside ?_⟩
  rw [many_stop (by simp)]
  exact one_eq_some.mpr ⟨_, _, rfl, by simp, many_some more⟩

theorem closing_eq_some (h : closing s = some r) :
    ∃ mid more, s = quote :: (mid ++ quote :: more) ∧ r = more.dropWhile (! isSpace ·) := by
  obtain ⟨u, ys, rfl, opens, h⟩ := one_eq_some.mp h
  obtain ⟨mid, b, rfl, -, h⟩ := many_eq_some h
  obtain ⟨v, more, rfl, closes, h⟩ := one_eq_some.mp h
  rw [many_some] at h
  exact ⟨mid, more, by rw [eq_of_beq opens, eq_of_beq closes], (Option.some.inj h).symm⟩

theorem cmdOptionsPattern_eq (s : JString) :
    cmdOptionsPattern s =
      (many (! isSpace ·) closing s).or (one (! isSpace ·) (many (! isSpace ·) some) s) := rfl

/-- A match with quotes starts in the word at the front. -/
theorem quoted_eq_some (word : Word run) (ends : Boundary rest)
    (h : many (! isSpace ·) closing (run ++ rest) = some r) :
    ∃ before tail, run = before ++ quote :: tail ∧ closing (quote :: (tail ++ rest)) = some r := by
  obtain ⟨a, b, cut, all, closes⟩ := many_eq_some h
  obtain ⟨mid, more, rfl, -⟩ := closing_eq_some closes
  rcases List.append_eq_append_iff.mp cut with ⟨a', rfl, tl⟩ | ⟨tail, rfl, tl⟩
  · -- the part before the quote would reach over the boundary
    cases a' with
    | nil =>
      have first := ends quote (by rw [tl]; rfl)
      exact absurd first (by decide)
    | cons u a' =>
      have space := ends u (by rw [tl]; rfl)
      simpa [space] using all u (by simp)
  · cases tail with
    | nil =>
      rw [List.nil_append] at tl
      have first := ends quote (by rw [← tl]; rfl)
      exact absurd first (by decide)
    | cons u tail =>
      obtain ⟨rfl, same⟩ := List.cons.inj tl
      rw [same] at closes
      exact ⟨a, tail, rfl, closes⟩

/-- White space matches nothing. -/
theorem pattern_space {u : UInt16} (space : isSpace u = true) :
    cmdOptionsPattern (u :: s) = none := by
  have other : closing (u :: s) = none := by
    by_contra found
    obtain ⟨r, hr⟩ := Option.ne_none_iff_exists'.mp found
    obtain ⟨mid, more, same, -⟩ := closing_eq_some hr
    obtain rfl := (List.cons.inj same).1
    exact absurd space (by decide)
  rw [cmdOptionsPattern_eq, many_stop (by simp [space]), other, one]
  simp [space]

/-- A word alone. -/
theorem pattern_word (filled : run ≠ []) (word : Word run) (ends : Boundary rest)
    (alone : quote ∈ run → quote ∉ rest) : cmdOptionsPattern (run ++ rest) = some rest := by
  have bare : one (! isSpace ·) (many (! isSpace ·) some) (run ++ rest) = some rest := by
    obtain ⟨u, run, rfl⟩ := List.exists_cons_of_ne_nil filled
    unfold Word at word
    rw [List.forall_mem_cons] at word
    refine one_eq_some.mpr ⟨u, run ++ rest, rfl, by simp [word.1], ?_⟩
    rw [many_some, dropWhile_word word.2 ends]
  rw [cmdOptionsPattern_eq, bare]
  cases found : many (! isSpace ·) closing (run ++ rest) with
  | none => rfl
  | some r =>
    -- both quotes stand in the word, and it ends where it did
    obtain ⟨before, tail, rfl, closes⟩ := quoted_eq_some word ends found
    obtain ⟨mid, more, cut, rfl⟩ := closing_eq_some closes
    have none : quote ∉ rest := alone (by simp)
    rcases List.append_eq_append_iff.mp (List.cons.inj cut).2 with ⟨a', -, rfl⟩ | ⟨more', rfl, tl⟩
    · exact absurd (by simp) none
    · obtain ⟨-, rfl⟩ | ⟨more'', rfl, rfl⟩ := List.cons_eq_append_iff.mp tl
      · exact absurd (by simp) none
      · have last : Word more'' := fun u hu => word u (by simp [hu])
        rw [dropWhile_word last ends]
        rfl

/-- The last one of an element. -/
theorem exists_last {u : UInt16} (h : u ∈ xs) : ∃ before tail, xs = before ++ u :: tail ∧ u ∉ tail := by
  obtain ⟨tail, before, cut, first⟩ := List.eq_append_cons_of_mem (List.mem_reverse.mpr h)
  refine ⟨before.reverse, tail.reverse, ?_, by simpa using first⟩
  have back := congrArg List.reverse cut
  simpa using back

/-- A word with a quote, and another quote behind it. -/
theorem pattern_quoted (word : Word run) (opens : quote ∈ run) (filled : mid ≠ [])
    (ends : Boundary mid) (plain : quote ∉ mid) (last : Word more) (boundary : Boundary rest) :
    cmdOptionsPattern (run ++ (mid ++ quote :: more) ++ rest) = some rest := by
  obtain ⟨before, tail, rfl, only⟩ := exists_last opens
  have wordTail : Word tail := fun u hu => word u (by simp [hu])
  have shape : before ++ quote :: tail ++ (mid ++ quote :: more) ++ rest =
      before ++ quote :: (tail ++ (mid ++ quote :: (more ++ rest))) := by
    simp
  have behind : Boundary (mid ++ quote :: (more ++ rest)) := by
    obtain ⟨u, mid, rfl⟩ := List.exists_cons_of_ne_nil filled
    exact ends
  -- a later start would need a quote behind the last one of the word
  have later : many (! isSpace ·) closing (tail ++ (mid ++ quote :: (more ++ rest))) = none := by
    by_contra found
    obtain ⟨r, hr⟩ := Option.ne_none_iff_exists'.mp found
    obtain ⟨before', tail', rfl, -⟩ := quoted_eq_some wordTail behind hr
    exact only (by simp)
  have here : closing (quote :: (tail ++ (mid ++ quote :: (more ++ rest)))) = some rest := by
    have inside : quote ∉ tail ++ mid := by simp [only, plain]
    have closes := closing_eq (tail ++ mid) (more ++ rest) inside
    rwa [List.append_assoc, dropWhile_word last boundary] at closes
  have wordBefore : ∀ u ∈ before, (! isSpace u) = true := by
    intro u hu
    simp [word u (by simp [hu])]
  rw [shape, cmdOptionsPattern_eq, many_longest wordBefore (many_here (by decide) later here)]
  rfl

theorem boundary_dropWhile (s : JString) : Boundary (s.dropWhile (! isSpace ·)) := by
  intro u hu
  have := List.head?_dropWhile_not (! isSpace ·) s
  rw [hu] at this
  simpa using this

theorem word_takeWhile (s : JString) : Word (s.takeWhile (! isSpace ·)) := by
  intro u hu
  simpa using List.mem_takeWhile_imp hu

/-- What `splitOptions` finds. -/
theorem tokens_splitOptions (s : JString) : Tokens s (splitOptions s) := by
  induction hn : s.length using Nat.strong_induction_on generalizing s with
  | _ n ih =>
    unfold splitOptions at ih ⊢
    match s with
    | [] =>
      have none : findAll cmdOptionsPattern [] = [] := by
        rw [findAll.eq_def]
        rfl
      rw [none]
      exact .nil
    | u :: s =>
      cases space : isSpace u with
      | true =>
        rw [findAll_skip (pattern_space space)]
        exact .space space (ih _ (by rw [← hn]; exact Nat.lt_succ_self _) s rfl)
      | false =>
        obtain ⟨run, hr⟩ : ∃ run, (u :: s).takeWhile (! isSpace ·) = run := ⟨_, rfl⟩
        obtain ⟨rest, ht⟩ : ∃ rest, (u :: s).dropWhile (! isSpace ·) = rest := ⟨_, rfl⟩
        have cut := (u :: s).takeWhile_append_dropWhile (p := (! isSpace ·))
        have filled : run ≠ [] := by simp [← hr, space]
        have word : Word run := hr ▸ word_takeWhile _
        have ends : Boundary rest := ht ▸ boundary_dropWhile _
        rw [hr, ht] at cut
        rw [← cut] at hn ⊢
        rw [List.length_append] at hn
        have first := List.length_pos_of_ne_nil filled
        by_cases alone : quote ∈ run → quote ∉ rest
        · rw [findAll_match filled (pattern_word filled word ends alone)]
          exact .word filled word ends alone (ih _ (by omega) rest rfl)
        · -- the next quote is found, and the word goes on behind it
          rw [Classical.not_imp, not_not] at alone
          obtain ⟨opens, closes⟩ := alone
          obtain ⟨mid, tail, rfl, plain⟩ := List.eq_append_cons_of_mem closes
          have midFilled : mid ≠ [] := by
            rintro rfl
            exact absurd (ends quote rfl) (by decide)
          have midEnds : Boundary mid := by
            obtain ⟨v, mid, rfl⟩ := List.exists_cons_of_ne_nil midFilled
            exact ends
          obtain ⟨more, hm⟩ : ∃ more, tail.takeWhile (! isSpace ·) = more := ⟨_, rfl⟩
          obtain ⟨rest, ht⟩ : ∃ rest, tail.dropWhile (! isSpace ·) = rest := ⟨_, rfl⟩
          have last : Word more := hm ▸ word_takeWhile _
          have boundary : Boundary rest := ht ▸ boundary_dropWhile _
          have tailCut := tail.takeWhile_append_dropWhile (p := (! isSpace ·))
          rw [hm, ht] at tailCut
          subst tailCut
          have shape : run ++ (mid ++ quote :: (more ++ rest)) =
              run ++ (mid ++ quote :: more) ++ rest := by simp
          rw [shape, findAll_match (by simp)
            (pattern_quoted word opens midFilled midEnds plain last boundary)]
          refine .quoted word opens midFilled midEnds plain last boundary (ih _ ?_ rest rfl)
          simp only [List.length_append, List.length_cons] at hn
          omega

end

end Ikofi.Options
