import Ikofi.Options.Listeners
import Ikofi.Options.Quoting

/-!
# The port field

The field is disabled as soon as the options have the two letters `-p` anywhere.
The port is left out only if `-p` is a word of its own, which depends on the
quotes before it and behind it.
-/

namespace Ikofi.Options

/-- `String.contains`. -/
def contains (part : JString) : JString → Bool
  | [] => part.isEmpty
  | u :: s => part.isPrefixOf (u :: s) || contains part s

/-- The field as the user sees it; the options are `none` where they were never set. -/
def setPortPrefEnabled (s : Option JString) : Bool :=
  match s with
  | none => true
  | some s => ! contains (jlit "-p") s

/-- The preference is passed on, in front of the user's options. -/
def PassesPort (options port : Option JString) : Prop :=
  startSshdArgs (options.getD []) (getPort port) =
    [jlit "sshd", jlit "-e", jlit "-R", jlit "-F"] ++
      [jlit "-p", jlit (toString (getPort port).toInt)] ++ splitOptions (options.getD [])

/-- Where a text has been read to: outside of quotes, in a word with a quote in it, behind
such a word, or in a word that ends the quotes. -/
inductive Place
  | plain | opened | quoted | closed
  deriving DecidableEq, Repr

def Place.next (p : Place) (u : UInt16) : Place :=
  match p with
  | .plain => if u = quote then .opened else .plain
  | .opened => if isSpace u then .quoted else .opened
  | .quoted => if u = quote then .closed else .quoted
  | .closed => if isSpace u then .plain else .closed

def Place.after (p : Place) (s : JString) : Place := s.foldl Place.next p

/-- White space in front, or nothing. -/
def Behind (before : JString) : Prop := ∀ u ∈ before.getLast?, isSpace u = true

/-- The letters `-p`, with nothing attached to them and not between two quotes. -/
def StandsAlone (s : JString) : Prop :=
  ∃ before rest, s = before ++ (jlit "-p" ++ rest) ∧ Behind before ∧ Boundary rest ∧
    (Place.plain.after before = .quoted → quote ∉ rest)

section
variable {s a b t run mid more rest : JString} {ts : List JString} {p : Place} {u : UInt16}

namespace Place

theorem after_append : p.after (a ++ b) = (p.after a).after b := List.foldl_append

theorem after_cons : p.after (u :: s) = (p.next u).after s := rfl

/-- What every unit keeps, the text keeps. -/
theorem after_stays (h : ∀ u ∈ s, p.next u = p) : p.after s = p := by
  induction s with
  | nil => rfl
  | cons u s ih =>
    rw [List.forall_mem_cons] at h
    rw [after_cons, h.1, ih h.2]

theorem plain_after (h : quote ∉ s) : plain.after s = plain :=
  after_stays fun _ hu => if_neg (ne_of_mem_of_not_mem hu h)

theorem quoted_after (h : quote ∉ s) : quoted.after s = quoted :=
  after_stays fun _ hu => if_neg (ne_of_mem_of_not_mem hu h)

theorem opened_after (h : Word s) : opened.after s = opened :=
  after_stays fun u hu => if_neg (by simp [h u hu])

theorem closed_after (h : Word s) : closed.after s = closed :=
  after_stays fun u hu => if_neg (by simp [h u hu])

theorem plain_after_run (word : Word run) (opens : quote ∈ run) : plain.after run = opened := by
  obtain ⟨before, tail, rfl, first⟩ := List.eq_append_cons_of_mem opens
  have last : Word tail := fun u hu => word u (by simp [hu])
  rw [after_append, plain_after first]
  exact opened_after last

theorem opened_after_space (filled : mid ≠ []) (ends : Boundary mid) (plain : quote ∉ mid) :
    opened.after mid = quoted := by
  obtain ⟨u, mid, rfl⟩ := List.exists_cons_of_ne_nil filled
  rw [List.mem_cons, not_or] at plain
  rw [after_cons, next, if_pos (ends u rfl), quoted_after plain.2]

theorem closed_after_space (filled : s ≠ []) (ends : Boundary s) :
    closed.after s = plain.after s := by
  obtain ⟨u, s, rfl⟩ := List.exists_cons_of_ne_nil filled
  have space := ends u rfl
  have other : u ≠ quote := by
    rintro rfl
    exact absurd space (by decide)
  rw [after_cons, after_cons, next, next, if_pos space, if_neg other]

end Place

/-- A word cannot end in white space. -/
theorem behind_word (word : Word a) (behind : Behind a) : a = [] := by
  by_contra filled
  have last := behind _ (List.getLast?_eq_getLast_of_ne_nil filled)
  rw [word _ (List.getLast_mem filled)] at last
  cases last

theorem behind_append (filled : b ≠ []) : Behind (a ++ b) ↔ Behind b := by
  unfold Behind
  rw [List.getLast?_append_of_ne_nil _ filled]

theorem word_append : Word (a ++ b) ↔ Word a ∧ Word b := List.forall_mem_append

/-- The word at the front of a text. -/
theorem word_unique (hs : Word s) (ht : Word t) (ha : Boundary a) (hb : Boundary b)
    (h : s ++ a = t ++ b) : s = t := by
  have same := dropWhile_word hs ha
  rw [h, dropWhile_word ht hb] at same
  rw [same] at h
  exact List.append_cancel_right h

/-- The letters stand behind the token, or start in it. -/
theorem token_split (ends : Boundary rest) (h : t ++ rest = a ++ (jlit "-p" ++ b)) :
    (∃ a', a' ≠ [] ∧ a = t ++ a' ∧ rest = a' ++ (jlit "-p" ++ b)) ∨
    (∃ t', t = a ++ t' ∧ t' ++ rest = jlit "-p" ++ b) := by
  rcases List.append_eq_append_iff.mp h with ⟨a', rfl, tail⟩ | ⟨t', rfl, tail⟩
  · cases a' with
    | nil =>
      subst tail
      exact absurd (ends _ rfl) (by decide)
    | cons u a' => exact .inl ⟨u :: a', by simp, rfl, tail⟩
  · exact .inr ⟨t', rfl, tail.symm⟩

theorem contains_iff : contains t s = true ↔ t <:+: s := by
  induction s with
  | nil => simp [contains]
  | cons u s ih => rw [contains, Bool.or_eq_true, ih, List.isPrefixOf_iff_prefix, List.infix_cons_iff]

theorem not_stands_nil : ¬ StandsAlone [] := by
  rintro ⟨before, rest, cut, -⟩
  have letters := List.append_eq_nil_iff.mp (List.append_eq_nil_iff.mp cut.symm).2
  exact absurd letters.1 (by decide)

theorem StandsAlone.isInfix (h : StandsAlone s) : jlit "-p" <:+: s := by
  obtain ⟨before, rest, rfl, -⟩ := h
  exact ⟨before, rest, List.append_assoc _ _ _⟩

theorem stands_space (space : isSpace u = true) : StandsAlone (u :: s) ↔ StandsAlone s := by
  have other : u ≠ quote := by
    rintro rfl
    exact absurd space (by decide)
  have passed (before : JString) :
      Place.plain.after (u :: before) = Place.plain.after before := by
    rw [Place.after_cons, Place.next, if_neg other]
  constructor
  · rintro ⟨before, rest, cut, behind, ends, outside⟩
    cases before with
    | nil =>
      obtain ⟨rfl, -⟩ := List.cons.inj cut
      exact absurd space (by decide)
    | cons v before =>
      obtain ⟨rfl, rfl⟩ := List.cons.inj cut
      rw [passed] at outside
      refine ⟨before, rest, rfl, ?_, ends, outside⟩
      cases before with
      | nil => simp [Behind]
      | cons v before => exact (behind_append (a := [u]) (by simp)).mp behind
  · rintro ⟨before, rest, rfl, behind, ends, outside⟩
    refine ⟨u :: before, rest, rfl, ?_, ends, by rwa [passed]⟩
    cases before with
    | nil => simpa [Behind] using space
    | cons v before => exact (behind_append (a := [u]) (by simp)).mpr behind

/-- Behind a token the text is read as if it started there. -/
theorem stands_behind (ends : Boundary rest)
    (same : ∀ a b, a ≠ [] → rest = a ++ (jlit "-p" ++ b) →
      ((Place.plain.after (t ++ a) = .quoted → quote ∉ b) ↔
        (Place.plain.after a = .quoted → quote ∉ b))) :
    StandsAlone (t ++ rest) ↔ StandsAlone rest ∨
      ∃ before tail b, t = before ++ tail ∧ tail ++ rest = jlit "-p" ++ b ∧ Behind before ∧
        Boundary b ∧ (Place.plain.after before = .quoted → quote ∉ b) := by
  constructor
  · rintro ⟨before, b, cut, behind, boundary, outside⟩
    rcases token_split ends cut with ⟨a, filled, rfl, tail⟩ | ⟨tail, rfl, within⟩
    · exact .inl ⟨a, b, tail, (behind_append filled).mp behind, boundary,
        (same a b filled tail).mp outside⟩
    · exact .inr ⟨before, tail, b, rfl, within, behind, boundary, outside⟩
  · rintro (⟨a, b, cut, behind, boundary, outside⟩ | ⟨before, tail, b, rfl, within, rest⟩)
    · have filled : a ≠ [] := by
        rintro rfl
        subst cut
        exact absurd (ends _ rfl) (by decide)
      exact ⟨t ++ a, b, by rw [cut, List.append_assoc], (behind_append filled).mpr behind,
        boundary, (same a b filled cut).mpr outside⟩
    · exact ⟨before, b, by rw [List.append_assoc, within], rest⟩

/-- A word stands alone if it is `-p`. -/
theorem stands_word (filled : run ≠ []) (word : Word run) (ends : Boundary rest)
    (alone : quote ∈ run → quote ∉ rest) :
    StandsAlone (run ++ rest) ↔ jlit "-p" = run ∨ StandsAlone rest := by
  rw [stands_behind ends, or_comm]
  · refine or_congr_left ?_
    constructor
    · rintro ⟨before, tail, b, rfl, within, behind, boundary, -⟩
      obtain rfl := behind_word (word_append.mp word).1 behind
      exact (word_unique word (by decide) ends boundary within).symm
    · rintro rfl
      exact ⟨[], _, rest, rfl, rfl, by simp [Behind], ends, fun inside => by cases inside⟩
  · rintro a b - rfl
    by_cases opens : quote ∈ run
    · have none := alone opens
      simp only [List.mem_append, not_or] at none
      simp [none.2.2]
    · rw [Place.after_append, Place.plain_after opens]

/-- What ends in white space ends before the closing quote. -/
theorem space_inside (last : Word more) (behind : Behind a)
    (h : mid ++ quote :: more = a ++ t) : ∃ m, mid = a ++ m ∧ t = m ++ quote :: more := by
  rcases List.append_eq_append_iff.mp h with ⟨b, rfl, tail⟩ | ⟨m, rfl, rfl⟩
  · have none : b = [] := by
      by_contra filled
      have word : Word (b ++ t) := tail ▸ List.forall_mem_cons.mpr ⟨by decide, last⟩
      exact filled (behind_word (word_append.mp word).1 ((behind_append filled).mp behind))
    subst none
    exact ⟨[], by simp, tail.symm⟩
  · exact ⟨m, rfl, rfl⟩

/-- Between quotes nothing stands alone. -/
theorem stands_quoted (word : Word run) (opens : quote ∈ run) (filled : mid ≠ [])
    (midEnds : Boundary mid) (plain : quote ∉ mid) (last : Word more) (ends : Boundary rest) :
    StandsAlone (run ++ (mid ++ quote :: more) ++ rest) ↔ StandsAlone rest := by
  have read : Place.plain.after (run ++ (mid ++ quote :: more)) = .closed := by
    rw [Place.after_append, Place.plain_after_run word opens, Place.after_append,
      Place.opened_after_space filled midEnds plain, Place.after_cons]
    exact Place.closed_after last
  rw [stands_behind ends, or_iff_left]
  · rintro ⟨before, tail, b, cut, within, behind, boundary, outside⟩
    rcases List.append_eq_append_iff.mp cut with ⟨a, rfl, inner⟩ | ⟨run', rfl, rfl⟩
    · have aFilled : a ≠ [] := by
        rintro rfl
        rw [List.append_nil] at behind
        rw [behind_word word behind] at opens
        cases opens
      have aBehind := (behind_append aFilled).mp behind
      obtain ⟨m, rfl, closes⟩ := space_inside last aBehind inner
      have aEnds : Boundary a := by
        obtain ⟨u, a, rfl⟩ := List.exists_cons_of_ne_nil aFilled
        exact midEnds
      have aPlain : quote ∉ a := fun hq => plain (List.mem_append_left _ hq)
      -- the closing quote is still to come
      refine absurd (outside ?_) (not_not.mpr ?_)
      · rw [Place.after_append, Place.plain_after_run word opens,
          Place.opened_after_space aFilled aEnds aPlain]
      · have found : quote ∈ tail ++ rest := by simp [closes]
        rw [within] at found
        simpa [show quote ∉ jlit "-p" by decide] using found
    · obtain rfl := behind_word (word_append.mp word).1 behind
      have midEnds' : Boundary (mid ++ quote :: more ++ rest) := by
        obtain ⟨u, mid, rfl⟩ := List.exists_cons_of_ne_nil filled
        exact midEnds
      rw [List.append_assoc] at within
      rw [word_unique word (by decide) midEnds' boundary within] at opens
      exact absurd opens (by decide)
  · rintro a b filled rfl
    have aEnds : Boundary a := by
      obtain ⟨u, a, rfl⟩ := List.exists_cons_of_ne_nil filled
      exact ends
    rw [Place.after_append, read, Place.closed_after_space filled aEnds]

theorem mem_tokens_iff (h : Tokens s ts) : jlit "-p" ∈ ts ↔ StandsAlone s := by
  induction h with
  | nil => exact iff_of_false (by simp) not_stands_nil
  | space space _ ih => rw [ih, stands_space space]
  | word filled word ends alone _ ih =>
    rw [stands_word filled word ends alone, List.mem_cons, ih]
  | quoted word opens filled midEnds plain last ends _ ih =>
    rw [stands_quoted word opens filled midEnds plain last ends, List.mem_cons, ih, or_iff_right]
    intro same
    have letters : quote ∉ jlit "-p" := by decide
    rw [same] at letters
    exact letters (List.mem_append_left _ opens)

theorem passesPort_iff (options port : Option JString) :
    PassesPort options port ↔ jlit "-p" ∉ splitOptions (options.getD []) := by
  unfold PassesPort startSshdArgs
  by_cases found : jlit "-p" ∈ splitOptions (options.getD [])
  · refine iff_of_false ?_ (not_not.mpr found)
    intro same
    have longer := congrArg List.length same
    simp [found] at longer
  · refine iff_of_true ?_ found
    simp [found]

end

/-- The field shows whether the port is used as long as every `-p` that the options
have somewhere comes with one that stands alone. -/
theorem port_field_iff (options port : Option JString) :
    (setPortPrefEnabled options = true ↔ PassesPort options port) ↔
      ∀ s ∈ options, jlit "-p" <:+: s → StandsAlone s := by
  rw [passesPort_iff, mem_tokens_iff (tokens_splitOptions _)]
  cases options with
  | none => simp [setPortPrefEnabled, not_stands_nil]
  | some s =>
    have contained : StandsAlone s → jlit "-p" <:+: s := StandsAlone.isInfix
    simp only [setPortPrefEnabled, Option.getD_some, Bool.not_eq_true', ← Bool.not_eq_true,
      contains_iff, Option.mem_some_iff, forall_eq']
    tauto

/-- A banner whose path has the two letters in it: the port is used, and the field is
disabled. -/
theorem hyphen_in_path : ¬ ∀ options port : Option JString,
    setPortPrefEnabled options = true ↔ PassesPort options port := by
  intro all
  have words : Joined [jlit "-b", jlit "/sdcard/my-page"] (jlit "-b /sdcard/my-page") := by
    have nothing : Joined [] [] := .blank (by decide)
    have path : Joined [jlit "/sdcard/my-page"] (jlit " /sdcard/my-page") :=
      .word (show Gap (jlit " ") by decide) (by decide) nothing
    exact .word (show Gap [] by decide) (by decide) path
  have used : PassesPort (some (jlit "-b /sdcard/my-page")) none := by
    rw [passesPort_iff, Option.getD_some, splitOptions_joined words (by decide)]
    decide
  have shown := (all _ none).mpr used
  exact absurd shown (by decide)

end Ikofi.Options
