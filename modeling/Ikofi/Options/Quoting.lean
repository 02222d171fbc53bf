import Ikofi.Options.Tokens

/-!
# Quoted options

What a user writes to have words with white space among the options. The pattern
keeps the white space, and the quotes too.
-/

namespace Ikofi.Options

open Match

def Gap (s : JString) : Prop := ∀ u ∈ s, isSpace u = true

instance (s : JString) : Decidable (Gap s) :=
  decidable_of_iff (s.all isSpace = true) (by simp [Gap])

/-- A word as it is written: in quotes if there is white space in it. -/
def piece (w : JString) : JString := if w.any isSpace then quote :: (w ++ [quote]) else w

/-- A text with these words in it. Words have no quotes and are not empty, so where
another one follows, the white space between the two is not empty either. -/
inductive Joined : List JString → JString → Prop
  | blank {gap : JString} : Gap gap → Joined [] gap
  | word {gap w rest : JString} {ws : List JString} : Gap gap → Boundary rest →
      Joined ws rest → Joined (w :: ws) (gap ++ (piece w ++ rest))

/-- The words are what the text is split into, and they reach `argv` as they are. -/
def PassedOn (words : List JString) (text : JString) : Prop :=
  splitOptions text = words ∧
    ∀ port, words.map fromJavaString <:+ startSshdArgv text port

section
variable {s gap text w rest : JString} {words : List JString}

theorem splitOptions_gap (h : Gap gap) : splitOptions (gap ++ s) = splitOptions s := by
  induction gap with
  | nil => rfl
  | cons u gap ih =>
    have spaces := List.forall_mem_cons.mp h
    unfold splitOptions at ih ⊢
    rw [List.cons_append, findAll_skip (pattern_space spaces.1), ih spaces.2]

theorem piece_word (h : Word w) : piece w = w := by
  rw [piece, if_neg]
  simpa [Word] using h

theorem piece_spaced (h : ¬ Word w) : piece w = quote :: (w ++ [quote]) := by
  rw [piece, if_pos]
  simpa [Word] using h

theorem piece_eq_self : piece w = w ↔ Word w := by
  constructor
  · intro same
    by_contra h
    have longer := congrArg List.length (piece_spaced h)
    rw [same, List.length_cons, List.length_append] at longer
    omega
  · exact piece_word

/-- A piece is one match, with its quotes. -/
theorem pattern_piece (filled : w ≠ []) (plain : quote ∉ w) (ends : Boundary rest) :
    cmdOptionsPattern (piece w ++ rest) = some rest := by
  by_cases h : Word w
  · rw [piece_word h]
    exact pattern_word filled h ends fun opens => absurd opens plain
  · obtain ⟨run, hr⟩ : ∃ run, w.takeWhile (! isSpace ·) = run := ⟨_, rfl⟩
    obtain ⟨mid, hm⟩ : ∃ mid, w.dropWhile (! isSpace ·) = mid := ⟨_, rfl⟩
    have cut := w.takeWhile_append_dropWhile (p := (! isSpace ·))
    have word : Word run := hr ▸ word_takeWhile w
    have midEnds : Boundary mid := hm ▸ boundary_dropWhile w
    rw [hr, hm] at cut
    subst cut
    have spaced : mid ≠ [] := by
      rintro rfl
      exact h (by rwa [List.append_nil])
    have opened : Word (quote :: run) := List.forall_mem_cons.mpr ⟨by decide, word⟩
    have inside : quote ∉ mid := fun hq => plain (List.mem_append_right _ hq)
    have last : Word [] := by simp [Word]
    have found := pattern_quoted opened (by simp) spaced midEnds inside last ends
    rw [piece_spaced h]
    simpa using found

theorem piece_ne_nil (filled : w ≠ []) : piece w ≠ [] := by
  rw [piece]
  split <;> simp [filled]

/-- Every piece is found, and nothing else. -/
theorem splitOptions_joined (h : Joined words text) (plain : ∀ w ∈ words, w ≠ [] ∧ quote ∉ w) :
    splitOptions text = words.map piece := by
  induction h with
  | blank gap =>
    have nothing := splitOptions_gap gap (s := [])
    rw [List.append_nil] at nothing
    rw [nothing, splitOptions, findAll.eq_def]
    rfl
  | word gap ends _ ih =>
    obtain ⟨⟨filled, unquoted⟩, others⟩ := List.forall_mem_cons.mp plain
    rw [splitOptions_gap gap, splitOptions,
      findAll_match (piece_ne_nil filled) (pattern_piece filled unquoted ends)]
    rw [List.map_cons, ← ih others, splitOptions]

/-- The words come out as they were put in as long as none of them has white space.
A word that needed the quotes keeps them. -/
theorem quotes_respected_iff (words : List JString) (text : JString)
    (plain : ∀ w ∈ words, w ≠ [] ∧ quote ∉ w) (joined : Joined words text) :
    PassedOn words text ↔ ∀ w ∈ words, Word w := by
  have split := splitOptions_joined joined plain
  constructor
  · rintro ⟨same, -⟩ w hw
    rw [split] at same
    have fixed : words.map piece = words.map id := by rw [same, List.map_id]
    exact piece_eq_self.mp (List.map_inj_left.mp fixed w hw)
  · intro all
    have same : splitOptions text = words := by
      rw [split]
      exact (List.map_congr_left fun w hw => piece_word (all w hw)).trans (List.map_id words)
    refine ⟨same, fun port => ?_⟩
    rw [startSshdArgv, startSshdArgs, same, List.map_append]
    exact List.suffix_append _ _

end

def bannerWords : List JString := [jlit "-b", jlit "/sdcard/my banner"]

def bannerText : JString := jlit " -b \"/sdcard/my banner\"\n"

theorem bannerWords_plain : ∀ w ∈ bannerWords, w ≠ [] ∧ quote ∉ w := by decide

theorem banner_joined : Joined bannerWords bannerText := by
  have space : Gap (jlit " ") := by decide
  have nothing : Joined [] (jlit "\n") := .blank (by decide)
  have path : Joined [jlit "/sdcard/my banner"] (jlit " \"/sdcard/my banner\"\n") :=
    .word space (by decide) nothing
  exact .word space (by decide) path

/-- A path with a space, in quotes. -/
theorem quotes_respected_banner :
    PassedOn bannerWords bannerText ↔ ∀ w ∈ bannerWords, Word w :=
  quotes_respected_iff bannerWords bannerText bannerWords_plain banner_joined

/-- The path that `argv` has starts and ends with a quote. -/
theorem banner_keeps_quotes : ¬ ∀ (words : List JString) (text : JString),
    (∀ w ∈ words, w ≠ [] ∧ quote ∉ w) → Joined words text → PassedOn words text := by
  intro all
  obtain ⟨same, -⟩ := all bannerWords bannerText bannerWords_plain banner_joined
  rw [splitOptions_joined banner_joined bannerWords_plain] at same
  exact absurd same (by decide)

end Ikofi.Options
