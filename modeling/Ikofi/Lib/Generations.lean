import Mathlib.Data.List.Basic

/-!
# Generations of a growing file

A name stands for one file after the other. Each file only grows, shows a stamp that
may change when it does, and goes on growing under the hands of those who have it open
when the name is taken from it. An observer samples the stamp, then the length, and
does something about the content at leisure. If no two files have a stamp in common,
equal samples later on mean that nothing has changed since.
-/

namespace Ikofi.Generations

/-- What one file holds, the stamp it shows, and those that it has shown before. -/
structure Generation (α κ : Type) where
  content : List α
  stamp : κ
  earlier : List κ := []
  deriving DecidableEq, Repr

/-- The files in the order in which they were made, and the one that has the name. -/
structure Store (α κ : Type) where
  made : List (Generation α κ)
  current : Option Nat
  valid : ∀ i ∈ current, i < made.length

inductive Change (α κ : Type)
  | append (i : Nat) (text : List α) (stamp : κ)
  | remove
  | create (stamp : κ)
  deriving DecidableEq, Repr

variable {α κ : Type}

namespace Generation

def stamps (g : Generation α κ) : List κ := g.stamp :: g.earlier

def append (g : Generation α κ) (text : List α) (stamp : κ) : Generation α κ :=
  ⟨g.content ++ text, stamp, g.stamps⟩

/-- At most one append lies between the two. -/
def Grown (g h : Generation α κ) : Prop :=
  h = g ∨ ∃ text stamp, text ≠ [] ∧ h = g.append text stamp

theorem Grown.stamps {g h : Generation α κ} (grown : Grown g h) {x : κ} (hx : x ∈ g.stamps) :
    x ∈ h.stamps := by
  rcases grown with rfl | ⟨text, stamp, -, rfl⟩
  · exact hx
  · exact List.mem_cons_of_mem stamp hx

theorem Grown.same_or_longer {g h : Generation α κ} (grown : Grown g h) :
    h = g ∨ g.content.length < h.content.length := by
  rcases grown with rfl | ⟨text, stamp, filled, rfl⟩
  · exact Or.inl rfl
  · have positive := List.length_pos_of_ne_nil filled
    simp only [append, List.length_append]
    omega

end Generation

open Generation

namespace Store

def empty : Store α κ := ⟨[], none, by simp⟩

/-- A write of nothing leaves the stamp as well. -/
def append (s : Store α κ) (i : Nat) (text : List α) (stamp : κ) : Store α κ :=
  if text = [] then s
  else ⟨s.made.modify i fun g => g.append text stamp, s.current, by simpa using s.valid⟩

def remove (s : Store α κ) : Store α κ := ⟨s.made, none, by simp⟩

/-- Opening for writing leaves a file that is there as it is. -/
def create (s : Store α κ) (stamp : κ) : Store α κ :=
  if s.current.isSome then s
  else ⟨s.made ++ [⟨[], stamp, []⟩], some s.made.length, by simp⟩

def after (s : Store α κ) : Change α κ → Store α κ
  | .append i text stamp => s.append i text stamp
  | .remove => s.remove
  | .create stamp => s.create stamp

def file (s : Store α κ) : Option (Generation α κ) := s.current.bind fun i => s.made[i]?

/-- The stamp that the name shows, zero where it stands for no file. -/
def stamp [Zero κ] (s : Store α κ) : κ := (s.file.map Generation.stamp).getD 0

def length (s : Store α κ) : Nat := (s.file.map fun g => g.content.length).getD 0

/-- What one holds who has file `i` open. -/
def content (s : Store α κ) (i : Nat) : List α := (s.made[i]?.map Generation.content).getD []

/-- The name stands for file `i`, which shows the stamp `x` or has shown it before. -/
def Shows (s : Store α κ) (i : Nat) (x : κ) : Prop :=
  s.current = some i ∧ ∃ g, s.made[i]? = some g ∧ x ∈ g.stamps

/-- No two files have shown the same stamp, zero apart. -/
def Apart [Zero κ] (s : Store α κ) : Prop :=
  s.made.Pairwise fun g h => ∀ x ∈ g.stamps, x ∈ h.stamps → x = 0

section
variable {s : Store α κ} {c : Change α κ} {i : Nat} {g h : Generation α κ}

theorem file_of_current (current : s.current = some i) (made : s.made[i]? = some g) :
    s.file = some g := by
  rw [file, current, Option.bind_some, made]

theorem content_of_made (made : s.made[i]? = some g) : s.content i = g.content := by
  rw [content, made]
  rfl

theorem length_of_current (current : s.current = some i) (made : s.made[i]? = some g) :
    s.length = g.content.length := by
  rw [length, file_of_current current made]
  rfl

theorem exists_current (current : s.current = some i) : ∃ g, s.made[i]? = some g :=
  ⟨_, List.getElem?_eq_getElem (s.valid i current)⟩

theorem made_after (made : s.made[i]? = some g) :
    ∃ h, (s.after c).made[i]? = some h ∧ Grown g h := by
  cases c with
  | append j text stamp =>
    simp only [after, append]
    split
    · exact ⟨g, made, Or.inl rfl⟩
    · rename_i filled
      rw [List.getElem?_modify, made]
      by_cases same : j = i
      · exact ⟨g.append text stamp, by simp [same], Or.inr ⟨text, stamp, filled, rfl⟩⟩
      · exact ⟨g, by simp [same], Or.inl rfl⟩
  | remove => exact ⟨g, made, Or.inl rfl⟩
  | create stamp =>
    have bound := (List.getElem?_eq_some_iff.mp made).1
    simp only [after, create]
    split
    · exact ⟨g, made, Or.inl rfl⟩
    · exact ⟨g, by rw [List.getElem?_append_left bound, made], Or.inl rfl⟩

/-- A file of the later state is one of the earlier state, or new. -/
theorem made_of_after (made : (s.after c).made[i]? = some h) :
    (∃ g, s.made[i]? = some g ∧ Grown g h) ∨ s.made.length ≤ i := by
  by_cases bound : i < s.made.length
  · obtain ⟨h', made', grown⟩ := made_after (c := c) (List.getElem?_eq_getElem bound)
    obtain rfl : h' = h := Option.some.inj (made'.symm.trans made)
    exact Or.inl ⟨_, List.getElem?_eq_getElem bound, grown⟩
  · exact Or.inr (Nat.le_of_not_lt bound)

theorem current_append {text : List α} {x : κ} : (s.append i text x).current = s.current := by
  unfold append
  split <;> rfl

/-- The name never comes back to a file. -/
theorem current_of_after (current : (s.after c).current = some i) :
    s.current = some i ∨ s.made.length ≤ i := by
  cases c with
  | append j text stamp => exact Or.inl (current_append.symm.trans current)
  | remove => cases current
  | create stamp =>
    simp only [after, create] at current
    split at current
    · exact Or.inl current
    · cases current
      exact Or.inr (Nat.le_refl _)

theorem Shows.append {x y : κ} {j : Nat} {text : List α} (h : s.Shows i x) :
    (s.append j text y).Shows i x := by
  obtain ⟨current, g, made, hx⟩ := h
  obtain ⟨g', made', grown⟩ := made_after (c := .append j text y) made
  exact ⟨current_append.trans current, g', made', grown.stamps hx⟩

section
variable [Zero κ]

theorem apart_iff : s.Apart ↔
    ∀ (i j : Nat) (g h : Generation α κ), s.made[i]? = some g → s.made[j]? = some h →
      ∀ x ≠ (0 : κ), x ∈ g.stamps → x ∈ h.stamps → i = j := by
  unfold Apart
  rw [List.pairwise_iff_getElem]
  constructor
  · intro apart i j g h hi hj x nonzero hg hh
    obtain ⟨bi, rfl⟩ := List.getElem?_eq_some_iff.mp hi
    obtain ⟨bj, rfl⟩ := List.getElem?_eq_some_iff.mp hj
    rcases Nat.lt_trichotomy i j with lt | same | gt
    · exact absurd (apart i j bi bj lt x hg hh) nonzero
    · exact same
    · exact absurd (apart j i bj bi gt x hh hg) nonzero
  · intro unique i j bi bj lt x hg hh
    by_contra nonzero
    have same := unique i j _ _ (List.getElem?_eq_getElem bi) (List.getElem?_eq_getElem bj) x
      nonzero hg hh
    omega

theorem apart_of_after (apart : (s.after c).Apart) : s.Apart := by
  rw [apart_iff] at apart ⊢
  intro i j g h hi hj x nonzero hg hh
  obtain ⟨g', hi', grown⟩ := made_after (c := c) hi
  obtain ⟨h', hj', grown'⟩ := made_after (c := c) hj
  exact apart i j g' h' hi' hj' x nonzero (grown.stamps hg) (grown'.stamps hh)

theorem stamp_of_current (current : s.current = some i) (made : s.made[i]? = some g) :
    s.stamp = g.stamp := by
  rw [stamp, file_of_current current made]
  rfl

theorem shows_stamp (nonzero : s.stamp ≠ 0) : ∃ i, s.Shows i s.stamp := by
  cases hc : s.current with
  | none => simp [stamp, file, hc] at nonzero
  | some i =>
    obtain ⟨g, made⟩ := exists_current hc
    refine ⟨i, hc, g, made, ?_⟩
    rw [stamp_of_current hc made]
    exact List.mem_cons_self

/-- An observer has seen the stamp `stamp`, and then the length `length`. As long as the
name stands for a file of this stamp and this length, `P` holds of it. -/
structure Sampled (s : Store α κ) (stamp : κ) (length : Nat) (P : Nat → List α → Prop) : Prop where
  shown : stamp ≠ 0 → ∃ (i : Nat) (g : Generation α κ), s.made[i]? = some g ∧ stamp ∈ g.stamps
  holds : stamp ≠ 0 → ∀ (i : Nat) (g : Generation α κ), s.current = some i →
    s.made[i]? = some g → stamp ∈ g.stamps →
    length ≤ g.content.length ∧ (length = g.content.length → P i g.content)

variable {x : κ} {n : Nat} {P Q : Nat → List α → Prop}

theorem Sampled.zero : Sampled s 0 n P := ⟨absurd rfl, absurd rfl⟩

theorem Sampled.imp (h : Sampled s x n P)
    (imp : ∀ i g, s.current = some i → s.made[i]? = some g → P i g.content → Q i g.content) :
    Sampled s x n Q := by
  refine ⟨h.shown, fun nonzero i g current made hx => ?_⟩
  obtain ⟨le, same⟩ := h.holds nonzero i g current made hx
  exact ⟨le, fun eq => imp i g current made (same eq)⟩

/-- The stamp that is shown now. -/
theorem Sampled.ofStamp : Sampled s s.stamp 0 (fun _ _ => True) := by
  refine ⟨fun nonzero => ?_, fun _ _ _ _ _ _ => ⟨Nat.zero_le _, fun _ => trivial⟩⟩
  obtain ⟨i, -, g, made, hx⟩ := shows_stamp nonzero
  exact ⟨i, g, made, hx⟩

/-- The length that is found now, with a stamp that was seen before. -/
theorem Sampled.ofLength (h : Sampled s x n P) : Sampled s x s.length (fun _ _ => True) := by
  refine ⟨h.shown, fun _ i g current made _ => ?_⟩
  exact ⟨Nat.le_of_eq (length_of_current current made), fun _ => trivial⟩

/-- An append makes the file longer than it was, and a new file has no stamp that was
seen before. -/
theorem Sampled.after (h : Sampled s x n P) (apart : (s.after c).Apart) :
    Sampled (s.after c) x n P := by
  constructor
  · intro nonzero
    obtain ⟨i, g, made, hx⟩ := h.shown nonzero
    obtain ⟨g', made', grown⟩ := made_after (c := c) made
    exact ⟨i, g', made', grown.stamps hx⟩
  · intro nonzero j g' current made' hx'
    obtain ⟨i, g, made, hx⟩ := h.shown nonzero
    obtain ⟨k, madeK, grown⟩ := made_after (c := c) made
    obtain rfl : i = j :=
      apart_iff.mp apart i j k g' madeK made' x nonzero (grown.stamps hx) hx'
    have bound := (List.getElem?_eq_some_iff.mp made).1
    rcases current_of_after current with current | new
    · rcases made_of_after made' with ⟨g₀, made₀, grown⟩ | new
      · obtain rfl : g = g₀ := Option.some.inj (made.symm.trans made₀)
        obtain ⟨le, same⟩ := h.holds nonzero i g current made hx
        rcases grown.same_or_longer with rfl | longer
        · exact ⟨le, same⟩
        · exact ⟨by omega, fun eq => by omega⟩
      · omega
    · omega

end

end

end Store

end Ikofi.Generations
