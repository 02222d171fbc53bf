/-!
# Backtracking matchers

A matcher takes a list and, where it matches at its front, gives what remains.
Matchers are built from the back: each part is given what must match after it,
and tries its own choices in order until that succeeds.
-/

namespace Ikofi.Match

variable {α β : Type}

/-- One element of a class. -/
def one (p : α → Bool) (k : List α → Option β) : List α → Option β
  | [] => none
  | x :: xs => if p x then k xs else none

/-- Elements of a class, as many as possible first. -/
def many (p : α → Bool) (k : List α → Option β) : List α → Option β
  | [] => k []
  | x :: xs => if p x then (many p k xs).or (k (x :: xs)) else k (x :: xs)

/-- All matches from left to right, each one starting where the last one ended; after
an empty match one element is passed over. -/
def findAll (m : List α → Option (List α)) (xs : List α) : List (List α) :=
  match m xs, xs with
  | none, [] => []
  | none, _ :: ys => findAll m ys
  | some _, [] => [[]]
  | some rest, x :: ys =>
    if rest.length < (x :: ys).length then
      (x :: ys).take ((x :: ys).length - rest.length) :: findAll m rest
    else [] :: findAll m ys
termination_by xs.length
decreasing_by
  · exact Nat.lt_succ_self _
  · assumption
  · exact Nat.lt_succ_self _

section
variable {p : α → Bool} {k : List α → Option β} {xs ys : List α} {x : α} {r : β}

theorem one_eq_some : one p k xs = some r ↔ ∃ y ys, xs = y :: ys ∧ p y = true ∧ k ys = some r := by
  cases xs with
  | nil => simp [one]
  | cons x xs =>
    rw [one, Option.ite_none_right_eq_some]
    constructor
    · rintro ⟨hx, hk⟩
      exact ⟨x, xs, rfl, hx, hk⟩
    · rintro ⟨y, ys, same, hy, hk⟩
      cases same
      exact ⟨hy, hk⟩

theorem many_stop (h : p x = false) : many p k (x :: xs) = k (x :: xs) := by
  rw [many, h]
  rfl

/-- Elements that a later match leaves behind. -/
theorem many_longest (all : ∀ a ∈ xs, p a = true) (later : many p k ys = some r) :
    many p k (xs ++ ys) = some r := by
  induction xs with
  | nil => exact later
  | cons a xs ih =>
    rw [List.forall_mem_cons] at all
    rw [List.cons_append, many, if_pos all.1, ih all.2, Option.some_or]

/-- The choice is made as late as possible. -/
theorem many_here (h : p x = true) (later : many p k ys = none) (here : k (x :: ys) = some r) :
    many p k (x :: ys) = some r := by
  rw [many, if_pos h, later, Option.none_or, here]

theorem many_eq_some (h : many p k xs = some r) :
    ∃ a b, xs = a ++ b ∧ (∀ c ∈ a, p c = true) ∧ k b = some r := by
  induction xs with
  | nil => exact ⟨[], [], rfl, by simp, h⟩
  | cons x xs ih =>
    cases hx : p x with
    | false =>
      rw [many_stop hx] at h
      exact ⟨[], x :: xs, rfl, by simp, h⟩
    | true =>
      rw [many, if_pos hx, Option.or_eq_some_iff] at h
      rcases h with later | ⟨-, here⟩
      · obtain ⟨a, b, rfl, all, hb⟩ := ih later
        exact ⟨x :: a, b, rfl, List.forall_mem_cons.mpr ⟨hx, all⟩, hb⟩
      · exact ⟨[], x :: xs, rfl, by simp, here⟩

theorem many_some (xs : List α) : many p some xs = some (xs.dropWhile p) := by
  induction xs with
  | nil => rfl
  | cons x xs ih =>
    cases hx : p x with
    | false => rw [many_stop hx, List.dropWhile_cons_of_neg (by simp [hx])]
    | true => rw [many, if_pos hx, ih, Option.some_or, List.dropWhile_cons_of_pos hx]

end

section
variable {m : List α → Option (List α)} {x : α} {xs token rest : List α}

/-- No match at an element passes it over. -/
theorem findAll_skip (h : m (x :: xs) = none) : findAll m (x :: xs) = findAll m xs := by
  rw [findAll.eq_def, h]

/-- A match that is not empty is followed by the matches behind it. -/
theorem findAll_match (filled : token ≠ []) (h : m (token ++ rest) = some rest) :
    findAll m (token ++ rest) = token :: findAll m rest := by
  obtain ⟨x, token, rfl⟩ := List.exists_cons_of_ne_nil filled
  have shorter : rest.length < (x :: (token ++ rest)).length := by
    rw [List.length_cons, List.length_append]
    omega
  have taken : (x :: (token ++ rest)).length - rest.length = (x :: token).length := by
    rw [List.length_cons, List.length_append, List.length_cons]
    omega
  rw [List.cons_append] at h ⊢
  rw [findAll.eq_def, h]
  simp only [shorter, if_true, taken]
  rw [← List.cons_append, List.take_left]

end

end Ikofi.Match
