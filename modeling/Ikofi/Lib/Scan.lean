import Mathlib.Data.List.DropRight

/-!
# Scanning up to a terminator

A block of memory that holds a terminator is read by index. A read behind the first
terminator is an error, so that a scanner which returns has read the text and its
terminator only.
-/

namespace Ikofi.Scan

variable {α : Type} [DecidableEq α] {stop : α}

structure Terminated (stop : α) where
  block : List α
  ends : stop ∈ block

namespace Terminated

/-- What stands before the first terminator. -/
def text (s : Terminated stop) : List α := s.block.takeWhile (· != stop)

/-- `s[i]`; the error is the index of a read behind the terminator. -/
def deref (s : Terminated stop) (i : Nat) : Except Nat α :=
  match (s.block.take (s.text.length + 1))[i]? with
  | some a => .ok a
  | none => .error i

variable {s : Terminated stop} {i : Nat}

/-- The block is its text, the terminator, and more. -/
theorem block_eq (s : Terminated stop) : ∃ rest, s.block = s.text ++ stop :: rest := by
  have cut := s.block.takeWhile_append_dropWhile (p := (· != stop))
  have behind : s.block.dropWhile (· != stop) ≠ [] := by
    intro none
    have := List.dropWhile_eq_nil_iff.mp none stop s.ends
    simp at this
  obtain ⟨a, rest, hr⟩ := List.exists_cons_of_ne_nil behind
  have first := List.head_dropWhile_not (p := (· != stop)) (l := s.block) behind
  simp only [hr, List.head_cons, bne_eq_false_iff_eq] at first
  exact ⟨rest, by rw [← cut, hr, first]; rfl⟩

theorem le_of_deref {a : α} (h : s.deref i = .ok a) : i ≤ s.text.length := by
  unfold deref at h
  split at h
  · rename_i found
    obtain ⟨inside, -⟩ := List.getElem?_eq_some_iff.mp found
    rw [List.length_take] at inside
    omega
  · cases h

theorem text_length_lt : s.text.length < s.block.length := by
  obtain ⟨rest, whole⟩ := s.block_eq
  have := congrArg List.length whole
  simp only [List.length_append, List.length_cons] at this
  omega

/-- `while (p(s[i])) i++`. -/
def span (p : α → Bool) (s : Terminated stop) (i : Nat) : Except Nat Nat :=
  match h : s.deref i with
  | .error e => .error e
  | .ok a => if p a then span p s (i + 1) else .ok i
termination_by s.block.length - i
decreasing_by
  have := le_of_deref h
  have := s.text_length_lt
  omega

theorem span_step {p : α → Bool} {a : α} (h : s.deref i = .ok a) :
    span p s i = if p a then span p s (i + 1) else .ok i := by
  rw [span]
  split
  · rename_i e he
    rw [he] at h
    cases h
  · rename_i b hb
    rw [hb] at h
    cases h
    rfl

/-- The elements from `i` to `j`. -/
def slice (s : Terminated stop) (i j : Nat) : List α := (s.block.drop i).take (j - i)

/-- `i` points into the text or at its terminator, and `rest` is the text from there on. -/
structure At (s : Terminated stop) (i : Nat) (rest : List α) : Prop where
  inside : i ≤ s.text.length
  rest : s.text.drop i = rest

namespace At

variable {xs rest : List α}

theorem start (s : Terminated stop) : At s 0 s.text := ⟨Nat.zero_le _, rfl⟩

theorem of_deref {a : α} (h : s.deref i = .ok a) : At s i (s.text.drop i) := ⟨le_of_deref h, rfl⟩

theorem ne_stop (h : At s i rest) {a : α} (ha : a ∈ rest) : a ≠ stop := by
  rw [← h.rest] at ha
  simpa using List.mem_takeWhile_imp (List.mem_of_mem_drop ha)

theorem move (h : At s i (xs ++ rest)) : At s (i + xs.length) rest := by
  obtain ⟨inside, tail⟩ := h
  have length := congrArg List.length tail
  rw [List.length_drop, List.length_append] at length
  exact ⟨by omega, by rw [← List.drop_drop, tail, List.drop_left]⟩

theorem deref (h : At s i rest) : s.deref i = .ok (rest.headD stop) := by
  obtain ⟨inside, rfl⟩ := h
  obtain ⟨more, whole⟩ := s.block_eq
  have readable : s.block.take (s.text.length + 1) = s.text ++ [stop] := by
    rw [whole, List.take_append, List.take_of_length_le (Nat.le_succ _)]
    simp
  rw [Terminated.deref, readable]
  by_cases before : i < s.text.length
  · simp [List.getElem?_append_left, before, List.headD_eq_head?_getD, List.head?_drop]
  · obtain rfl : i = s.text.length := by omega
    simp

/-- The loop stops behind the elements that it passes over. -/
theorem span {p : α → Bool} (h : At s i (xs ++ rest)) (all : ∀ a ∈ xs, p a = true)
    (ends : p (rest.headD stop) = false) : span p s i = .ok (i + xs.length) := by
  induction xs generalizing i with
  | nil =>
    rw [span_step h.deref, List.nil_append, ends]
    rfl
  | cons a xs ih =>
    rw [List.forall_mem_cons] at all
    have first : At s i ([a] ++ (xs ++ rest)) := h
    have next : At s (i + 1) (xs ++ rest) := first.move
    rw [span_step h.deref, List.cons_append, List.headD_cons, if_pos all.1, ih next all.2,
      List.length_cons, Nat.add_assoc, Nat.add_comm 1]

theorem slice (h : At s i (xs ++ rest)) : s.slice i (i + xs.length) = xs := by
  obtain ⟨more, whole⟩ := s.block_eq
  rw [Terminated.slice, whole, List.drop_append_of_le_length h.inside, h.rest,
    Nat.add_sub_cancel_left, List.append_assoc, List.take_left]

end At

end Terminated

end Ikofi.Scan
