import Mathlib.Data.List.Sort

/-!
# Sorted lists with a limit

A list is sorted and cut off after some elements. Elements of one class come first in
what is left, and are cut off only if the limit is reached by their own kind, exactly
if each element of the other class stands behind all of them, or behind as many as
the limit allows.
-/

namespace Ikofi.Limit

variable {α : Type} {r : α → α → Prop} [DecidableRel r] {p : α → Bool} {x : α} {l l' : List α}
  {n : Nat}

/-- In the first `n` elements of `l` none of class `p` stands behind one that is not, and
if one of class `p` is cut off there are `n` of them. -/
def First [BEq α] (p : α → Bool) (l : List α) (n : Nat) : Prop :=
  (l.take n).Pairwise (fun a b => p b = true → p a = true) ∧
  ∀ a, p a = true → (l.take n).count a < l.count a → n ≤ (l.take n).countP p

/-- Every element that is not of class `p` has all of them in front, or `n`. -/
def Behind (r : α → α → Prop) [DecidableRel r] (p : α → Bool) (l : List α) (n : Nat) : Prop :=
  ∀ b ∈ l, p b = false →
    (∀ a ∈ l, p a = true → r a b) ∨ n ≤ l.countP (fun a => p a && decide (r a b))

theorem Behind.perm (h : l.Perm l') : Behind r p l n ↔ Behind r p l' n := by
  unfold Behind
  refine forall_congr' fun b => ?_
  rw [h.mem_iff, h.countP_eq]
  simp only [h.mem_iff]

/-- An element of the class takes one place. -/
theorem Behind.cons_pos (first : ∀ a ∈ l, r x a) (hx : p x = true) :
    Behind r p (x :: l) (n + 1) ↔ Behind r p l n := by
  unfold Behind
  constructor
  · intro h b hb pb
    rcases h b (List.mem_cons_of_mem x hb) pb with all | enough
    · exact Or.inl fun a ha => all a (List.mem_cons_of_mem x ha)
    · rw [List.countP_cons_of_pos (by simp [hx, first b hb])] at enough
      exact Or.inr (Nat.le_of_succ_le_succ enough)
  · intro h b hb pb
    obtain rfl | hb := List.mem_cons.mp hb
    · rw [hx] at pb
      cases pb
    · rcases h b hb pb with all | enough
      · exact Or.inl (List.forall_mem_cons.mpr ⟨fun _ => first b hb, all⟩)
      · rw [List.countP_cons_of_pos (by simp [hx, first b hb])]
        exact Or.inr (Nat.succ_le_succ enough)

/-- Behind an element of the other class there must be none of the class. -/
theorem Behind.cons_neg [Std.Antisymm r] (first : ∀ a ∈ l, r x a) (hx : p x = false) :
    Behind r p (x :: l) (n + 1) ↔ ∀ a ∈ l, p a = false := by
  have last : ∀ a ∈ x :: l, p a = true → ¬ r a x := by
    intro a ha pa hr
    have same : a = x := by
      rcases List.mem_cons.mp ha with same | ha
      · exact same
      · exact antisymm hr (first a ha)
    rw [same, hx] at pa
    cases pa
  constructor
  · intro h a ha
    by_contra pa
    rw [Bool.not_eq_false] at pa
    have inside := List.mem_cons_of_mem x ha
    rcases h x List.mem_cons_self hx with all | enough
    · exact last a inside pa (all a inside pa)
    · obtain ⟨b, hb, found⟩ := List.countP_pos_iff.mp (Nat.lt_of_lt_of_le n.succ_pos enough)
      rw [Bool.and_eq_true, decide_eq_true_eq] at found
      exact last b hb found.1 found.2
  · intro none b _ _
    refine Or.inl (List.forall_mem_cons.mpr ⟨fun px => ?_, fun a ha pa => ?_⟩)
    · rw [hx] at px
      cases px
    · rw [none a ha] at pa
      cases pa

section
variable [BEq α] [LawfulBEq α]

omit [LawfulBEq α] in
theorem First.cons_pos (hx : p x = true) : First p (x :: l) (n + 1) ↔ First p l n := by
  unfold First
  rw [List.take_succ_cons, List.pairwise_cons, List.countP_cons_of_pos hx]
  refine and_congr (and_iff_right fun _ _ _ => hx) (forall₂_congr fun a _ => ?_)
  rw [List.count_cons, List.count_cons, Nat.add_lt_add_iff_right, Nat.add_le_add_iff_right]

theorem First.cons_neg (hx : p x = false) :
    First p (x :: l) (n + 1) ↔ ∀ a ∈ l, p a = false := by
  unfold First
  rw [List.take_succ_cons, List.pairwise_cons]
  have other : ¬ p x = true := by simp [hx]
  constructor
  · rintro ⟨⟨front, -⟩, kept⟩ a ha
    by_contra found
    rw [Bool.not_eq_false] at found
    have none : (x :: l.take n).countP p = 0 := by
      rw [List.countP_cons_of_neg other, List.countP_eq_zero]
      exact fun b hb pb => other (front b hb pb)
    have lost : (x :: l.take n).count a = 0 := by
      rw [List.count_eq_zero, List.mem_cons, not_or]
      exact ⟨fun same => other (same ▸ found), fun ht => other (front a ht found)⟩
    have present : 0 < (x :: l).count a := List.count_pos_iff.mpr (List.mem_cons_of_mem x ha)
    have full := kept a found (lost ▸ present)
    omega
  · intro none
    have front : ∀ a ∈ l.take n, p a = false := fun a ha => none a (List.mem_of_mem_take ha)
    refine ⟨⟨fun a ha pa => ?_, List.pairwise_of_forall_mem_list fun a _ b hb pb => ?_⟩,
      fun a pa lost => ?_⟩
    · rw [front a ha] at pa
      cases pa
    · rw [front b hb] at pb
      cases pb
    · have present := List.count_pos_iff.mp (Nat.lt_of_le_of_lt (Nat.zero_le _) lost)
      rcases List.mem_cons.mp present with rfl | ha
      · exact absurd pa other
      · rw [none a ha] at pa
        cases pa

/-- The class comes first in a sorted list that is cut off, exactly if the other elements
stand behind it. -/
theorem first_iff_behind [Std.Antisymm r] (sorted : l.Pairwise r) :
    First p l n ↔ Behind r p l n := by
  induction l generalizing n with
  | nil => exact iff_of_true ⟨by simp, by simp⟩ (by simp [Behind])
  | cons x l ih =>
    cases n with
    | zero =>
      exact iff_of_true ⟨by simp, fun _ _ _ => Nat.zero_le _⟩ fun _ _ _ => Or.inr (Nat.zero_le _)
    | succ n =>
      obtain ⟨first, sorted⟩ := List.pairwise_cons.mp sorted
      cases hx : p x with
      | true => rw [First.cons_pos hx, Behind.cons_pos first hx, ih sorted]
      | false => rw [First.cons_neg hx, Behind.cons_neg first hx]

end

end Ikofi.Limit
