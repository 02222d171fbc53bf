/-!
# Logs

A log grows at its end. What is true of every entry, together with the entries before
it, is shown once for the entry that is appended.
-/

namespace Ikofi.Lib

variable {α : Type} {P Q : List α → α → Prop} {l : List α} {a : α}

/-- Every entry is in the relation `P` with the entries before it. -/
def Each (P : List α → α → Prop) (l : List α) : Prop :=
  ∀ (i : Nat) (x : α), l[i]? = some x → P (l.take i) x

theorem each_nil : Each P [] := by
  intro i x h
  cases h

theorem Each.concat (h : Each P l) (last : P l a) : Each P (l ++ [a]) := by
  intro i x found
  by_cases before : i < l.length
  · rw [List.getElem?_append_left before] at found
    rw [List.take_append_of_le_length (Nat.le_of_lt before)]
    exact h i x found
  · rw [List.getElem?_append_right (Nat.le_of_not_lt before)] at found
    have single : i - l.length = 0 ∧ a = x := by
      cases k : i - l.length with
      | zero =>
        rw [k] at found
        exact ⟨rfl, Option.some.inj found⟩
      | succ k' =>
        rw [k] at found
        cases found
    have here : i = l.length := by omega
    rw [here, List.take_left, ← single.2]
    exact last

theorem Each.imp (h : Each P l) (weaker : ∀ xs x, xs <+: l → x ∈ l → P xs x → Q xs x) :
    Each Q l := by
  intro i x found
  exact weaker _ _ (List.take_prefix i l) (List.mem_of_getElem? found) (h i x found)

/-! ## Numbers -/

section
variable {epoch number : α → Nat} {m e n : Nat} {fresh : Bool}

/-- The entries belong to epochs, of which `e` is the last, and are numbered modulo `m`:
in each epoch on its own, or all along. `n` is the next number. -/
structure Stamps (m : Nat) (fresh : Bool) (epoch number : α → Nat) (e n : Nat) (l : List α) :
    Prop where
  bound : ∀ x ∈ l, epoch x ≤ e
  next : n = (l.countP fun x => !fresh || epoch x == e) % m
  numbers : Each (fun before x =>
    number x = (before.countP fun y => !fresh || epoch y == epoch x) % m) l

namespace Stamps

theorem nil (m : Nat) (fresh : Bool) (epoch number : α → Nat) :
    Stamps m fresh epoch number 0 0 [] :=
  ⟨nofun, (Nat.zero_mod m).symm, each_nil⟩

/-- One entry more. -/
theorem tick (h : Stamps m fresh epoch number e n l) (stamped : epoch a = e)
    (numbered : number a = n) : Stamps m fresh epoch number e ((n + 1) % m) (l ++ [a]) := by
  obtain ⟨bound, next, numbers⟩ := h
  constructor
  · intro x hx
    obtain before | rfl := List.mem_append.mp hx |>.imp_right List.mem_singleton.mp
    · exact bound x before
    · exact Nat.le_of_eq stamped
  · rw [List.countP_append, List.countP_singleton, stamped, beq_self_eq_true, Bool.or_true,
      if_pos rfl, next, Nat.mod_add_mod]
  · apply numbers.concat
    rw [numbered, stamped]
    exact next

/-- A new epoch. -/
theorem renew (h : Stamps m fresh epoch number e n l) :
    Stamps m fresh epoch number (e + 1) (if fresh then 0 else n) l := by
  obtain ⟨bound, next, numbers⟩ := h
  refine ⟨fun x hx => Nat.le_succ_of_le (bound x hx), ?_, numbers⟩
  cases fresh with
  | true =>
    -- nothing belongs to the new epoch yet
    have none : (l.countP fun x => !true || epoch x == e + 1) = 0 := by
      rw [List.countP_eq_zero]
      intro x hx
      have before := bound x hx
      simp only [Bool.not_true, Bool.false_or, beq_iff_eq]
      omega
    rw [none, if_pos rfl, Nat.zero_mod]
  | false => simpa using next

/-- In the first epoch both ways of numbering are the same. -/
theorem first {fresh' : Bool} (h : Stamps m fresh epoch number 0 n l) :
    Stamps m fresh' epoch number 0 n l := by
  obtain ⟨bound, next, numbers⟩ := h
  have zero : ∀ x ∈ l, epoch x = 0 := fun x hx => Nat.eq_zero_of_le_zero (bound x hx)
  have all (b : Bool) {k : Nat} (hk : k = 0) {xs : List α} (sub : xs ⊆ l) :
      (xs.countP fun x => !b || epoch x == k) = xs.length := by
    rw [List.countP_eq_length]
    intro x hx
    rw [zero x (sub hx), hk]
    cases b <;> rfl
  refine ⟨bound, ?_, numbers.imp fun xs x pre hx same => ?_⟩
  · rw [all _ rfl (List.Subset.refl l)] at next ⊢
    exact next
  · rw [all _ (zero x hx) pre.subset] at same ⊢
    exact same

theorem length (h : Stamps m fresh epoch number 0 n l) : n = l.length % m := by
  have plain : Stamps m false epoch number 0 n l := h.first
  have next := plain.next
  have all : (l.countP fun x => !false || epoch x == 0) = l.length := by
    apply List.countP_eq_length.mpr
    exact fun _ _ => rfl
  rwa [all] at next

end Stamps

end

end Ikofi.Lib
