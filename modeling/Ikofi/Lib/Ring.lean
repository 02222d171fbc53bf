import Mathlib.Data.List.Rotate

/-!
# A queue kept in a ring

A store of fixed length holds a queue that starts at some place and goes round
past the end. The queue is the front of the store rotated to that place. Reading
drops from its front, and a copy to the place behind its last entry appends to it
as long as the copy does not itself go past the end of the store.
-/

namespace Ikofi.Ring

variable {α : Type}

/-- The `used` entries from `readpos` on, going round. -/
def contents (store : List α) (readpos used : Nat) : List α := (store.rotate readpos).take used

/-- The store after `s` is copied to the places from `p` on. -/
def overwrite (store : List α) (p : Nat) (s : List α) : List α :=
  store.take p ++ s ++ store.drop (p + s.length)

variable {store s : List α} {r p u k : Nat}

theorem length_contents (h : u ≤ store.length) : (contents store r u).length = u := by
  rw [contents, List.length_take, List.length_rotate, Nat.min_eq_left h]

@[simp] theorem contents_zero : contents store r 0 = [] := List.take_zero

theorem length_overwrite (h : p + s.length ≤ store.length) :
    (overwrite store p s).length = store.length := by
  simp only [overwrite, List.length_append, List.length_take, List.length_drop]
  omega

/-- The queue lies in the store in two pieces: from its start to the end of the store,
and then from the front of the store. -/
theorem contents_pieces (hr : r ≤ store.length) (hu : u ≤ store.length) :
    contents store r u =
      (store.drop r).take (min u (store.length - r)) ++
        store.take (u - min u (store.length - r)) := by
  rw [contents, List.rotate_eq_drop_append_take hr, List.take_append, List.length_drop,
    List.take_take]
  rcases Nat.le_total u (store.length - r) with short | long
  · rw [Nat.min_eq_left short, Nat.sub_eq_zero_of_le short, Nat.sub_self, Nat.zero_min]
  · have front : min (u - (store.length - r)) r = u - (store.length - r) := by omega
    rw [Nat.min_eq_right long, front, List.take_of_length_le (i := u) (by simp [long]),
      List.take_of_length_le (i := store.length - r) (by simp)]

/-- What is left when the first `k` entries have been read. -/
theorem drop_contents (hk : k ≤ u) (hu : u ≤ store.length) :
    (contents store r u).drop k = contents store ((r + k) % store.length) (u - k) := by
  have short : k ≤ (store.rotate r).length := by
    rw [List.length_rotate]
    omega
  have fits : u - k ≤ ((store.rotate r).drop k).length := by
    rw [List.length_drop, List.length_rotate]
    omega
  rw [contents, contents, List.rotate_mod, ← List.rotate_rotate,
    List.rotate_eq_drop_append_take short, List.take_append_of_le_length fits, List.drop_take]

/-- A copy behind the last entry that ends before the end of the store. -/
theorem contents_overwrite_inside (h : r + u + s.length ≤ store.length) :
    contents (overwrite store (r + u) s) r (u + s.length) = contents store r u ++ s := by
  have whole : (overwrite store (r + u) s).length = store.length := length_overwrite (by omega)
  have near : (overwrite store (r + u) s).drop r =
      (store.drop r).take u ++ s ++ store.drop (r + u + s.length) := by
    rw [overwrite, List.append_assoc, List.drop_append_of_le_length (by simp; omega),
      List.drop_take, Nat.add_sub_cancel_left, List.append_assoc]
  have size : ((store.drop r).take u ++ s).length = u + s.length := by
    simp only [List.length_append, List.length_take, List.length_drop]
    omega
  rw [contents_pieces (by omega) (by omega), contents_pieces (by omega) (by omega), whole,
    Nat.min_eq_left (by omega), Nat.min_eq_left (by omega), Nat.sub_self, Nat.sub_self,
    List.take_zero, List.take_zero, List.append_nil, List.append_nil, near,
    List.take_append_of_le_length (by omega), List.take_of_length_le (by omega)]

/-- A copy behind a queue that has gone round already. -/
theorem contents_overwrite_round (hr : r ≤ store.length) (h : store.length ≤ r + u)
    (room : u + s.length ≤ store.length) :
    contents (overwrite store (r + u - store.length) s) r (u + s.length) =
      contents store r u ++ s := by
  have whole : (overwrite store (r + u - store.length) s).length = store.length :=
    length_overwrite (by omega)
  have far : (overwrite store (r + u - store.length) s).drop r = store.drop r := by
    rw [overwrite, List.append_assoc, List.drop_append, List.drop_eq_nil_of_le (by simp; omega),
      List.nil_append, List.drop_append, List.drop_eq_nil_of_le (by simp; omega), List.nil_append,
      List.drop_drop, List.length_take]
    congr 1
    omega
  have size : (store.take (r + u - store.length) ++ s).length =
      r + u - store.length + s.length := by
    rw [List.length_append, List.length_take]
    omega
  have front : (overwrite store (r + u - store.length) s).take (r + u - store.length + s.length) =
      store.take (r + u - store.length) ++ s := by
    rw [overwrite, List.take_append_of_le_length (by rw [size]),
      List.take_of_length_le (Nat.le_of_eq size)]
  rw [contents_pieces (by omega) (by omega), contents_pieces (by omega) (by omega), whole, far,
    Nat.min_eq_right (by omega), Nat.min_eq_right (by omega)]
  have place : u + s.length - (store.length - r) = r + u - store.length + s.length := by omega
  have start : u - (store.length - r) = r + u - store.length := by omega
  rw [place, start, front, List.append_assoc]

/-- A copy to the place behind the last entry appends to the queue, if it fits both in what
is free and before the end of the store. -/
theorem contents_overwrite (hr : r < store.length) (room : u + s.length ≤ store.length)
    (straight : (r + u) % store.length + s.length ≤ store.length) :
    contents (overwrite store ((r + u) % store.length) s) r (u + s.length) =
      contents store r u ++ s := by
  rcases Nat.lt_or_ge (r + u) store.length with inside | past
  · rw [Nat.mod_eq_of_lt inside] at straight ⊢
    exact contents_overwrite_inside straight
  · have place : (r + u) % store.length = r + u - store.length := by
      rw [Nat.mod_eq_sub_mod past, Nat.mod_eq_of_lt (by omega)]
    rw [place]
    exact contents_overwrite_round (by omega) past room

end Ikofi.Ring
