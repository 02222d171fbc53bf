import Mathlib.Data.List.DropRight

/-!
# Cutting lists at marks

Texts are cut at separators: up to the next one, into tokens between runs of
them, or into the fields between each two. The same cuts are made on a text and
on its encoding, and agree there when the encoding gives every separator one
element of its own and keeps those elements out of everything else.
-/

namespace Ikofi.Cut

variable {α β : Type}

/-- The next run of elements that are not separators, and what stands after the
separator that ends it. -/
def token (p : α → Bool) (xs : List α) : Option (List α × List α) :=
  match xs.dropWhile p with
  | [] => none
  | ys => some (ys.takeWhile (! p ·), (ys.dropWhile (! p ·)).tail)

/-- The fields between separators, without empty ones at the end. A text that
has no separator is one field. -/
def fields (p : α → Bool) (xs : List α) : List (List α) :=
  if xs.any p then (xs.splitOnP p).rdropWhile List.isEmpty else [xs]

/-- What stands between runs of separators. -/
def pieces (p : α → Bool) (xs : List α) : List (List α) := (xs.splitOnP p).filter (· ≠ [])

/-- `f` maps separators, and only them, to separators, each to a single one. -/
structure Marks (f : α → List β) (p : α → Bool) (q : β → Bool) : Prop where
  mark : ∀ a, p a = true → ∃ b, f a = [b] ∧ q b = true
  plain : ∀ a, p a = false → f a ≠ [] ∧ ∀ b ∈ f a, q b = false

section
variable {f : α → List β} {p : α → Bool} {q : β → Bool}

theorem Marks.or {p' : α → Bool} {q' : β → Bool} (h : Marks f p q) (h' : Marks f p' q') :
    Marks f (fun a => p a || p' a) (fun b => q b || q' b) := by
  refine ⟨fun a ha => ?_, fun a ha => ?_⟩
  · rcases Bool.or_eq_true_iff.mp ha with hp | hp
    · obtain ⟨b, hb, hq⟩ := h.mark a hp
      exact ⟨b, hb, by simp [hq]⟩
    · obtain ⟨b, hb, hq⟩ := h'.mark a hp
      exact ⟨b, hb, by simp [hq]⟩
  · obtain ⟨hp, hp'⟩ := Bool.or_eq_false_iff.mp ha
    exact ⟨(h.plain a hp).1, fun b hb => by simp [(h.plain a hp).2 b hb, (h'.plain a hp').2 b hb]⟩

/-- The first separator stands at the same place on both sides. -/
theorem Marks.span_flatMap (h : Marks f p q) (xs : List α) :
    (xs.flatMap f).takeWhile (! q ·) = (xs.takeWhile (! p ·)).flatMap f ∧
    (xs.flatMap f).dropWhile (! q ·) = (xs.dropWhile (! p ·)).flatMap f := by
  induction xs with
  | nil => exact ⟨rfl, rfl⟩
  | cons a xs ih =>
    cases hp : p a with
    | true =>
      obtain ⟨b, hb, hq⟩ := h.mark a hp
      constructor <;> simp [hp, hb, hq]
    | false =>
      have plain : ∀ b ∈ f a, (! q b) = true := by simpa using (h.plain a hp).2
      constructor
      · simp [hp, List.takeWhile_append_of_pos plain, ih.1]
      · simp [hp, List.dropWhile_append_of_pos plain, ih.2]

theorem Marks.takeWhile_flatMap (h : Marks f p q) (xs : List α) :
    (xs.flatMap f).takeWhile (! q ·) = (xs.takeWhile (! p ·)).flatMap f := (h.span_flatMap xs).1

theorem Marks.dropWhile_flatMap (h : Marks f p q) (xs : List α) :
    (xs.flatMap f).dropWhile (! q ·) = (xs.dropWhile (! p ·)).flatMap f := (h.span_flatMap xs).2

theorem Marks.skip_flatMap (h : Marks f p q) (xs : List α) :
    (xs.flatMap f).dropWhile q = (xs.dropWhile p).flatMap f := by
  induction xs with
  | nil => rfl
  | cons a xs ih =>
    cases hp : p a with
    | true =>
      obtain ⟨b, hb, hq⟩ := h.mark a hp
      simp [hp, hb, hq, ih]
    | false =>
      obtain ⟨some, plain⟩ := h.plain a hp
      obtain ⟨b, bs, hb⟩ := List.exists_cons_of_ne_nil some
      have hq : q b = false := plain b (by simp [hb])
      simp [hp, hb, hq]

theorem Marks.any_flatMap (h : Marks f p q) (xs : List α) : (xs.flatMap f).any q = xs.any p := by
  induction xs with
  | nil => rfl
  | cons a xs ih =>
    cases hp : p a with
    | true =>
      obtain ⟨b, hb, hq⟩ := h.mark a hp
      simp [hp, hb, hq]
    | false =>
      have none : (f a).any q = false := by simpa using (h.plain a hp).2
      simp [hp, none, ih]

theorem Marks.flatMap_eq_nil (h : Marks f p q) {xs : List α} : xs.flatMap f = [] ↔ xs = [] := by
  cases xs with
  | nil => simp
  | cons a xs =>
    have : f a ≠ [] := by
      cases hp : p a with
      | true => obtain ⟨b, hb, -⟩ := h.mark a hp; simp [hb]
      | false => exact (h.plain a hp).1
    simp [this]

/-- The separator at which a cut stops, and what follows it. -/
theorem Marks.stop_flatMap (h : Marks f p q) (xs : List α) :
    ((xs.flatMap f).dropWhile (! q ·)).take 1 = ((xs.dropWhile (! p ·)).take 1).flatMap f ∧
    ((xs.flatMap f).dropWhile (! q ·)).tail = (xs.dropWhile (! p ·)).tail.flatMap f := by
  rw [h.dropWhile_flatMap]
  cases hx : xs.dropWhile (! p ·) with
  | nil => exact ⟨rfl, rfl⟩
  | cons a rest =>
    have hp : p a = true := by
      have := List.head_dropWhile_not (p := (! p ·)) (l := xs) (by simp [hx])
      simpa [hx] using this
    obtain ⟨b, hb, -⟩ := h.mark a hp
    simp [hb]

theorem Marks.token_flatMap (h : Marks f p q) (xs : List α) :
    token q (xs.flatMap f) = (token p xs).map (Prod.map (·.flatMap f) (·.flatMap f)) := by
  unfold token
  rw [h.skip_flatMap]
  cases hx : xs.dropWhile p with
  | nil => rfl
  | cons a rest =>
    have some : (a :: rest).flatMap f ≠ [] := fun e => by simpa using h.flatMap_eq_nil.mp e
    split
    · contradiction
    · rw [h.takeWhile_flatMap, (h.stop_flatMap _).2]; rfl

theorem splitOnP_plain_append {ys zs : List β} (plain : ∀ b ∈ ys, q b = false) :
    (ys ++ zs).splitOnP q = (zs.splitOnP q).modifyHead (ys ++ ·) := by
  induction ys with
  | nil =>
    obtain ⟨z, rest, hz⟩ := List.exists_cons_of_ne_nil (List.splitOnP_ne_nil q zs)
    simp [hz]
  | cons b ys ih =>
    simp only [List.mem_cons, forall_eq_or_imp] at plain
    rw [List.cons_append, List.splitOnP_cons_eq_if_modifyHead, plain.1, ih plain.2]
    obtain ⟨z, rest, hz⟩ := List.exists_cons_of_ne_nil (List.splitOnP_ne_nil q zs)
    simp [hz]

theorem Marks.splitOnP_flatMap (h : Marks f p q) (xs : List α) :
    (xs.flatMap f).splitOnP q = (xs.splitOnP p).map (·.flatMap f) := by
  induction xs with
  | nil => simp
  | cons a xs ih =>
    rw [List.flatMap_cons, List.splitOnP_cons_eq_if_modifyHead]
    cases hp : p a with
    | true =>
      obtain ⟨b, hb, hq⟩ := h.mark a hp
      simp [hb, List.splitOnP_cons_eq_if_modifyHead, hq, ih]
    | false =>
      rw [splitOnP_plain_append (h.plain a hp).2, ih]
      obtain ⟨y, rest, hy⟩ := List.exists_cons_of_ne_nil (List.splitOnP_ne_nil p xs)
      simp [hy]

theorem Marks.fields_flatMap (h : Marks f p q) (xs : List α) :
    fields q (xs.flatMap f) = (fields p xs).map (·.flatMap f) := by
  unfold fields
  rw [h.any_flatMap, h.splitOnP_flatMap]
  split
  · have same : List.isEmpty ∘ (fun ys : List α => ys.flatMap f) = List.isEmpty := by
      funext ys
      rw [Function.comp_apply, Bool.eq_iff_iff, List.isEmpty_iff, List.isEmpty_iff, h.flatMap_eq_nil]
    simp [List.rdropWhile, ← List.map_reverse, List.dropWhile_map, same]
  · rfl

end

section
variable {p : α → Bool}

/-- Skip separators, take a run of other elements, stop at the next separator. -/
theorem token_append {sep u rest : List α} (seps : ∀ a ∈ sep, p a = true) (filled : u ≠ [])
    (plain : ∀ a ∈ u, p a = false) (stop : ∀ a ∈ rest.head?, p a = true) :
    token p (sep ++ u ++ rest) = some (u, rest.tail) := by
  obtain ⟨a, v, rfl⟩ := List.exists_cons_of_ne_nil filled
  have plain' : ∀ b ∈ a :: v, (! p b) = true := by simpa using plain
  have skip : (sep ++ (a :: v) ++ rest).dropWhile p = (a :: v) ++ rest := by
    rw [List.append_assoc, List.dropWhile_append_of_pos seps]
    simp [plain a (by simp)]
  have stopped : rest.takeWhile (! p ·) = [] ∧ rest.dropWhile (! p ·) = rest := by
    cases rest with
    | nil => simp
    | cons b rest => simp [stop b (by simp)]
  simp only [token, skip, List.cons_append, Option.some.injEq, Prod.mk.injEq]
  rw [← List.cons_append, List.takeWhile_append_of_pos plain', List.dropWhile_append_of_pos plain',
    stopped.1, stopped.2]
  simp

theorem token_eq_some {xs u r : List α} :
    token p xs = some (u, r) ↔ ∃ sep rest, xs = sep ++ u ++ rest ∧ (∀ a ∈ sep, p a = true) ∧
      u ≠ [] ∧ (∀ a ∈ u, p a = false) ∧ (∀ a ∈ rest.head?, p a = true) ∧ r = rest.tail := by
  constructor
  · intro h
    have cut := xs.takeWhile_append_dropWhile (p := p)
    unfold token at h
    split at h
    · cases h
    · rename_i filled
      obtain ⟨a, ys, hy⟩ := List.exists_cons_of_ne_nil filled
      have ha : p a = false := by
        have := List.head_dropWhile_not (p := p) (l := xs) (by simp [hy])
        simpa [hy] using this
      have cut' := (xs.dropWhile p).takeWhile_append_dropWhile (p := (! p ·))
      simp only [Option.some.injEq, Prod.mk.injEq] at h
      obtain ⟨rfl, rfl⟩ := h
      refine ⟨xs.takeWhile p, (xs.dropWhile p).dropWhile (! p ·), ?_, ?_, ?_, ?_, ?_, rfl⟩
      · rw [List.append_assoc, cut', cut]
      · exact fun c hc => List.mem_takeWhile_imp hc
      · simp [hy, ha]
      · exact fun c hc => by simpa using List.mem_takeWhile_imp hc
      · intro c hc
        have := List.head?_dropWhile_not (! p ·) (xs.dropWhile p)
        rw [hc] at this
        simpa using this
  · rintro ⟨sep, rest, rfl, seps, filled, plain, stop, rfl⟩
    exact token_append seps filled plain stop

theorem token_eq_none {xs : List α} : token p xs = none ↔ ∀ a ∈ xs, p a = true := by
  unfold token
  split
  · rename_i h
    simpa using h
  · rename_i h
    simpa using h

/-- The first two tokens, where there are two. -/
def firstTwo (p : α → Bool) (xs : List α) : Option (List α × List α) :=
  (token p xs).bind fun first => (token p first.2).map fun second => (first.1, second.1)

theorem firstTwo_eq_some {xs u v : List α} :
    firstTwo p xs = some (u, v) ↔ ∃ r r', token p xs = some (u, r) ∧ token p r = some (v, r') := by
  simp only [firstTwo, Option.bind_eq_some_iff, Option.map_eq_some_iff, Prod.mk.injEq, Prod.exists]
  constructor
  · rintro ⟨u', r, hu, v', r', hv, rfl, rfl⟩
    exact ⟨r, r', hu, hv⟩
  · rintro ⟨r, r', hu, hv⟩
    exact ⟨u, r, hu, v, r', hv, rfl, rfl⟩

/-- At most one run of other elements between separators. -/
theorem firstTwo_eq_none {xs : List α} :
    firstTwo p xs = none ↔ ∃ sep u sep', xs = sep ++ u ++ sep' ∧ (∀ a ∈ sep, p a = true) ∧
      (∀ a ∈ u, p a = false) ∧ ∀ a ∈ sep', p a = true := by
  constructor
  · intro h
    cases ht : token p xs with
    | none => exact ⟨xs, [], [], by simp, token_eq_none.mp ht, by simp, by simp⟩
    | some t =>
      obtain ⟨u, r⟩ := t
      obtain ⟨sep, rest, rfl, seps, -, plain, stop, rfl⟩ := token_eq_some.mp ht
      have last : ∀ a ∈ rest.tail, p a = true := by
        refine token_eq_none.mp ?_
        rw [firstTwo, ht] at h
        simpa using h
      refine ⟨sep, u, rest, rfl, seps, plain, ?_⟩
      cases rest with
      | nil => simp
      | cons a rest => simpa using ⟨stop a (by simp), last⟩
  · rintro ⟨sep, u, sep', rfl, seps, plain, seps'⟩
    by_cases filled : u = []
    · have : token p (sep ++ u ++ sep') = none := by
        refine token_eq_none.mpr fun a ha => ?_
        simp only [filled, List.append_nil, List.mem_append] at ha
        exact ha.elim (seps a) (seps' a)
      rw [firstTwo, this, Option.bind_none]
    · have stop : ∀ a ∈ sep'.head?, p a = true := fun a ha => seps' a (List.mem_of_head? ha)
      have none : token p sep'.tail = none :=
        token_eq_none.mpr fun a ha => seps' a (List.mem_of_mem_tail ha)
      rw [firstTwo, token_append seps filled plain stop, Option.bind_some, none, Option.map_none]

/-- There are two tokens if some separator has other elements on both sides. -/
theorem firstTwo_ne_none {xs : List α} :
    firstTwo p xs ≠ none ↔ ∃ l s r, xs = l ++ s :: r ∧ p s = true ∧ (∃ a ∈ l, p a = false) ∧
      ∃ a ∈ r, p a = false := by
  constructor
  · intro h
    obtain ⟨⟨u, v⟩, two⟩ := Option.ne_none_iff_exists'.mp h
    obtain ⟨r, r', first, second⟩ := firstTwo_eq_some.mp two
    obtain ⟨sep, rest, rfl, -, filled, plain, stop, rfl⟩ := token_eq_some.mp first
    obtain ⟨sep', rest', tail, -, filled', plain', -, -⟩ := token_eq_some.mp second
    have behind : v ⊆ rest.tail := by simp [tail]
    obtain ⟨a, ha⟩ := List.exists_mem_of_ne_nil u filled
    obtain ⟨b, hb⟩ := List.exists_mem_of_ne_nil v filled'
    cases rest with
    | nil => cases behind hb
    | cons s rest =>
      exact ⟨sep ++ u, s, rest, rfl, stop s rfl, ⟨a, by simp [ha], plain a ha⟩, b, behind hb,
        plain' b hb⟩
  · rintro ⟨l, s, r, rfl, hs, ⟨a, ha, plainA⟩, b, hb, plainB⟩ none
    cases first : token p (l ++ s :: r) with
    | none =>
      have := token_eq_none.mp first a (by simp [ha])
      rw [plainA] at this
      cases this
    | some t =>
      obtain ⟨u, rest⟩ := t
      -- the token ends at `s` or before it
      have behind : r ⊆ rest := by
        have kept : (l ++ s :: r).dropWhile p = l.dropWhile p ++ s :: r := by
          rw [List.dropWhile_append, if_neg]
          rw [List.isEmpty_iff, List.dropWhile_eq_nil_iff]
          intro all
          exact absurd (all a ha) (by simp [plainA])
        rw [token, kept] at first
        split at first
        · cases first
        · obtain ⟨-, rfl⟩ := Prod.mk.inj (Option.some.inj first)
          rw [List.dropWhile_append]
          split
          · simp [hs]
          · rename_i filled
            obtain ⟨c, l', hl⟩ := List.exists_cons_of_ne_nil (mt List.isEmpty_iff.mpr filled)
            simp [hl]
      rw [firstTwo, first, Option.bind_some, Option.map_eq_none_iff] at none
      have := token_eq_none.mp none b (behind hb)
      rw [plainB] at this
      cases this

theorem splitOnP_eq_cons {xs a : List α} {l : List (List α)} (h : xs.splitOnP p = a :: l) :
    (∀ c ∈ a, p c = false) ∧
    ((l = [] ∧ xs = a) ∨ ∃ s rest, p s = true ∧ xs = a ++ s :: rest ∧ rest.splitOnP p = l) := by
  induction xs generalizing a with
  | nil =>
    simp only [List.splitOnP_nil, List.cons.injEq] at h
    obtain ⟨rfl, rfl⟩ := h
    simp
  | cons c xs ih =>
    rw [List.splitOnP_cons_eq_if_modifyHead] at h
    cases hc : p c with
    | true =>
      simp only [hc, if_true, List.cons.injEq] at h
      obtain ⟨rfl, rfl⟩ := h
      exact ⟨by simp, Or.inr ⟨c, xs, hc, rfl, rfl⟩⟩
    | false =>
      obtain ⟨y, rest, hy⟩ := List.exists_cons_of_ne_nil (List.splitOnP_ne_nil p xs)
      simp only [hc, Bool.false_eq_true, if_false, hy, List.modifyHead_cons, List.cons.injEq] at h
      obtain ⟨rfl, rfl⟩ := h
      obtain ⟨plain, hx⟩ := ih hy
      refine ⟨by simpa [hc] using plain, ?_⟩
      rcases hx with ⟨hl, rfl⟩ | ⟨s, rest', hs, rfl, hr⟩
      · exact Or.inl ⟨hl, rfl⟩
      · exact Or.inr ⟨s, rest', hs, rfl, hr⟩

/-- Only separators lie between empty fields. -/
theorem splitOnP_empty {xs : List α} :
    (∀ f ∈ xs.splitOnP p, f = []) ↔ ∀ c ∈ xs, p c = true := by
  induction xs with
  | nil => simp
  | cons c xs ih =>
    rw [List.splitOnP_cons_eq_if_modifyHead]
    cases hc : p c with
    | true => simp [hc, ih]
    | false =>
      obtain ⟨y, rest, hy⟩ := List.exists_cons_of_ne_nil (List.splitOnP_ne_nil p xs)
      simp [hc, hy]

theorem rdropWhile_append_of_pos {q : α → Bool} {l es : List α} (h : ∀ e ∈ es, q e = true) :
    (l ++ es).rdropWhile q = l.rdropWhile q := by
  rw [List.rdropWhile, List.rdropWhile, List.reverse_append,
    List.dropWhile_append_of_pos (by simpa using h)]

/-- Exactly two fields, none empty: the text is the two around a separator, with
perhaps more separators after them. -/
theorem fields_eq_pair {xs a b : List α} (hb : b ≠ []) :
    fields p xs = [a, b] ↔
      (∀ c ∈ a, p c = false) ∧ (∀ c ∈ b, p c = false) ∧
      ∃ s seps, p s = true ∧ (∀ c ∈ seps, p c = true) ∧ xs = a ++ s :: (b ++ seps) := by
  constructor
  · intro h
    have separated : xs.any p = true := by
      by_contra none
      simp [fields, none] at h
    simp only [fields, separated, if_true] at h
    -- what `rdropWhile` removed at the end is a list of empty fields
    have split := List.rdropWhile_append_rtakeWhile (p := List.isEmpty) (l := xs.splitOnP p)
    have empty : ∀ f ∈ (xs.splitOnP p).rtakeWhile List.isEmpty, f = [] :=
      fun f hf => List.isEmpty_iff.mp (List.mem_rtakeWhile_imp hf)
    rw [h] at split
    obtain ⟨plainA, ⟨hl, -⟩ | ⟨s, rest, hs, rfl, hr⟩⟩ := splitOnP_eq_cons split.symm
    · cases hl
    obtain ⟨plainB, ⟨-, rfl⟩ | ⟨s', seps, hs', rfl, hr'⟩⟩ := splitOnP_eq_cons hr
    · exact ⟨plainA, plainB, s, [], hs, by simp, by simp⟩
    · refine ⟨plainA, plainB, s, s' :: seps, hs, ?_, rfl⟩
      have only : ∀ c ∈ seps, p c = true := splitOnP_empty.mp (hr' ▸ empty)
      simpa [hs'] using only
  · rintro ⟨plainA, plainB, s, seps, hs, only, rfl⟩
    have fieldsB : ∃ es : List (List α), (∀ f ∈ es, f = []) ∧
        (b ++ seps).splitOnP p = b :: es := by
      cases seps with
      | nil => exact ⟨[], by simp, by simpa using List.splitOnP_eq_singleton plainB⟩
      | cons s' seps =>
        simp only [List.mem_cons, forall_eq_or_imp] at only
        exact ⟨_, splitOnP_empty.mpr only.2,
          List.splitOnP_append_cons_of_forall_mem plainB s' only.1 seps⟩
    obtain ⟨es, empty, hes⟩ := fieldsB
    have dropped : (a :: b :: es).rdropWhile List.isEmpty = [a, b] := by
      have last : [a, b].rdropWhile List.isEmpty = [a, b] := by
        simp [List.rdropWhile_eq_self_iff, hb]
      exact (rdropWhile_append_of_pos (l := [a, b]) (by simpa using empty)).trans last
    simp [fields, hs, List.splitOnP_append_cons_of_forall_mem plainA s hs, hes, dropped]

/-- There are two fields if something other than separators stands behind a separator. -/
theorem two_le_length_fields {xs : List α} :
    2 ≤ (fields p xs).length ↔ ∃ l s r, xs = l ++ s :: r ∧ p s = true ∧ ∃ a ∈ r, p a = false := by
  obtain ⟨a, es, split⟩ := List.exists_cons_of_ne_nil (List.splitOnP_ne_nil p xs)
  obtain ⟨plain, whole⟩ := splitOnP_eq_cons split
  rcases whole with ⟨-, rfl⟩ | ⟨s, rest, hs, rfl, rfl⟩
  · have none : xs.any p = false := by simpa using plain
    rw [fields, none, if_neg (by simp)]
    simp only [List.length_singleton, Nat.not_succ_le_self, false_iff, not_exists, not_and]
    rintro l s r rfl hs
    exact absurd hs (by simp [plain s])
  · have some : (a ++ s :: rest).any p = true := by simp [hs]
    rw [fields, some, if_pos rfl, split]
    constructor
    · intro two
      refine ⟨a, s, rest, rfl, hs, ?_⟩
      by_contra none
      have empty : ∀ f ∈ rest.splitOnP p, f.isEmpty = true := by
        intro f hf
        refine List.isEmpty_iff.mpr (splitOnP_empty.mpr (fun c hc => ?_) f hf)
        by_contra other
        exact none ⟨c, hc, by simpa using other⟩
      have one : (([a] ++ rest.splitOnP p).rdropWhile List.isEmpty).length ≤ 1 := by
        rw [rdropWhile_append_of_pos empty]
        exact (List.rdropWhile_prefix _ _).length_le
      exact absurd (Nat.le_trans two one) (by decide)
    · rintro ⟨l, s', r, same, hs', b, hb, other⟩
      have behind : b ∈ rest := by
        rcases List.append_eq_append_iff.mp same with ⟨l', rfl, cut⟩ | ⟨a', rfl, cut⟩
        · obtain ⟨-, cut⟩ | ⟨l', -, rfl⟩ := List.cons_eq_append_iff.mp cut
          · cases cut
            exact hb
          · simp [hb]
        · obtain ⟨-, cut⟩ | ⟨a', rfl, -⟩ := List.cons_eq_append_iff.mp cut
          · cases cut
            exact hb
          · exact absurd hs' (by simp [plain s'])
      by_contra one
      have kept := List.rdropWhile_append_rtakeWhile (p := List.isEmpty) (l := a :: rest.splitOnP p)
      have empty : ∀ f ∈ rest.splitOnP p, f = [] := by
        intro f hf
        have dropped : f ∈ (a :: rest.splitOnP p).rtakeWhile List.isEmpty := by
          match hk : (a :: rest.splitOnP p).rdropWhile List.isEmpty with
          | [] =>
            rw [hk, List.nil_append] at kept
            rw [kept]
            exact List.mem_cons_of_mem a hf
          | [x] =>
            rw [hk, List.singleton_append] at kept
            rw [(List.cons.inj kept).2]
            exact hf
          | x :: y :: rest => simp [hk] at one
        exact List.isEmpty_iff.mp (List.mem_rtakeWhile_imp dropped)
      exact absurd (splitOnP_empty.mp empty b behind) (by simp [other])

/-- A run of separators in front changes nothing. -/
theorem pieces_skip {seps rest : List α} (h : ∀ a ∈ seps, p a = true) :
    pieces p (seps ++ rest) = pieces p rest := by
  induction seps with
  | nil => rfl
  | cons a seps ih =>
    rw [List.forall_mem_cons] at h
    rw [← ih h.2, List.cons_append, pieces, List.splitOnP_cons_eq_if_modifyHead, if_pos h.1]
    rfl

/-- The first piece, which is there if it is not empty, and the pieces behind it. -/
theorem pieces_append {a rest : List α} (plain : ∀ c ∈ a, p c = false)
    (ends : ∀ s ∈ rest.head?, p s = true) :
    pieces p (a ++ rest) = (if a = [] then [] else [a]) ++ pieces p rest := by
  cases rest with
  | nil =>
    have none : pieces p ([] : List α) = [] := by simp [pieces]
    rw [List.append_nil, none, List.append_nil, pieces, List.splitOnP_eq_singleton plain]
    by_cases empty : a = [] <;> simp [empty]
  | cons s rest =>
    have hs : p s = true := ends s rfl
    rw [pieces, List.splitOnP_append_cons_of_forall_mem plain s hs, pieces,
      List.splitOnP_cons_eq_if_modifyHead, if_pos hs]
    by_cases empty : a = [] <;> simp [empty]

end

end Ikofi.Cut
