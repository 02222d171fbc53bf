/-!
# Runs of a partial step function

A machine is a function `step` that takes a state and an input to the next
state, or to nothing where the input is not possible. A run may be restricted
to the inputs that a guard admits in the state they meet, so that a property of
every run whose steps are all admitted is stated with the same definition as a
property of every run.
-/

namespace Ikofi.Runs

variable {σ α : Type} {step : σ → α → Option σ} {ok : σ → α → Prop}

/-- The states reached from `s`, with the inputs taken on the way. -/
inductive Run (step : σ → α → Option σ) (ok : σ → α → Prop) (s : σ) : List α → σ → Prop
  | start : Run step ok s [] s
  | next {as : List α} {t u : σ} {a : α} :
      Run step ok s as t → ok t a → step t a = some u → Run step ok s (as ++ [a]) u

/-- Runs whose inputs are not restricted. -/
abbrev Reached (step : σ → α → Option σ) (s : σ) (as : List α) (t : σ) : Prop :=
  Run step (fun _ _ => True) s as t

/-- What holds at the start and is kept by every admitted step holds in every
state reached. -/
theorem Run.invariant {I : σ → Prop} {s t : σ} {as : List α} (h : Run step ok s as t)
    (start : I s) (keep : ∀ t a u, I t → ok t a → step t a = some u → I u) : I t := by
  induction h with
  | start => exact start
  | next _ ha hs ih => exact keep _ _ _ ih ha hs

theorem Run.mono {ok' : σ → α → Prop} {s t : σ} {as : List α} (h : Run step ok s as t)
    (weaker : ∀ t a, ok t a → ok' t a) : Run step ok' s as t := by
  induction h with
  | start => exact .start
  | next _ ha hs ih => exact .next ih (weaker _ _ ha) hs

/-- A machine each of whose admitted steps is a step of another one, or leaves its related state
as it is, has only runs that the other has. -/
theorem Run.simulates {τ β : Type} {other : τ → β → Option τ} {R : σ → τ → Prop} {s t : σ}
    {as : List α} {s' : τ} (h : Run step ok s as t) (start : R s s')
    (simulates : ∀ t a u t', R t t' → ok t a → step t a = some u →
      R u t' ∨ ∃ b u', other t' b = some u' ∧ R u u') :
    ∃ bs t', Reached other s' bs t' ∧ R t t' := by
  induction h with
  | start => exact ⟨[], s', .start, start⟩
  | next _ ha hs ih =>
    obtain ⟨bs, t', reached, related⟩ := ih
    rcases simulates _ _ _ _ related ha hs with same | ⟨b, u', moves, related⟩
    · exact ⟨bs, t', reached, same⟩
    · exact ⟨bs ++ [b], u', .next reached trivial moves, related⟩

/-- Prepend one admitted step to a run. -/
theorem Run.cons {s t u : σ} {a : α} {as : List α} (ha : ok s a) (hs : step s a = some t)
    (h : Run step ok t as u) : Run step ok s (a :: as) u := by
  induction h with
  | start => exact .next .start ha hs
  | next _ hb ht ih => exact .next ih hb ht

/-- The step restricted to the inputs a decidable guard admits. -/
def guarded (step : σ → α → Option σ) (ok : σ → α → Prop) [∀ s a, Decidable (ok s a)]
    (s : σ) (a : α) : Option σ :=
  if ok s a then step s a else none

/-- Executing a list of inputs, with the guard tested at each one, is a run. -/
theorem run_of_foldlM [∀ s a, Decidable (ok s a)] {s t : σ} {as : List α}
    (h : as.foldlM (guarded step ok) s = some t) : Run step ok s as t := by
  induction as generalizing s with
  | nil =>
    simp only [List.foldlM_nil, Option.pure_def, Option.some.injEq] at h
    exact h ▸ .start
  | cons a as ih =>
    simp only [List.foldlM_cons, Option.bind_eq_bind, Option.bind_eq_some_iff, guarded,
      Option.ite_none_right_eq_some] at h
    obtain ⟨u, ⟨ha, hu⟩, h⟩ := h
    exact Run.cons ha hu (ih h)

end Ikofi.Runs
