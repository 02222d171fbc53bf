/-!
# Two programs side by side

Two programs that may fail are compared step by step: each step fails in both, with
the same error, or succeeds in both, with results that are related.
-/

namespace Ikofi.Lib

variable {ε α β γ δ : Type}

/-- Both fail alike, or both return what `R` relates. -/
inductive Both (R : α → β → Prop) : Except ε α → Except ε β → Prop
  | ok {a : α} {b : β} : R a b → Both R (.ok a) (.ok b)
  | error (e : ε) : Both R (.error e) (.error e)

namespace Both

variable {R : α → β → Prop} {S : γ → δ → Prop} {x : Except ε α} {y : Except ε β}

/-- Related steps, then related programs behind them. -/
theorem bind {f : α → Except ε γ} {g : β → Except ε δ} (h : Both R x y)
    (next : ∀ a b, R a b → Both S (f a) (g b)) : Both S (x >>= f) (y >>= g) := by
  cases h with
  | ok related => exact next _ _ related
  | error e => exact .error e

theorem map {f : α → γ} {g : β → δ} (h : Both R x y) (related : ∀ a b, R a b → S (f a) (g b)) :
    Both S (f <$> x) (g <$> y) := by
  cases h with
  | ok r => exact .ok (related _ _ r)
  | error e => exact .error e

end Both

end Ikofi.Lib
