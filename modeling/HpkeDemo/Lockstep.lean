import Mathlib.Data.List.Basic

/-! Two fallible computations in lock step: both go on with related values, or both fail
with related errors. -/
namespace Lockstep

variable {ε ε' α α' β β' ι : Type} {E : ε → ε' → Prop} {R : α → α' → Prop} {S : β → β' → Prop}

inductive Related (E : ε → ε' → Prop) (R : α → α' → Prop) :
    Except ε α → Except ε' α' → Prop where
  | ok {a : α} {a' : α'} (h : R a a') : Related E R (.ok a) (.ok a')
  | error {e : ε} {e' : ε'} (h : E e e') : Related E R (.error e) (.error e')

theorem Related.bind {x : Except ε α} {x' : Except ε' α'} {f : α → Except ε β}
    {f' : α' → Except ε' β'} (h : Related E R x x')
    (hf : ∀ a a', R a a' → Related E S (f a) (f' a')) : Related E S (x >>= f) (x' >>= f') := by
  cases h with
  | ok h => exact hf _ _ h
  | error h => exact .error h

theorem Related.map {x : Except ε α} {x' : Except ε' α'} {f : α → β} {f' : α' → β'}
    (h : Related E R x x') (hf : ∀ a a', R a a' → S (f a) (f' a')) :
    Related E S (x.map f) (x'.map f') := by
  cases h with
  | ok h => exact .ok (hf _ _ h)
  | error h => exact .error h

/-- Two loops over one list stay in lock step if their bodies do. -/
theorem Related.foldlM {f : α → ι → Except ε α} {f' : α' → ι → Except ε' α'} (l : List ι)
    (hstep : ∀ a a' i, R a a' → Related E R (f a i) (f' a' i)) {a : α} {a' : α'} (h : R a a') :
    Related E R (l.foldlM f a) (l.foldlM f' a') := by
  induction l generalizing a a' with
  | nil => exact .ok h
  | cons i l ih =>
    rw [List.foldlM_cons, List.foldlM_cons]
    exact (hstep a a' i h).bind fun _ _ hi => ih hi

/-- A result on one side comes with a related one on the other. -/
theorem Related.exists_left {x : Except ε α} {x' : Except ε' α'} (h : Related E R x x') {a' : α'}
    (hx : x' = .ok a') : ∃ a, x = .ok a ∧ R a a' := by
  cases h with
  | ok h =>
    obtain rfl := Except.ok.inj hx
    exact ⟨_, rfl, h⟩
  | error h => cases hx

theorem Related.exists_right {x : Except ε α} {x' : Except ε' α'} (h : Related E R x x') {a : α}
    (hx : x = .ok a) : ∃ a', x' = .ok a' ∧ R a a' := by
  cases h with
  | ok h =>
    obtain rfl := Except.ok.inj hx
    exact ⟨_, rfl, h⟩
  | error h => cases hx

/-- One side fails with `e` when the other fails with `e'`, if related errors say so. -/
theorem Related.error_iff {x : Except ε α} {x' : Except ε' α'} (h : Related E R x x') {e : ε}
    {e' : ε'} (he : ∀ d d', E d d' → (d = e ↔ d' = e')) : x = .error e ↔ x' = .error e' := by
  cases h with
  | ok h => exact iff_of_false nofun nofun
  | error h => simpa only [Except.error.injEq] using he _ _ h

end Lockstep
