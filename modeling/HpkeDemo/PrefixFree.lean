import Mathlib.Data.List.Basic

/-! Tags of which none is a prefix of another, put in front of data without a length or a
separator. -/

/-- No tag is a prefix of another one. -/
def PrefixFree {ι α : Type} (tag : ι → List α) : Prop := ∀ i j, tag i <+: tag j → i = j

namespace PrefixFree
variable {ι α : Type} {tag : ι → List α} {i j : ι}

/-- The tag can be read off, whatever follows it. -/
theorem append_inj (free : PrefixFree tag) {x y : List α} (h : tag i ++ x = tag j ++ y) :
    i = j ∧ x = y := by
  have hi : tag i <+: tag j ++ y := h ▸ List.prefix_append (tag i) x
  have hj : tag j <+: tag j ++ y := List.prefix_append (tag j) y
  have hij : i = j := by
    rcases List.prefix_or_prefix_of_prefix hi hj with hle | hle
    · exact free i j hle
    · exact (free j i hle).symm
  subst hij
  exact ⟨rfl, List.append_cancel_left h⟩

/-- And so can a field of known width behind it, and the rest. -/
theorem framed_inj_iff (free : PrefixFree tag) {n : Nat} {k k' : {l : List α // l.length = n}}
    {x y : List α} : tag i ++ k.1 ++ x = tag j ++ k'.1 ++ y ↔ i = j ∧ k = k' ∧ x = y := by
  constructor
  · intro h
    rw [List.append_assoc, List.append_assoc] at h
    have ⟨hij, hrest⟩ := free.append_inj h
    have ⟨hk, hxy⟩ := List.append_inj hrest (k.2.trans k'.2.symm)
    exact ⟨hij, Subtype.ext hk, hxy⟩
  · rintro ⟨rfl, rfl, rfl⟩
    rfl

end PrefixFree
