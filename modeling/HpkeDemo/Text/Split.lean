import Mathlib.Data.List.Basic

/-!
# Splitting text at a delimiter

`splitOnce` splits at the first occurrence of a character, `split` at all of
them, and `stripPrefix` removes a fixed prefix. Each is characterised by the
concatenation it undoes:

* `splitOnce_eq_some_iff`, `stripPrefix_eq_some_iff`: exactly when and into
  what a text splits;
* `split_append`, `split_of_free`: a delimiter between two texts separates
  their pieces, and nothing else does;
* `free_of_mem_split`: no piece contains the delimiter.
-/

namespace Text

/-- The character `d` does not occur in `s`. -/
def Free (d : Char) (s : String) : Prop := d ∉ s.toList

instance (d : Char) (s : String) : Decidable (Free d s) :=
  inferInstanceAs (Decidable (d ∉ s.toList))

/-- `s` around its first `d`. -/
def splitOnce (d : Char) (s : String) : Option (String × String) :=
  if d ∈ s.toList then
    some (String.ofList (s.toList.takeWhile (· != d)),
      String.ofList ((s.toList.dropWhile (· != d)).drop 1))
  else none

/-- The pieces of `s` between its occurrences of `d`. -/
def split (d : Char) (s : String) : List String := (s.toList.splitOn d).map String.ofList

/-- What follows the prefix `p` of `s`. -/
def stripPrefix (p s : String) : Option String :=
  if p.toList <+: s.toList then some (String.ofList (s.toList.drop p.toList.length)) else none

section
variable {d : Char}

@[simp] theorem free_append {s t : String} : Free d (s ++ t) ↔ Free d s ∧ Free d t := by
  simp [Free]

@[simp] theorem free_ofList {l : List Char} : Free d (String.ofList l) ↔ d ∉ l := by
  simp [Free]

theorem splitOnce_append {a : String} (h : Free d a) (b : String) :
    splitOnce d (a ++ String.singleton d ++ b) = some (a, b) := by
  have keep : ∀ c ∈ a.toList, (c != d) = true := by
    intro c hc
    simpa using fun e : c = d => h (e ▸ hc)
  simp [splitOnce, List.takeWhile_append_of_pos keep, List.dropWhile_append_of_pos keep]

/-- The first `d` of a text that has one. -/
theorem exists_first {s : String} (h : ¬ Free d s) :
    ∃ a b, Free d a ∧ s = a ++ String.singleton d ++ b := by
  obtain ⟨as, bs, hs, ha⟩ := List.eq_append_cons_of_mem (not_not.mp h)
  refine ⟨String.ofList as, String.ofList bs, free_ofList.mpr ha, ?_⟩
  apply String.toList_injective
  simpa using hs

theorem splitOnce_eq_none_iff {s : String} : splitOnce d s = none ↔ Free d s := by
  simp [splitOnce, Free]

theorem splitOnce_eq_some_iff {s a b : String} :
    splitOnce d s = some (a, b) ↔ Free d a ∧ s = a ++ String.singleton d ++ b := by
  constructor
  · intro h
    have hd : ¬ Free d s := by
      intro hf
      simp [splitOnce_eq_none_iff.mpr hf] at h
    obtain ⟨a', b', ha, rfl⟩ := exists_first hd
    rw [splitOnce_append ha] at h
    obtain ⟨rfl, rfl⟩ := Prod.mk.inj (Option.some.inj h)
    exact ⟨ha, rfl⟩
  · rintro ⟨h, rfl⟩
    exact splitOnce_append h b

theorem split_append (a b : String) :
    split d (a ++ String.singleton d ++ b) = split d a ++ split d b := by
  simp [split, List.splitOn_append_cons_self]

theorem split_of_free {s : String} (h : Free d s) : split d s = [s] := by
  simp [split, List.splitOn_eq_singleton h]

theorem free_of_mem_split {s p : String} (h : p ∈ split d s) : Free d p := by
  -- Peel `s` at its first `d`; what is left is shorter.
  induction hn : s.toList.length using Nat.strongRecOn generalizing s with
  | ind n ih =>
    by_cases hf : Free d s
    · rw [split_of_free hf, List.mem_singleton] at h
      exact h ▸ hf
    · obtain ⟨a, b, ha, rfl⟩ := exists_first hf
      rw [split_append, split_of_free ha] at h
      rcases List.mem_append.mp h with h | h
      · exact List.mem_singleton.mp h ▸ ha
      · exact ih b.toList.length (by simp at hn; omega) h rfl

theorem stripPrefix_eq_some_iff {p s r : String} : stripPrefix p s = some r ↔ s = p ++ r := by
  constructor
  · intro h
    obtain ⟨⟨t, ht⟩, hr⟩ := Option.ite_none_right_eq_some.mp h
    rw [← ht, List.drop_left] at hr
    apply String.toList_injective
    simp [← ht, ← Option.some.inj hr]
  · rintro rfl
    simp [stripPrefix]

end
end Text
