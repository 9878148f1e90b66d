import Mathlib.Data.List.Infix
import HpkeDemo.Text.Split

/-!
# Searching text for a pattern

`splitText` splits around the first occurrence of a pattern, and `replace` replaces every
occurrence, taken from left to right without overlaps.

* `splitText_eq_none_iff`, `splitText_eq_some_iff`: exactly when and where a text splits;
* `replaceFrom_of_clear`, `replaceFrom_pattern`: `replace` passes over what no occurrence
  starts in, and replaces the one it has come to;
* `replaceFrom_append_cons`, `mem_of_mem_replaceFrom`: a character that is not in the pattern
  parts the text into two that are replaced apart, and no character comes in from elsewhere.
-/

namespace Text

/-- `l` around the first occurrence of `pat`. -/
def cutAt (pat : List Char) : List Char → Option (List Char × List Char)
  | [] => if pat = [] then some ([], []) else none
  | c :: cs =>
    if pat <+: c :: cs then some ([], (c :: cs).drop pat.length)
    else (cutAt pat cs).map fun ab => (c :: ab.1, ab.2)

/-- `s` around the first occurrence of `pat`. -/
def splitText (pat s : String) : Option (String × String) :=
  (cutAt pat.toList s.toList).map fun ab => (String.ofList ab.1, String.ofList ab.2)

/-- `l` with `rep` for each occurrence of `pat`, from the next character after `skip`. -/
def replaceFrom (pat rep : List Char) : Nat → List Char → List Char
  | _, [] => []
  | skip + 1, _ :: cs => replaceFrom pat rep skip cs
  | 0, c :: cs =>
    if pat <+: c :: cs then rep ++ replaceFrom pat rep (pat.length - 1) cs
    else c :: replaceFrom pat rep 0 cs

/-- `str::replace` of a pattern that is not empty. -/
def replace (pat rep s : String) : String :=
  String.ofList (replaceFrom pat.toList rep.toList 0 s.toList)

/-- No occurrence of `pat` starts in `a`, before `rest`. -/
def Clear (pat a rest : List Char) : Prop :=
  ∀ a₁ c a₂, a = a₁ ++ c :: a₂ → ¬ pat <+: c :: a₂ ++ rest

section
variable {pat rep a b rest l : List Char}

theorem clear_cons {c : Char} :
    Clear pat (c :: a) rest ↔ ¬ pat <+: c :: (a ++ rest) ∧ Clear pat a rest := by
  constructor
  · intro h
    exact ⟨h [] c a rfl, fun a₁ d a₂ ha => h (c :: a₁) d a₂ (by rw [ha, List.cons_append])⟩
  · rintro ⟨hc, h⟩ a₁ d a₂ ha
    cases a₁ with
    | nil =>
      obtain ⟨rfl, rfl⟩ := List.cons.inj ha
      exact hc
    | cons e a₁ =>
      obtain ⟨rfl, rfl⟩ := List.cons.inj ha
      exact h a₁ d a₂ rfl

theorem clear_nil : Clear pat [] rest := by
  intro a₁ c a₂ h
  simp at h

theorem clear_append : Clear pat (a ++ b) rest ↔ Clear pat a (b ++ rest) ∧ Clear pat b rest := by
  induction a with
  | nil => simp [clear_nil]
  | cons c a ih => rw [List.cons_append, clear_cons, clear_cons, ih, List.append_assoc, and_assoc]

theorem clear_of_head {p : Char} {ps : List Char} (h : p ∉ a) : Clear (p :: ps) a rest := by
  rintro a₁ c a₂ rfl hprefix
  obtain ⟨rfl, _⟩ := List.cons_prefix_cons.mp hprefix
  exact h (by simp)

/-- An occurrence does not reach across a character that is not in the pattern. -/
theorem prefix_append_cons_iff {x : Char} (hx : x ∉ pat) : pat <+: a ++ x :: rest ↔ pat <+: a := by
  constructor
  · intro h
    obtain hshort | ⟨t, rfl⟩ := List.prefix_or_prefix_of_prefix h (List.prefix_append a (x :: rest))
    · exact hshort
    · cases t with
      | nil => rw [List.append_nil]
      | cons c t =>
        obtain ⟨rfl, _⟩ := List.cons_prefix_cons.mp ((List.prefix_append_right_inj a).mp h)
        exact absurd (by simp) hx
  · intro h
    exact h.trans (List.prefix_append a _)

/-- Before a character that is not in the pattern, an occurrence lies in `a` or not at all. -/
theorem clear_of_not_infix {x : Char} (hx : x ∉ pat) (h : ¬ pat <:+: a) :
    Clear pat a (x :: rest) := by
  rintro a₁ c a₂ rfl hprefix
  have hin : pat <+: c :: a₂ := (prefix_append_cons_iff hx).mp hprefix
  exact h (hin.isInfix.trans (List.suffix_append a₁ _).isInfix)

theorem cutAt_eq_none_iff : cutAt pat l = none ↔ ¬ pat <:+: l := by
  induction l with
  | nil => simp [cutAt]
  | cons c cs ih =>
    rw [cutAt, List.infix_cons_iff]
    by_cases h : pat <+: c :: cs
    · simp [h]
    · simp [h, ih]

theorem cutAt_eq_some_iff : cutAt pat l = some (a, b) ↔
    l = a ++ pat ++ b ∧ Clear pat a (pat ++ b) := by
  induction l generalizing a with
  | nil =>
    rw [cutAt]
    by_cases h : pat = []
    · subst h
      cases a with
      | nil => simp [clear_nil, eq_comm]
      | cons c a => simp
    · simp [h]
  | cons c cs ih =>
    rw [cutAt]
    by_cases h : pat <+: c :: cs
    · obtain ⟨t, ht⟩ := id h
      rw [if_pos h, ← ht, List.drop_left]
      cases a with
      | nil => simp [clear_nil]
      | cons d a =>
        refine iff_of_false (by simp) ?_
        rintro ⟨heq, hclear⟩
        rw [clear_cons, ← List.append_assoc, ← List.cons_append, ← List.cons_append,
          ← heq] at hclear
        exact hclear.1 ⟨t, rfl⟩
    · rw [if_neg h, Option.map_eq_some_iff]
      constructor
      · rintro ⟨⟨a', b'⟩, hcut, heq⟩
        obtain ⟨rfl, rfl⟩ := Prod.mk.inj heq
        obtain ⟨rfl, hclear⟩ := ih.mp hcut
        refine ⟨rfl, clear_cons.mpr ⟨?_, hclear⟩⟩
        rwa [← List.append_assoc]
      · rintro ⟨heq, hclear⟩
        cases a with
        | nil => exact absurd ⟨b, heq.symm⟩ h
        | cons d a =>
          obtain ⟨rfl, rfl⟩ := List.cons.inj heq
          exact ⟨(a, b), ih.mpr ⟨rfl, (clear_cons.mp hclear).2⟩, rfl⟩

theorem replaceFrom_skip (n : Nat) (l : List Char) :
    replaceFrom pat rep n l = replaceFrom pat rep 0 (l.drop n) := by
  induction l generalizing n with
  | nil => simp [replaceFrom]
  | cons c cs ih =>
    cases n with
    | zero => rfl
    | succ n => simpa [replaceFrom] using ih n

theorem replaceFrom_of_clear (h : Clear pat a rest) :
    replaceFrom pat rep 0 (a ++ rest) = a ++ replaceFrom pat rep 0 rest := by
  induction a with
  | nil => rfl
  | cons c a ih =>
    obtain ⟨hc, ha⟩ := clear_cons.mp h
    rw [List.cons_append, replaceFrom, if_neg hc, ih ha, List.cons_append]

theorem replaceFrom_pattern (hpat : pat ≠ []) :
    replaceFrom pat rep 0 (pat ++ rest) = rep ++ replaceFrom pat rep 0 rest := by
  obtain ⟨p, ps, rfl⟩ := List.exists_cons_of_ne_nil hpat
  rw [List.cons_append, replaceFrom, if_pos (by simp), replaceFrom_skip]
  simp

theorem replaceFrom_append_cons {x : Char} (hpat : pat ≠ []) (hx : x ∉ pat) {n : Nat}
    (hn : n ≤ a.length) : replaceFrom pat rep n (a ++ x :: rest) =
      replaceFrom pat rep n a ++ x :: replaceFrom pat rep 0 rest := by
  induction a generalizing n with
  | nil =>
    obtain rfl := Nat.le_zero.mp hn
    have hno : ¬ pat <+: x :: rest := mt (prefix_append_cons_iff (a := []) hx).mp (by simp [hpat])
    simp only [List.nil_append, replaceFrom, if_neg hno]
  | cons c a ih =>
    cases n with
    | succ n => exact ih (Nat.le_of_succ_le_succ hn)
    | zero =>
      have hiff : pat <+: c :: (a ++ x :: rest) ↔ pat <+: c :: a :=
        prefix_append_cons_iff (a := c :: a) hx
      rw [List.cons_append, replaceFrom, replaceFrom]
      by_cases h : pat <+: c :: a
      · -- The rest of the occurrence is skipped, and it ends in `a`.
        have hlen : pat.length - 1 ≤ a.length := Nat.sub_le_of_le_add h.length_le
        rw [if_pos (hiff.mpr h), if_pos h, ih hlen, List.append_assoc]
      · rw [if_neg (mt hiff.mp h), if_neg h, ih (Nat.zero_le _), List.cons_append]

theorem mem_of_mem_replaceFrom {x : Char} {n : Nat} (h : x ∈ replaceFrom pat rep n l) :
    x ∈ rep ∨ x ∈ l := by
  induction l generalizing n with
  | nil => simp [replaceFrom] at h
  | cons c cs ih =>
    cases n with
    | succ n => exact (ih h).imp_right (List.mem_cons_of_mem c)
    | zero =>
      rw [replaceFrom] at h
      split at h
      · obtain hrep | hrest := List.mem_append.mp h
        · exact Or.inl hrep
        · exact (ih hrest).imp_right (List.mem_cons_of_mem c)
      · obtain rfl | hrest := List.mem_cons.mp h
        · exact Or.inr List.mem_cons_self
        · exact (ih hrest).imp_right (List.mem_cons_of_mem c)

end

theorem splitText_eq_none_iff {pat s : String} :
    splitText pat s = none ↔ ¬ pat.toList <:+: s.toList := by
  simp [splitText, cutAt_eq_none_iff]

theorem splitText_eq_some_iff {pat s a b : String} : splitText pat s = some (a, b) ↔
    s = a ++ pat ++ b ∧ Clear pat.toList a.toList (pat ++ b).toList := by
  rw [splitText, Option.map_eq_some_iff]
  constructor
  · rintro ⟨⟨as, bs⟩, hcut, heq⟩
    obtain ⟨rfl, rfl⟩ := Prod.mk.inj heq
    obtain ⟨hs, hclear⟩ := cutAt_eq_some_iff.mp hcut
    refine ⟨String.toList_injective (by simpa using hs), ?_⟩
    simpa using hclear
  · rintro ⟨rfl, hclear⟩
    refine ⟨(a.toList, b.toList), cutAt_eq_some_iff.mpr ⟨by simp, ?_⟩, by simp⟩
    simpa using hclear

end Text
