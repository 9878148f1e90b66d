import Mathlib.Data.List.Induction

/-! Properties of a log, oldest entry first: what holds since an entry, what each entry
finds before it, and where two entries stand. -/
namespace History
variable {α : Type} {Q Q' P : α → Prop} {log : List α}

/-- Some entry satisfies `P`, and every later one `Q`. -/
def Since (Q P : α → Prop) (log : List α) : Prop :=
  ∃ before x after, log = before ++ x :: after ∧ P x ∧ ∀ y ∈ after, Q y

theorem not_since_nil : ¬ Since Q P [] := by
  rintro ⟨before, x, after, h, _⟩
  simp at h

theorem since_concat {z : α} : Since Q P (log ++ [z]) ↔ P z ∨ Since Q P log ∧ Q z := by
  constructor
  · rintro ⟨before, x, after, h, hx, hafter⟩
    cases after using List.reverseRecOn with
    | nil =>
      obtain ⟨_, hz⟩ := List.append_inj' h rfl
      exact Or.inl (List.singleton_inj.mp hz ▸ hx)
    | append_singleton after y =>
      rw [← List.cons_append, ← List.append_assoc] at h
      obtain ⟨hlog, hz⟩ := List.append_inj' h rfl
      refine Or.inr ⟨⟨before, x, after, hlog, hx, fun w hw => hafter w (by simp [hw])⟩, ?_⟩
      exact List.singleton_inj.mp hz ▸ hafter y (by simp)
  · rintro (hz | ⟨⟨before, x, after, rfl, hx, hafter⟩, hz⟩)
    · exact ⟨log, z, [], rfl, hz, by simp⟩
    · refine ⟨before, x, after ++ [z], by simp, hx, fun y hy => ?_⟩
      obtain hy | rfl := by simpa using hy
      · exact hafter y hy
      · exact hz

theorem Since.mono (h : Since Q P log) (hQ : ∀ y, Q y → Q' y) : Since Q' P log := by
  obtain ⟨before, x, after, hlog, hx, hafter⟩ := h
  exact ⟨before, x, after, hlog, hx, fun y hy => hQ y (hafter y hy)⟩

/-- Every entry satisfies `R` of the log before it. -/
def Each (R : List α → α → Prop) (log : List α) : Prop :=
  ∀ before x after, log = before ++ x :: after → R before x

section Each
variable {R R' : List α → α → Prop}

theorem each_nil : Each R [] := by
  intro before x after h
  simp at h

theorem each_concat {z : α} : Each R (log ++ [z]) ↔ Each R log ∧ R log z := by
  constructor
  · intro h
    exact ⟨fun before x after hlog => h before x (after ++ [z]) (by simp [hlog]),
      h log z [] rfl⟩
  · rintro ⟨hlog, hz⟩ before x after h
    cases after using List.reverseRecOn with
    | nil =>
      obtain ⟨rfl, hx⟩ := List.append_inj' h rfl
      exact List.singleton_inj.mp hx ▸ hz
    | append_singleton after y =>
      rw [← List.cons_append, ← List.append_assoc] at h
      obtain ⟨hsplit, _⟩ := List.append_inj' h rfl
      exact hlog before x after hsplit

theorem Each.of_mem {x : α} (h : Each R log) (hx : x ∈ log) :
    ∃ before, (∀ y ∈ before, y ∈ log) ∧ R before x := by
  obtain ⟨before, after, hlog⟩ := List.append_of_mem hx
  exact ⟨before, fun y hy => hlog ▸ List.mem_append_left _ hy, h before x after hlog⟩

/-- What entries yield is yielded once, if no entry yields what one before it did. -/
theorem nodup_filterMap_of_each {β : Type} {f : α → Option β}
    (h : Each (fun before x => ∀ b, f x = some b → b ∉ before.filterMap f) log) :
    (log.filterMap f).Nodup := by
  induction log using List.reverseRecOn with
  | nil => exact List.nodup_nil
  | append_singleton log z ih =>
    obtain ⟨hlog, hz⟩ := each_concat.mp h
    rw [List.filterMap_append]
    cases hf : f z with
    | none => simpa [hf] using ih hlog
    | some b =>
      rw [List.filterMap_cons_some hf, List.filterMap_nil]
      refine List.nodup_append.mpr ⟨ih hlog, List.pairwise_singleton _ b, fun a ha c hc hac => ?_⟩
      rw [List.mem_singleton.mp hc] at hac
      exact hz b hf (hac ▸ ha)

/-- If entries satisfy `p` that satisfy `q` and have none before them that satisfies `p`, one
entry satisfies `p`, unless none satisfies `q`. -/
theorem countP_of_first {p q : α → Bool}
    (h : Each (fun before x => p x = true ↔ q x = true ∧ ∀ y ∈ before, p y = false) log) :
    log.countP p = if log.any q then 1 else 0 := by
  induction log using List.reverseRecOn with
  | nil => rfl
  | append_singleton log z ih =>
    obtain ⟨hlog, hz⟩ := each_concat.mp h
    have hcount := ih hlog
    have hnone : (∀ y ∈ log, p y = false) ↔ log.any q = false := by
      rw [← Bool.not_eq_true]
      constructor
      · intro hp hq
        rw [hq, if_pos rfl] at hcount
        obtain ⟨y, hy, hpy⟩ := List.countP_pos_iff.mp (by omega : 0 < log.countP p)
        rw [hp y hy] at hpy
        cases hpy
      · intro hq y hy
        rw [if_neg hq, List.countP_eq_zero] at hcount
        exact Bool.eq_false_iff.mpr (hcount y hy)
    rw [List.countP_append, hcount, List.any_append]
    rw [hnone] at hz
    cases hq : log.any q <;> cases hqz : q z <;> simp [hq, hqz] at hz ⊢ <;> simp [hz]

end Each

theorem pairwise_of_splits {R : α → α → Prop}
    (h : ∀ before x mid y after, log = before ++ x :: (mid ++ y :: after) → R x y) :
    log.Pairwise R := by
  apply List.pairwise_iff_forall_sublist.mpr
  intro x y hsub
  obtain ⟨r₁, r₂, rfl, hx, hy⟩ := List.cons_sublist_iff.mp hsub
  obtain ⟨before, m₁, rfl⟩ := List.append_of_mem hx
  obtain ⟨m₂, after, rfl⟩ := List.append_of_mem (List.singleton_sublist.mp hy)
  exact h before x (m₁ ++ m₂) y after (by simp)

/-- The first entry of a log that satisfies `P`. -/
theorem exists_first (h : ∃ x ∈ log, P x) :
    ∃ before x after, log = before ++ x :: after ∧ P x ∧ ∀ y ∈ before, ¬ P y := by
  induction log with
  | nil => simp at h
  | cons z log ih =>
    by_cases hz : P z
    · exact ⟨[], z, log, rfl, hz, by simp⟩
    · have hlog : ∃ x ∈ log, P x := by
        obtain ⟨x, hx, hP⟩ := h
        obtain rfl | hx := List.mem_cons.mp hx
        · exact absurd hP hz
        · exact ⟨x, hx, hP⟩
      obtain ⟨before, x, after, rfl, hx, hbefore⟩ := ih hlog
      exact ⟨z :: before, x, after, rfl, hx, List.forall_mem_cons.mpr ⟨hz, hbefore⟩⟩

/-- Of two entries of one log, one stands before the other, or they are one entry. -/
theorem split_cases {before before' after after' : List α} {x y : α}
    (h : before ++ x :: after = before' ++ y :: after') :
    (∃ mid, after = mid ++ y :: after') ∨ x = y ∧ after = after' ∨
      ∃ mid, before = before' ++ y :: mid := by
  obtain ⟨mid, hbefore, htail⟩ | ⟨mid, hbefore, htail⟩ := List.append_eq_append_iff.mp h
  · cases mid with
    | nil => exact Or.inr (Or.inl (List.cons.inj htail))
    | cons m mid => exact Or.inl ⟨mid, (List.cons.inj htail).2⟩
  · cases mid with
    | nil =>
      obtain ⟨hxy, hafter⟩ := List.cons.inj htail
      exact Or.inr (Or.inl ⟨hxy.symm, hafter.symm⟩)
    | cons m mid =>
      obtain ⟨rfl, _⟩ := List.cons.inj htail
      exact Or.inr (Or.inr ⟨mid, hbefore⟩)

end History
