import HpkeDemo.Replay.Order

/-!
# Admitted once

Under increasing readings, and where the messages that carry one key carry one stamp, a call
admits its key exactly if it offers it and no call before admitted it
(`admits_iff_unadmitted`). Under readings in any order that keep each other, the keys in the
cache are those that were offered (`offered_of_seen`, `seen_of_offered`). What a call that
admits nothing is answered with says why (`step_of_stale`, `step_of_repeated`).
-/

namespace Replay.Guard
variable {T M K S E B : Type} [DecidableEq K] {G : Guard T M K S E B}

theorem step_of_stale {call : T × M} {seen : Cache K T} {k : K} {s : S} {b : B}
    (hread : G.read call.2 = .ok (k, s, b)) (hstale : G.fresh call.1 s = false) :
    (G.step call seen).2 = .error G.stale := by
  simp [step, hread, hstale]

/-- A fresh message with a key that is remembered is answered as a repetition. -/
theorem step_of_repeated {call : T × M} {seen : Cache K T} {k : K} {s : S} {b : B} {e : E}
    (hread : G.read call.2 = .ok (k, s, b)) (hfresh : G.fresh call.1 s = true)
    (herror : (G.step call seen).2 = .error e) : e = G.repeated := by
  simp only [step, hread, hfresh, if_true] at herror
  split at herror
  · exact (Except.error.inj herror).symm
  · cases herror

variable {calls : List (T × M)} {before after : List ((T × M) × Except E B)}
  {x y : (T × M) × Except E B} {k : K}

theorem offers_of_admits
    (hlog : (Machine.run G.step (fun _ => none) calls).2 = before ++ x :: after)
    (hy : y ∈ before) (hadmits : G.Admits y k) : G.Offers y.1 k := by
  obtain ⟨earlier, later, rfl⟩ := List.append_of_mem hy
  have hlog' : (Machine.run G.step (fun _ => none) calls).2 =
      earlier ++ y :: (later ++ x :: after) := by simp [hlog]
  exact ((admits_iff_not_kept hlog').mp hadmits).1

/-- A call admits a key exactly if it offers it and no call before it admitted it. -/
theorem admits_iff_unadmitted [LE T] (lawful : G.Lawful)
    (hlog : (Machine.run G.step (fun _ => none) calls).2 = before ++ x :: after)
    (mono : ∀ y ∈ before, y.1.1 ≤ x.1.1)
    (one : ∀ y ∈ before, G.Admits y k → ∀ s b s' b', G.read y.1.2 = .ok (k, s, b) →
      G.read x.1.2 = .ok (k, s', b') → s = s') :
    G.Admits x k ↔ G.Offers x.1 k ∧ ∀ y ∈ before, ¬ G.Admits y k := by
  rw [admits_iff_not_kept hlog]
  constructor
  · rintro ⟨hoffers, hkept⟩
    refine ⟨hoffers, fun y hy hadmits => hkept ⟨y.1.1, ?_⟩⟩
    obtain ⟨s, b, hread, hfresh⟩ := offers_of_admits hlog hy hadmits
    obtain ⟨s', b', hread', hfresh'⟩ := id hoffers
    obtain rfl := one y hy hadmits s b s' b' hread hread'
    have hkeeps := lawful.window hfresh hfresh'
    -- What is kept at this reading was kept at each reading before it.
    obtain ⟨earlier, later, rfl⟩ := List.append_of_mem hy
    refine ⟨⟨earlier, y, later, rfl, ⟨hadmits, rfl⟩, fun z hz => ?_⟩, hkeeps⟩
    exact lawful.keeps_antitone (mono z (by simp [hz])) hkeeps
  · rintro ⟨hoffers, hfirst⟩
    refine ⟨hoffers, ?_⟩
    rintro ⟨a, ⟨earlier, y, later, rfl, ⟨hadmits, _⟩, _⟩, _⟩
    exact hfirst y (by simp) hadmits

/-- A remembered key was offered, at the reading it is remembered with. -/
theorem offered_of_seen {a : T} (h : (Machine.run G.step (fun _ => none) calls).1 k = some a) :
    ∃ call ∈ calls, call.1 = a ∧ G.Offers call k := by
  obtain ⟨before, x, after, hlog, ⟨hadmits, hx⟩, _⟩ := (seen_eq_some_iff_kept calls k a).mp h
  have hmem : x.1 ∈ calls := by
    rw [← Machine.run_inputs G.step (fun _ => none) calls, hlog]
    simp
  exact ⟨x.1, hmem, hx, ((admits_iff_not_kept hlog).mp hadmits).1⟩

/-- An offered key is remembered, if every reading keeps every other. -/
theorem seen_of_offered (hkeeps : ∀ x ∈ calls, ∀ y ∈ calls, G.keeps y.1 x.1 = true)
    (h : ∃ call ∈ calls, G.Offers call k) :
    ∃ call ∈ calls, (Machine.run G.step (fun _ => none) calls).1 k = some call.1 := by
  have hinputs := Machine.run_inputs G.step (fun _ => none) calls
  obtain ⟨call, hcall, hoffers⟩ := h
  rw [← hinputs] at hcall
  obtain ⟨x, hx, rfl⟩ := List.mem_map.mp hcall
  -- The first call that offers it admits it.
  obtain ⟨before, y, after, hlog, hy, hbefore⟩ :=
    History.exists_first (P := fun x => G.Offers x.1 k) ⟨x, hx, hoffers⟩
  have input {z : (T × M) × Except E B}
      (hz : z ∈ (Machine.run G.step (fun _ => none) calls).2) : z.1 ∈ calls := by
    rw [← hinputs]
    exact List.mem_map_of_mem hz
  have hymem : y.1 ∈ calls := input (by simp [hlog])
  refine ⟨y.1, hymem, seen_eq_some_of_kept calls k y.1.1 ?_⟩
  refine ⟨before, y, after, hlog, ⟨first_offer_admitted hlog hy hbefore, rfl⟩, fun z hz => ?_⟩
  exact hkeeps y.1 hymem z.1 (input (by simp [hlog, hz]))

end Replay.Guard
