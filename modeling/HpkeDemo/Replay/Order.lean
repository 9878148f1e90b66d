import HpkeDemo.Replay.History

/-!
# Repeated admissions and the order of the readings

Calls may come in any order of their readings. A call is overtaken when its key is
still fresh for it, although a call since the first fresh one of that key lets go of
what that first one was remembered with.

* `overtaken_of_repeated`: a message is admitted twice only when a call is overtaken;
* `repeated_of_overtaken`: an overtaken call makes its key be admitted twice.
-/

namespace Replay.Guard
open History
variable {T M K S E B : Type}

/-- `first` is the first of `calls` that offers `k`, and `since` are the calls after it. -/
def FirstOffer (G : Guard T M K S E B) (k : K) (calls : List (T × M)) (first : T × M)
    (since : List (T × M)) : Prop :=
  ∃ earlier, calls = earlier ++ first :: since ∧ G.Offers first k ∧
    ∀ call ∈ earlier, ¬ G.Offers call k

def Overtaken (G : Guard T M K S E B) (before : List (T × M)) (call : T × M) : Prop :=
  ∃ k first since, G.Offers call k ∧ G.FirstOffer k before first since ∧
    ∃ passing ∈ since, G.keeps passing.1 first.1 = false

variable {G : Guard T M K S E B}

/-- Two calls with one message keep each other's key. -/
theorem keeps_of_same [LE T] (lawful : G.Lawful) {call call' : T × M} {k : K}
    (h : G.Offers call k) (h' : G.Offers call' k) (same : call.2 = call'.2) :
    G.keeps call'.1 call.1 = true := by
  obtain ⟨s, b, hread, hfresh⟩ := h
  obtain ⟨s', b', hread', hfresh'⟩ := h'
  rw [← same, hread] at hread'
  obtain ⟨_, hsb⟩ := Prod.mk.inj (Except.ok.inj hread')
  obtain ⟨rfl, _⟩ := Prod.mk.inj hsb
  exact lawful.window hfresh hfresh'

variable {before mid after : List ((T × M) × Except E B)} {x y : (T × M) × Except E B} {k : K}

theorem firstOffer_of_log {log since : List ((T × M) × Except E B)}
    (hlog : log = before ++ x :: since) (hx : G.Offers x.1 k)
    (hbefore : ∀ w ∈ before, ¬ G.Offers w.1 k) :
    G.FirstOffer k (log.map Prod.fst) x.1 (since.map Prod.fst) := by
  refine ⟨before.map Prod.fst, by simp [hlog], hx, ?_⟩
  intro call hcall
  obtain ⟨w, hw, rfl⟩ := List.mem_map.mp hcall
  exact hbefore w hw

variable [DecidableEq K] {calls : List (T × M)}

theorem exists_admits {b : B}
    (hlog : (Machine.run G.step (fun _ => none) calls).2 = before ++ x :: after)
    (hx : x.2 = .ok b) : ∃ k, G.Admits x k := by
  obtain ⟨_, hstep⟩ := Machine.run_split G.step hlog
  obtain ⟨k, s, hread, _⟩ := step_eq_ok_iff.mp (hstep.trans hx)
  exact ⟨k, ⟨s, b, hread⟩, b, hx⟩

/-- An entry of the log is an admission of `k` exactly when it offers `k` and no
admission of `k` before it is kept. -/
theorem admits_iff_not_kept
    (hlog : (Machine.run G.step (fun _ => none) calls).2 = before ++ x :: after) :
    G.Admits x k ↔ G.Offers x.1 k ∧ ¬ ∃ a, G.Kept before k a ∧ G.keeps x.1.1 a = true := by
  obtain ⟨hbefore, hstep⟩ := Machine.run_split G.step hlog
  obtain ⟨call, result⟩ := x
  obtain rfl : (G.step call _).2 = result := hstep
  rw [admits_step_iff, retain_eq_none_iff]
  simp only [seen_eq_some_iff_kept, hbefore, not_exists, not_and, Bool.not_eq_true]

/-- The first offer of a key is admitted. -/
theorem first_offer_admitted
    (hlog : (Machine.run G.step (fun _ => none) calls).2 = before ++ x :: after)
    (hx : G.Offers x.1 k) (hfirst : ∀ w ∈ before, ¬ G.Offers w.1 k) : G.Admits x k := by
  apply (admits_iff_not_kept hlog).mpr
  refine ⟨hx, ?_⟩
  rintro ⟨a, ⟨before', w, after', rfl, ⟨hw, _⟩, _⟩, _⟩
  have hlog' : (Machine.run G.step (fun _ => none) calls).2 =
      before' ++ w :: (after' ++ x :: after) := by simp [hlog]
  exact hfirst w (by simp) ((admits_iff_not_kept hlog').mp hw).1

/-- Between two admissions of a key, or at the second, the first is let go. -/
theorem let_go_between
    (hlog : (Machine.run G.step (fun _ => none) calls).2 = before ++ x :: (mid ++ y :: after))
    (hx : G.Admits x k) (hy : G.Admits y k) :
    ∃ z ∈ mid ++ [y], G.keeps z.1.1 x.1.1 = false := by
  have hlog' : (Machine.run G.step (fun _ => none) calls).2 =
      (before ++ x :: mid) ++ y :: after := by simp [hlog]
  -- Were it kept throughout, the second admission would still find it.
  by_contra hkept
  have hkeeps : ∀ z ∈ mid ++ [y], G.keeps z.1.1 x.1.1 = true := by
    intro z hz
    by_contra hz'
    exact hkept ⟨z, hz, by simpa using hz'⟩
  obtain ⟨hmid, hlast⟩ := List.forall_mem_append.mp hkeeps
  apply ((admits_iff_not_kept hlog').mp hy).2
  exact ⟨x.1.1, ⟨before, x, mid, rfl, ⟨hx, rfl⟩, hmid⟩, hlast y (List.mem_singleton_self y)⟩

/-- A message is admitted twice only when the second call is overtaken. -/
theorem overtaken_of_repeated [LE T] (lawful : G.Lawful)
    (hlog : (Machine.run G.step (fun _ => none) calls).2 = before ++ x :: (mid ++ y :: after))
    (hx : G.Admits x k) (hy : G.Admits y k) (same : x.1.2 = y.1.2) :
    G.Overtaken ((before ++ x :: mid).map Prod.fst) y.1 := by
  have offers_x := ((admits_iff_not_kept hlog).mp hx).1
  have offers_y : G.Offers y.1 k := by
    have hlog' : (Machine.run G.step (fun _ => none) calls).2 =
        (before ++ x :: mid) ++ y :: after := by simp [hlog]
    exact ((admits_iff_not_kept hlog').mp hy).1
  have hex : ∃ z ∈ before ++ [x], G.Offers z.1 k := ⟨x, by simp, offers_x⟩
  obtain ⟨earlier, w, since, hsplit, offers_w, hearlier⟩ := exists_first hex
  have hpast : before ++ x :: mid = earlier ++ w :: (since ++ mid) := by
    rw [List.append_cons, hsplit, List.append_assoc, List.cons_append]
  refine ⟨k, w.1, (since ++ mid).map Prod.fst, offers_y,
    firstOffer_of_log hpast offers_w hearlier, ?_⟩
  -- The first offer is `x`, which `y` still keeps, or one that was let go before `x`.
  cases since using List.reverseRecOn with
  | nil =>
    obtain ⟨rfl, hxw⟩ := List.append_inj' hsplit rfl
    obtain rfl := List.singleton_inj.mp hxw
    obtain ⟨z, hz, hgone⟩ := let_go_between hlog hx hy
    obtain hz | rfl := by simpa using hz
    · exact ⟨z.1, List.mem_map_of_mem (by simpa using hz), hgone⟩
    · rw [keeps_of_same lawful offers_x offers_y same] at hgone
      cases hgone
  | append_singleton since v =>
    rw [← List.cons_append, ← List.append_assoc] at hsplit
    obtain ⟨rfl, hxv⟩ := List.append_inj' hsplit rfl
    obtain rfl := List.singleton_inj.mp hxv
    have hlog' : (Machine.run G.step (fun _ => none) calls).2 =
        earlier ++ w :: (since ++ x :: (mid ++ y :: after)) := by simp [hlog]
    have hw := first_offer_admitted hlog' offers_w hearlier
    obtain ⟨z, hz, hgone⟩ := let_go_between hlog' hw hx
    exact ⟨z.1, List.mem_map_of_mem (List.mem_append_left mid hz), hgone⟩

/-- An overtaken call makes its key be admitted twice. -/
theorem repeated_of_overtaken
    (hlog : (Machine.run G.step (fun _ => none) calls).2 = before ++ y :: after)
    (h : G.Overtaken (before.map Prod.fst) y.1) :
    ∃ k l₁ u l₂ v l₃, (Machine.run G.step (fun _ => none) calls).2 = l₁ ++ u :: (l₂ ++ v :: l₃) ∧
      G.Admits u k ∧ G.Admits v k := by
  obtain ⟨k, first, since, offers_y, ⟨earlier, hcalls, offers_w, hearlier⟩, passing, hpassing,
    hgone⟩ := h
  obtain ⟨l₁, rest, rfl, rfl, hrest⟩ := List.map_eq_append_iff.mp hcalls
  obtain ⟨w, l₂, rfl, rfl, rfl⟩ := List.map_eq_cons_iff.mp hrest
  have hlog' : (Machine.run G.step (fun _ => none) calls).2 = l₁ ++ w :: (l₂ ++ y :: after) := by
    simp [hlog]
  have hw : G.Admits w k := by
    apply first_offer_admitted hlog' offers_w
    intro z hz
    exact hearlier z.1 (List.mem_map_of_mem hz)
  by_cases hy : G.Admits y k
  · exact ⟨k, l₁, w, l₂, y, after, hlog', hw, hy⟩
  -- What `y` finds instead is another admission than `w`, which was let go.
  · have hkept := mt (admits_iff_not_kept hlog).mpr hy
    simp only [offers_y, true_and, not_not] at hkept
    obtain ⟨a, ⟨before', x, after', hsplit, ⟨hx, rfl⟩, hkeeps⟩, _⟩ := hkept
    obtain ⟨mid, rfl⟩ | ⟨rfl, rfl⟩ | ⟨mid, rfl⟩ := split_cases hsplit
    · refine ⟨k, l₁, w, mid, x, after' ++ y :: after, ?_, hw, hx⟩
      simp [hlog]
    · obtain ⟨z, hz, rfl⟩ := List.mem_map.mp hpassing
      rw [hkeeps z hz] at hgone
      cases hgone
    · refine ⟨k, before', x, mid, w, l₂ ++ y :: after, ?_, hx, hw⟩
      simp [hlog]

end Replay.Guard
