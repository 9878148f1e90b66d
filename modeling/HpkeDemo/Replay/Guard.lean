import Mathlib.Logic.Function.Basic
import HpkeDemo.Replay.Machine

/-!
# A guard that admits each key once

A guard reads a key, a stamp and a body out of a message. It admits the body when
the stamp is fresh at the guard's clock reading and the key is not among those it
remembers, and then remembers the key with that reading. Each call first forgets
the keys that `keeps` no longer keeps.

* `step_cases`: all that one call can do, `step_eq_ok_iff` when it admits, and
  `admits_step_iff` which key;
* `step_seen_iff`: what the guard remembers after a call;
* `Lawful`: a remembered key outlives every stamp it was admitted with;
* `Settled`: under increasing readings an admitted key is still remembered or was
  forgotten at a reading after which its stamp is no longer fresh, so that
  `not_admitted_again` rules out a second admission.
-/

namespace Replay

/-- `keeps now seenAt` and `fresh now stamp` are judged at the reading `now`. -/
structure Guard (T M K S E B : Type) where
  keeps : T → T → Bool
  read : M → Except E (K × S × B)
  fresh : T → S → Bool
  stale : E
  repeated : E

/-- The keys remembered, each with the reading it was admitted at. -/
abbrev Cache (K T : Type) := K → Option T

namespace Guard
variable {T M K S E B : Type}

def retain (G : Guard T M K S E B) (now : T) (seen : Cache K T) : Cache K T :=
  fun k => (seen k).filter (G.keeps now)

def step [DecidableEq K] (G : Guard T M K S E B) (call : T × M) (seen : Cache K T) :
    Cache K T × Except E B :=
  let seen := G.retain call.1 seen
  match G.read call.2 with
  | .error e => (seen, .error e)
  | .ok (k, s, b) =>
    if G.fresh call.1 s then
      if (seen k).isSome then (seen, .error G.repeated)
      else (Function.update seen k (some call.1), .ok b)
    else (seen, .error G.stale)

/-- The call was answered with a body, and its message carries `k`. -/
def Admits (G : Guard T M K S E B) (x : (T × M) × Except E B) (k : K) : Prop :=
  (∃ s b, G.read x.1.2 = .ok (k, s, b)) ∧ ∃ b, x.2 = .ok b

/-- The message of `call` carries `k`, with a stamp that is fresh at its reading. -/
def Offers (G : Guard T M K S E B) (call : T × M) (k : K) : Prop :=
  ∃ s b, G.read call.2 = .ok (k, s, b) ∧ G.fresh call.1 s = true

/-- Keeping is decided by the age of an entry, and two readings that are fresh for
one stamp keep each other. -/
structure Lawful [LE T] (G : Guard T M K S E B) : Prop where
  keeps_antitone : ∀ {r now a}, r ≤ now → G.keeps now a = true → G.keeps r a = true
  window : ∀ {a now s}, G.fresh a s = true → G.fresh now s = true → G.keeps now a = true

section retain
variable {G : Guard T M K S E B}

theorem retain_eq_some_iff {now a : T} {seen : Cache K T} {k : K} :
    G.retain now seen k = some a ↔ seen k = some a ∧ G.keeps now a = true := by
  simp [retain, Option.filter_eq_some_iff]

theorem retain_eq_none_iff {now : T} {seen : Cache K T} {k : K} :
    G.retain now seen k = none ↔ ∀ a, seen k = some a → G.keeps now a = false := by
  simp [retain, Option.filter_eq_none_iff]

/-- Forgetting at an earlier reading adds nothing to forgetting at a later one. -/
theorem retain_retain [LE T] (lawful : G.Lawful) {r now : T} (h : r ≤ now) (seen : Cache K T) :
    G.retain now (G.retain r seen) = G.retain now seen := by
  funext k
  apply Option.ext
  intro a
  simp only [retain_eq_some_iff]
  constructor
  · rintro ⟨⟨hseen, _⟩, hkeeps⟩
    exact ⟨hseen, hkeeps⟩
  · rintro ⟨hseen, hkeeps⟩
    have hearlier := lawful.keeps_antitone h hkeeps
    exact ⟨⟨hseen, hearlier⟩, hkeeps⟩

end retain

section step
variable [DecidableEq K] {G : Guard T M K S E B}

/-- A call is answered with an error and only forgets, or admits a fresh message
with an unknown key and remembers it. -/
theorem step_cases (G : Guard T M K S E B) (call : T × M) (seen : Cache K T) :
    (∃ e, G.step call seen = (G.retain call.1 seen, .error e)) ∨
    ∃ k s b, G.read call.2 = .ok (k, s, b) ∧ G.fresh call.1 s = true ∧
      G.retain call.1 seen k = none ∧
      G.step call seen = (Function.update (G.retain call.1 seen) k (some call.1), .ok b) := by
  cases hread : G.read call.2 with
  | error e => exact Or.inl ⟨e, by simp [step, hread]⟩
  | ok msg =>
    obtain ⟨k, s, b⟩ := msg
    cases hfresh : G.fresh call.1 s with
    | false => exact Or.inl ⟨G.stale, by simp [step, hread, hfresh]⟩
    | true =>
      cases hseen : G.retain call.1 seen k with
      | some a => exact Or.inl ⟨G.repeated, by simp [step, hread, hfresh, hseen]⟩
      | none => exact Or.inr ⟨k, s, b, rfl, hfresh, hseen, by simp [step, hread, hfresh, hseen]⟩

theorem step_eq_ok_iff {call : T × M} {seen : Cache K T} {b : B} :
    (G.step call seen).2 = .ok b ↔ ∃ k s, G.read call.2 = .ok (k, s, b) ∧
      G.fresh call.1 s = true ∧ G.retain call.1 seen k = none := by
  constructor
  · intro h
    obtain ⟨e, hstep⟩ | ⟨k, s, b', hread, hfresh, hnone, hstep⟩ := G.step_cases call seen
    · rw [hstep] at h; cases h
    · rw [hstep] at h
      exact ⟨k, s, Except.ok.inj h ▸ hread, hfresh, hnone⟩
  · rintro ⟨k, s, hread, hfresh, hnone⟩
    simp [step, hread, hfresh, hnone]

/-- A call admits a key exactly if it offers it and the key is unknown. -/
theorem admits_step_iff {call : T × M} {seen : Cache K T} {k : K} :
    G.Admits (call, (G.step call seen).2) k ↔ G.Offers call k ∧ G.retain call.1 seen k = none := by
  constructor
  · rintro ⟨⟨s, b, hread⟩, b', hok⟩
    obtain ⟨k', s', hread', hfresh, hnone⟩ := step_eq_ok_iff.mp hok
    obtain ⟨rfl, _⟩ := Prod.mk.inj (Except.ok.inj (hread.symm.trans hread'))
    exact ⟨⟨s', b', hread', hfresh⟩, hnone⟩
  · rintro ⟨⟨s, b, hread, hfresh⟩, hnone⟩
    exact ⟨⟨s, b, hread⟩, b, step_eq_ok_iff.mpr ⟨k, s, hread, hfresh, hnone⟩⟩

/-- A rejected call only forgets. -/
theorem step_seen_of_error {call : T × M} {seen : Cache K T} {e : E}
    (h : (G.step call seen).2 = .error e) : (G.step call seen).1 = G.retain call.1 seen := by
  obtain ⟨_, hstep⟩ | ⟨k, s, b, _, _, _, hstep⟩ := G.step_cases call seen
  · rw [hstep]
  · rw [hstep] at h; cases h

/-- A call reads the cache only through what it retains. -/
theorem step_congr {call : T × M} {seen seen' : Cache K T}
    (h : G.retain call.1 seen = G.retain call.1 seen') : G.step call seen = G.step call seen' := by
  simp only [step, h]

/-- What is remembered after a call: the key it admits, or what it retains. -/
theorem step_seen_iff {call : T × M} {seen : Cache K T} {k : K} {a : T} :
    (G.step call seen).1 k = some a ↔
      G.Admits (call, (G.step call seen).2) k ∧ call.1 = a ∨
      ¬ G.Admits (call, (G.step call seen).2) k ∧ seen k = some a ∧ G.keeps call.1 a = true := by
  obtain ⟨e, hstep⟩ | ⟨k', s, b, hread, _, _, hstep⟩ := G.step_cases call seen
  · have none : ¬ G.Admits (call, (.error e : Except E B)) k := fun ⟨_, _, h⟩ => by cases h
    simp only [hstep, none, false_and, false_or, not_false_eq_true, true_and, retain_eq_some_iff]
  · have admits : G.Admits (call, (.ok b : Except E B)) k ↔ k' = k := by
      simp [Admits, hread]
    simp only [hstep, admits]
    by_cases hk : k' = k
    · subst hk; simp
    · simp [hk, Function.update_of_ne (Ne.symm hk), retain_eq_some_iff]

/-- A key that is kept is not admitted again, and stays remembered. -/
theorem step_seen_of_keeps {call : T × M} {seen : Cache K T} {k : K} {a : T}
    (h : seen k = some a) (hk : G.keeps call.1 a = true) : (G.step call seen).1 k = some a := by
  refine step_seen_iff.mpr (Or.inr ⟨fun hadm => ?_, h, hk⟩)
  have hnone := (admits_step_iff.mp hadm).2
  rw [retain_eq_some_iff.mpr ⟨h, hk⟩] at hnone
  cases hnone

end step

section Settled
variable [LE T] {G : Guard T M K S E B}

/-- A key admitted at `a` is remembered, or was forgotten by a reading up to `last`. -/
def Settled (G : Guard T M K S E B) (seen : Cache K T) (last : T) (k : K) (a : T) : Prop :=
  seen k = some a ∨ ∃ r, r ≤ last ∧ G.keeps r a = false

theorem Settled.retain [Std.IsPreorder T] {seen : Cache K T} {last now : T} {k : K} {a : T}
    (h : G.Settled seen last k a) (hle : last ≤ now) :
    G.Settled (G.retain now seen) now k a := by
  obtain h | ⟨r, hr, hf⟩ := h
  · by_cases hk : G.keeps now a = true
    · exact Or.inl (retain_eq_some_iff.mpr ⟨h, hk⟩)
    · exact Or.inr ⟨now, Std.le_refl _, by simpa using hk⟩
  · exact Or.inr ⟨r, Std.le_trans hr hle, hf⟩

variable [DecidableEq K]

theorem settled_of_admits {call : T × M} {seen : Cache K T} {k : K}
    (h : G.Admits (call, (G.step call seen).2) k) :
    G.Settled (G.step call seen).1 call.1 k call.1 :=
  Or.inl (step_seen_iff.mpr (Or.inl ⟨h, rfl⟩))

variable [Std.IsPreorder T]

theorem settled_step {call : T × M} {seen : Cache K T} {last : T} {k : K} {a : T}
    (h : G.Settled seen last k a) (hle : last ≤ call.1) :
    G.Settled (G.step call seen).1 call.1 k a := by
  obtain hretain | hforgot := h.retain hle
  · obtain ⟨hseen, hkeeps⟩ := retain_eq_some_iff.mp hretain
    exact Or.inl (step_seen_of_keeps hseen hkeeps)
  · exact Or.inr hforgot

/-- The second admission of a key under the stamp of the first is impossible. -/
theorem not_admitted_again (lawful : G.Lawful) {call : T × M} {seen : Cache K T} {last a : T}
    {k : K} {s : S} {b b' : B} (hset : G.Settled seen last k a) (hle : last ≤ call.1)
    (hread : G.read call.2 = .ok (k, s, b)) (hfresh : G.fresh a s = true) :
    (G.step call seen).2 ≠ .ok b' := by
  intro hok
  obtain ⟨k', s', hread', hfresh', hnone⟩ := step_eq_ok_iff.mp hok
  obtain ⟨rfl, hsb⟩ := Prod.mk.inj (Except.ok.inj (hread.symm.trans hread'))
  obtain ⟨rfl, rfl⟩ := Prod.mk.inj hsb
  have hkeeps := lawful.window hfresh hfresh'
  obtain h | ⟨r, hr, hf⟩ := hset
  · rw [retain_eq_some_iff.mpr ⟨h, hkeeps⟩] at hnone
    cases hnone
  · rw [lawful.keeps_antitone (Std.le_trans hr hle) hkeeps] at hf
    cases hf

end Settled
end Guard
end Replay
