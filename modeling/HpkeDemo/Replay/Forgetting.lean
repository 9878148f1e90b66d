import HpkeDemo.Replay.Guard

/-!
# What forgetting and rejections leave unchanged

Under increasing readings:

* `run_eq_plain`: a guard that forgets answers like one that never does, when the
  messages that carry one key carry one stamp;
* `run_without_rejected`: a run with some of its rejected calls left out answers
  the others as before, and what is left of the two caches is the same.
-/

namespace Replay.Guard
variable {T M K S E B : Type}

theorem head_le [LE T] [Std.IsPreorder T] {first : T × M} {calls : List (T × M)}
    (mono : (first :: calls).Pairwise fun x y => x.1 ≤ y.1) :
    ∀ call ∈ first :: calls, first.1 ≤ call.1 := by
  intro call hcall
  obtain rfl | hcall := List.mem_cons.mp hcall
  · exact Std.le_refl _
  · exact (List.pairwise_cons.mp mono).1 call hcall

/-- The guard that never forgets. -/
def plain (G : Guard T M K S E B) : Guard T M K S E B := { G with keeps := fun _ _ => true }

section
variable (G : Guard T M K S E B)

@[simp] theorem plain_read : G.plain.read = G.read := rfl
@[simp] theorem plain_fresh : G.plain.fresh = G.fresh := rfl
@[simp] theorem plain_stale : G.plain.stale = G.stale := rfl
@[simp] theorem plain_repeated : G.plain.repeated = G.repeated := rfl

@[simp] theorem plain_retain (now : T) (seen : Cache K T) :
    G.plain.retain now seen = seen := by
  funext k
  simp only [retain, plain]
  cases seen k <;> rfl

/-- Forgetting is all that a guard does besides the plain one's step. -/
theorem step_eq_plain [DecidableEq K] (call : T × M) (seen : Cache K T) :
    G.step call seen = G.plain.step call (G.retain call.1 seen) := by
  simp only [step, plain_retain, plain_read, plain_fresh, plain_stale, plain_repeated]

end

/-- `seen` is `all` without entries too old for any stamp they were admitted with. -/
structure Simulates [LE T] (G : Guard T M K S E B) (stamp : K → S → Prop) (last : T)
    (seen all : Cache K T) : Prop where
  below : ∀ k a, seen k = some a → all k = some a
  settled : ∀ k a, all k = some a → G.Settled seen last k a
  stamped : ∀ k a, all k = some a → ∃ s, stamp k s ∧ G.fresh a s = true

section Simulates
variable [LE T] {G : Guard T M K S E B} {stamp : K → S → Prop}
  {seen all : Cache K T} {last : T} {call : T × M}

theorem Simulates.remember [DecidableEq K] (sim : G.Simulates stamp last seen all) {k : K}
    {s : S} {now : T} (hs : stamp k s) (hfresh : G.fresh now s = true) :
    G.Simulates stamp last (Function.update seen k (some now))
      (Function.update all k (some now)) := by
  refine ⟨fun k' a h => ?_, fun k' a h => ?_, fun k' a h => ?_⟩
  all_goals by_cases hk : k' = k
  · simpa [hk] using h
  · rw [Function.update_of_ne hk] at h ⊢
    exact sim.below k' a h
  · simp only [hk, Function.update_self] at h
    exact Or.inl (by simp [hk, h])
  · rw [Function.update_of_ne hk] at h
    exact (sim.settled k' a h).imp_left fun h => by rwa [Function.update_of_ne hk]
  · simp only [hk, Function.update_self, Option.some.injEq] at h
    exact ⟨s, hk ▸ hs, h ▸ hfresh⟩
  · rw [Function.update_of_ne hk] at h
    exact sim.stamped k' a h

variable [Std.IsPreorder T]

theorem Simulates.retain_none_iff (lawful : G.Lawful)
    (one : ∀ k s s', stamp k s → stamp k s' → s = s') (sim : G.Simulates stamp last seen all)
    (hle : last ≤ call.1) {k : K} {s : S} (hs : stamp k s) (hfresh : G.fresh call.1 s = true) :
    G.retain call.1 seen k = none ↔ all k = none := by
  constructor
  · intro hnone
    cases hall : all k with
    | none => rfl
    | some a =>
      obtain ⟨s', hs', hfresh'⟩ := sim.stamped k a hall
      obtain rfl := one k s s' hs hs'
      have hkeeps := lawful.window hfresh' hfresh
      obtain hseen | ⟨r, hr, hf⟩ := sim.settled k a hall
      · rw [retain_eq_some_iff.mpr ⟨hseen, hkeeps⟩] at hnone
        cases hnone
      · rw [lawful.keeps_antitone (Std.le_trans hr hle) hkeeps] at hf
        cases hf
  · intro hall
    cases hseen : G.retain call.1 seen k with
    | none => rfl
    | some a => rw [sim.below k a (retain_eq_some_iff.mp hseen).1] at hall; cases hall

theorem Simulates.retain (sim : G.Simulates stamp last seen all) {now : T} (hle : last ≤ now) :
    G.Simulates stamp now (G.retain now seen) all where
  below k a h := sim.below k a (retain_eq_some_iff.mp h).1
  settled k a h := (sim.settled k a h).retain hle
  stamped := sim.stamped

variable [DecidableEq K]

/-- One call is answered alike, and the caches stay alike. -/
theorem Simulates.step (lawful : G.Lawful) (one : ∀ k s s', stamp k s → stamp k s' → s = s')
    (sim : G.Simulates stamp last seen all) (hle : last ≤ call.1)
    (hstamp : ∀ k s b, G.read call.2 = .ok (k, s, b) → stamp k s) :
    (G.step call seen).2 = (G.plain.step call all).2 ∧
      G.Simulates stamp call.1 (G.step call seen).1 (G.plain.step call all).1 := by
  have hretain := sim.retain hle
  cases hmsg : G.read call.2 with
  | error e => simpa [Guard.step, hmsg] using hretain
  | ok msg =>
    obtain ⟨k, s, b⟩ := msg
    have hs := hstamp k s b hmsg
    cases hfresh : G.fresh call.1 s with
    | false => simpa [Guard.step, hmsg, hfresh] using hretain
    | true =>
      have hnone := sim.retain_none_iff lawful one hle hs hfresh
      by_cases hall : all k = none
      · simpa [Guard.step, hmsg, hfresh, hall, hnone.mpr hall] using
          hretain.remember hs hfresh
      · have hseen : (G.retain call.1 seen k).isSome := by
          simpa [Option.isSome_iff_ne_none] using mt hnone.mp hall
        have hall : (all k).isSome := Option.isSome_iff_ne_none.mpr hall
        simpa [Guard.step, hmsg, hfresh, hall, hseen] using hretain

/-- The guard that forgets answers a whole run as the one that does not. -/
theorem Simulates.run_eq_plain (lawful : G.Lawful)
    (one : ∀ k s s', stamp k s → stamp k s' → s = s') {calls : List (T × M)}
    (sim : G.Simulates stamp last seen all) (hle : ∀ call ∈ calls, last ≤ call.1)
    (mono : calls.Pairwise fun x y => x.1 ≤ y.1)
    (hstamp : ∀ call ∈ calls, ∀ k s b, G.read call.2 = .ok (k, s, b) → stamp k s) :
    (Machine.run G.step seen calls).2 = (Machine.run G.plain.step all calls).2 := by
  induction calls generalizing seen all last with
  | nil => rfl
  | cons call calls ih =>
    obtain ⟨hhead, htail⟩ := List.pairwise_cons.mp mono
    obtain ⟨hanswer, sim⟩ :=
      sim.step lawful one (hle call List.mem_cons_self) (hstamp call List.mem_cons_self)
    simp only [Machine.run_cons, hanswer]
    rw [ih sim hhead htail fun c hc => hstamp c (List.mem_cons_of_mem _ hc)]

/-- From empty caches, with the stamps the messages of the run carry. -/
theorem run_eq_plain (lawful : G.Lawful) (calls : List (T × M))
    (mono : calls.Pairwise fun x y => x.1 ≤ y.1)
    (one : ∀ x ∈ calls, ∀ y ∈ calls, ∀ k s b s' b', G.read x.2 = .ok (k, s, b) →
      G.read y.2 = .ok (k, s', b') → s = s') :
    (Machine.run G.step (fun _ => none) calls).2 =
      (Machine.run G.plain.step (fun _ => none) calls).2 := by
  cases calls with
  | nil => rfl
  | cons call calls =>
    have sim : G.Simulates (fun k s => ∃ x ∈ call :: calls, ∃ b, G.read x.2 = .ok (k, s, b))
        call.1 (fun _ => none) (fun _ => none) := ⟨by simp, by simp, by simp⟩
    refine sim.run_eq_plain lawful ?_ (head_le mono) mono fun x hx k s b h => ⟨x, hx, b, h⟩
    rintro k s s' ⟨x, hx, b, h⟩ ⟨y, hy, b', h'⟩
    exact one x hx y hy k s b s' b' h h'

end Simulates

/-- `log'` is `log` with some of its rejected calls left out. -/
inductive Deletion : List ((T × M) × Except E B) → List ((T × M) × Except E B) → Prop where
  | nil : Deletion [] []
  | keep (x log log') (h : Deletion log log') : Deletion (x :: log) (x :: log')
  | drop (call e log log') (h : Deletion log log') : Deletion ((call, .error e) :: log) log'

section Deletion
variable [LE T] [Std.IsPreorder T] [DecidableEq K] {G : Guard T M K S E B} {seen seen' : Cache K T}

/-- Caches that agree on what any later reading keeps answer the rest of a run
alike, and agree after it. -/
theorem run_of_deletion (lawful : G.Lawful) {last : T} {calls : List (T × M)}
    {log : List ((T × M) × Except E B)}
    (agree : ∀ now, last ≤ now → G.retain now seen = G.retain now seen')
    (hle : ∀ call ∈ calls, last ≤ call.1) (mono : calls.Pairwise fun x y => x.1 ≤ y.1)
    (h : Deletion (Machine.run G.step seen calls).2 log) :
    (Machine.run G.step seen' (log.map Prod.fst)).2 = log ∧
      ∀ now, last ≤ now → (∀ call ∈ calls, call.1 ≤ now) →
        G.retain now (Machine.run G.step seen calls).1 =
          G.retain now (Machine.run G.step seen' (log.map Prod.fst)).1 := by
  induction calls generalizing seen seen' last log with
  | nil =>
    cases h
    exact ⟨rfl, fun now hnow _ => agree now hnow⟩
  | cons call calls ih =>
    obtain ⟨hhead, htail⟩ := List.pairwise_cons.mp mono
    have hcall := hle call List.mem_cons_self
    rw [Machine.run_cons] at h
    generalize hx : (call, (G.step call seen).2) = x at h
    cases h with
    | keep x log rest h =>
      subst hx
      have hsame := step_congr (agree call.1 hcall)
      obtain ⟨hanswers, hend⟩ := ih (fun now _ => rfl) hhead htail h
      simp only [List.map_cons, Machine.run_cons, ← hsame, hanswers, true_and]
      exact fun now _ hall => hend now (hall call List.mem_cons_self)
        fun c hc => hall c (List.mem_cons_of_mem _ hc)
    | drop call' e log rest h =>
      obtain ⟨rfl, herror⟩ := Prod.mk.inj hx
      have agree' : ∀ now, call.1 ≤ now →
          G.retain now (G.step call seen).1 = G.retain now seen' := fun now hnow => by
        rw [step_seen_of_error herror, retain_retain lawful hnow]
        exact agree now (Std.le_trans hcall hnow)
      obtain ⟨hanswers, hend⟩ := ih agree' hhead htail h
      exact ⟨hanswers, fun now _ hall => hend now (hall call List.mem_cons_self)
        fun c hc => hall c (List.mem_cons_of_mem _ hc)⟩

/-- Leaving rejected calls out of a run changes no other answer, and no later call
finds or leaves a different cache. -/
theorem run_without_rejected (lawful : G.Lawful) {calls : List (T × M)}
    {log : List ((T × M) × Except E B)} (mono : calls.Pairwise fun x y => x.1 ≤ y.1)
    (h : Deletion (Machine.run G.step seen calls).2 log) :
    (Machine.run G.step seen (log.map Prod.fst)).2 = log ∧
      ∀ call, (∀ c ∈ calls, c.1 ≤ call.1) →
        G.step call (Machine.run G.step seen calls).1 =
          G.step call (Machine.run G.step seen (log.map Prod.fst)).1 := by
  cases calls with
  | nil => cases h; exact ⟨rfl, fun _ _ => rfl⟩
  | cons first calls =>
    obtain ⟨hanswers, hend⟩ :=
      run_of_deletion lawful (fun _ _ => rfl) (head_le mono) mono h
    exact ⟨hanswers, fun call hall =>
      step_congr (hend call.1 (hall first List.mem_cons_self) hall)⟩

end Deletion
end Replay.Guard
