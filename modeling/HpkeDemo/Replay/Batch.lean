import Mathlib.Data.List.Nodup
import HpkeDemo.Replay.Order

/-!
# Messages at one reading

A batch of messages is handled one after another at one clock reading.

* `batch_seen_iff`: what is remembered after a batch, with no order in it;
* `mem_keys_batch`, `nodup_keys_batch`: which keys it admits, and that it admits each once;
* `batch_seen_perm`, `batch_keys_perm`: two orders of a batch end alike and admit the
  same keys;
* `batch_bodies_perm`: they return the same bodies when no key stands with two.
-/

namespace Replay.Guard
variable {T M K S E B : Type}

/-- Some message of the batch carries `k` freshly. -/
def Offered (G : Guard T M K S E B) (now : T) (messages : List M) (k : K) : Prop :=
  ∃ message ∈ messages, G.Offers (now, message) k

/-- The key and the body that an entry of a log admits. -/
def admission (G : Guard T M K S E B) (x : M × Except E B) : Option (K × B) :=
  match x.2, G.read x.1 with
  | .ok b, .ok (k, _, _) => some (k, b)
  | _, _ => none

def admissions (G : Guard T M K S E B) (log : List (M × Except E B)) : List (K × B) :=
  log.filterMap G.admission

/-- No key of the batch is offered with two stamps or bodies. -/
def OnePayload (G : Guard T M K S E B) (messages : List M) : Prop :=
  ∀ m ∈ messages, ∀ m' ∈ messages, ∀ k s s' b b', G.read m = .ok (k, s, b) →
    G.read m' = .ok (k, s', b') → s = s' ∧ b = b'

variable {G : Guard T M K S E B} {now a : T} {seen : Cache K T} {message : M}
  {messages messages' : List M} {k : K} {b : B}

theorem offered_cons : G.Offered now (message :: messages) k ↔
    G.Offers (now, message) k ∨ G.Offered now messages k := by
  simp [Offered]

theorem Offered.perm (h : messages.Perm messages') :
    G.Offered now messages k ↔ G.Offered now messages' k := by
  simp only [Offered, h.mem_iff]

theorem admissions_cons (x : M × Except E B) (log : List (M × Except E B)) :
    G.admissions (x :: log) = (G.admission x).toList ++ G.admissions log := by
  cases h : G.admission x <;> simp [admissions, h]

variable [DecidableEq K]

/-- `messages` in turn, at the reading `now`. -/
def batch (G : Guard T M K S E B) (now : T) (seen : Cache K T) (messages : List M) :
    Cache K T × List (M × Except E B) :=
  Machine.run (fun message => G.step (now, message)) seen messages

/-- A message admits the key it offers, if that is unknown. -/
theorem admission_step :
    G.admission (message, (G.step (now, message) seen).2) = some (k, b) ↔
      ∃ s, G.read message = .ok (k, s, b) ∧ G.fresh now s = true ∧ G.retain now seen k = none := by
  constructor
  · intro h
    cases hstep : (G.step (now, message) seen).2 with
    | error e => simp [admission, hstep] at h
    | ok b' =>
      obtain ⟨k', s, hread, hfresh, hnone⟩ := step_eq_ok_iff.mp hstep
      simp only [admission, hstep, hread, Option.some.injEq, Prod.mk.injEq] at h
      obtain ⟨rfl, rfl⟩ := h
      exact ⟨s, hread, hfresh, hnone⟩
  · rintro ⟨s, hread, hfresh, hnone⟩
    have hstep : (G.step (now, message) seen).2 = .ok b :=
      step_eq_ok_iff.mpr ⟨k, s, hread, hfresh, hnone⟩
    simp only [admission, hstep, hread]

theorem exists_admission_step :
    (∃ b, G.admission (message, (G.step (now, message) seen).2) = some (k, b)) ↔
      G.Offers (now, message) k ∧ G.retain now seen k = none := by
  simp only [admission_step]
  constructor
  · rintro ⟨b, s, hread, hfresh, hnone⟩
    exact ⟨⟨s, b, hread, hfresh⟩, hnone⟩
  · rintro ⟨⟨s, b, hread, hfresh⟩, hnone⟩
    exact ⟨b, s, hread, hfresh, hnone⟩

/-- The keys admitted by a batch are those of its first message, then of the rest. -/
theorem mem_keys_batch_cons (seen : Cache K T) :
    k ∈ (G.admissions (G.batch now seen (message :: messages)).2).map Prod.fst ↔
      G.Offers (now, message) k ∧ G.retain now seen k = none ∨
        k ∈ (G.admissions
          (G.batch now (G.step (now, message) seen).1 messages).2).map Prod.fst := by
  rw [batch, Machine.run_cons, admissions_cons, List.map_append, List.mem_append,
    ← exists_admission_step]
  simp only [List.mem_map, Option.mem_toList, Prod.exists, exists_and_right, exists_eq_right]
  rfl

/-- What is remembered after a message: what was retained, and the key it admits. -/
theorem step_now_seen_iff : (G.step (now, message) seen).1 k = some a ↔
    G.retain now seen k = some a ∨
      G.retain now seen k = none ∧ G.Offers (now, message) k ∧ now = a := by
  rw [step_seen_iff, admits_step_iff, ← retain_eq_some_iff]
  constructor
  · rintro (⟨⟨hoffers, hnone⟩, hnow⟩ | ⟨_, hretain⟩)
    · exact Or.inr ⟨hnone, hoffers, hnow⟩
    · exact Or.inl hretain
  · rintro (hretain | ⟨hnone, hoffers, hnow⟩)
    · refine Or.inr ⟨?_, hretain⟩
      rintro ⟨_, hnone⟩
      rw [hretain] at hnone
      cases hnone
    · exact Or.inl ⟨⟨hoffers, hnone⟩, hnow⟩

section
variable (hnow : G.keeps now now = true)
include hnow

/-- After a message there is nothing left to forget at its reading. -/
theorem retain_step_now : G.retain now (G.step (now, message) seen).1 =
    (G.step (now, message) seen).1 := by
  funext k
  apply Option.ext
  intro a
  rw [retain_eq_some_iff, and_iff_left_iff_imp]
  intro h
  rcases step_now_seen_iff.mp h with hretain | ⟨_, _, rfl⟩
  · exact (retain_eq_some_iff.mp hretain).2
  · exact hnow

theorem retain_step_none_iff : G.retain now (G.step (now, message) seen).1 k = none ↔
    G.retain now seen k = none ∧ ¬ G.Offers (now, message) k := by
  rw [retain_step_now hnow, Option.eq_none_iff_forall_ne_some]
  constructor
  · intro h
    have hnone : G.retain now seen k = none := by
      apply Option.eq_none_iff_forall_ne_some.mpr
      intro a ha
      exact h a (step_now_seen_iff.mpr (Or.inl ha))
    refine ⟨hnone, ?_⟩
    intro hoffers
    exact h now (step_now_seen_iff.mpr (Or.inr ⟨hnone, hoffers, rfl⟩))
  · rintro ⟨hnone, hoffers⟩ a ha
    rcases step_now_seen_iff.mp ha with hretain | ⟨_, hoffers', _⟩
    · rw [hretain] at hnone
      cases hnone
    · exact hoffers hoffers'

/-- After a batch the guard remembers what it had retained, and every key offered. -/
theorem batch_seen_iff (seen : Cache K T) (hne : messages ≠ []) :
    (G.batch now seen messages).1 k = some a ↔
      G.retain now seen k = some a ∨
        G.retain now seen k = none ∧ G.Offered now messages k ∧ now = a := by
  induction messages generalizing seen with
  | nil => exact absurd rfl hne
  | cons message rest ih =>
    rw [batch, Machine.run_cons, offered_cons]
    by_cases hrest : rest = []
    · subst hrest
      simp only [Machine.run_nil, step_now_seen_iff, Offered, List.not_mem_nil, false_and,
        exists_false, or_false]
    · have hafter := ih (G.step (now, message) seen).1 hrest
      rw [retain_step_none_iff hnow, retain_step_now hnow, step_now_seen_iff] at hafter
      rw [← batch, hafter]
      constructor
      · rintro ((hretain | ⟨hnone, hoffers, rfl⟩) | ⟨⟨hnone, _⟩, hoffered, rfl⟩)
        · exact Or.inl hretain
        · exact Or.inr ⟨hnone, Or.inl hoffers, rfl⟩
        · exact Or.inr ⟨hnone, Or.inr hoffered, rfl⟩
      · rintro (hretain | ⟨hnone, hoffered, rfl⟩)
        · exact Or.inl (Or.inl hretain)
        · by_cases hoffers : G.Offers (now, message) k
          · exact Or.inl (Or.inr ⟨hnone, hoffers, rfl⟩)
          · exact Or.inr ⟨⟨hnone, hoffers⟩, hoffered.resolve_left hoffers, rfl⟩

/-- A key is admitted exactly if it was unknown and is offered. -/
theorem mem_keys_batch (seen : Cache K T) :
    k ∈ (G.admissions (G.batch now seen messages).2).map Prod.fst ↔
      G.retain now seen k = none ∧ G.Offered now messages k := by
  induction messages generalizing seen with
  | nil => simp [batch, admissions, Offered]
  | cons message rest ih =>
    rw [mem_keys_batch_cons, ih, retain_step_none_iff hnow, offered_cons]
    by_cases hoffers : G.Offers (now, message) k
    · simp only [hoffers, true_and, not_true_eq_false, and_false, false_and, or_false, true_or,
        and_true]
    · simp only [hoffers, false_and, not_false_eq_true, and_true, false_or]

/-- No key is admitted twice. -/
theorem nodup_keys_batch (seen : Cache K T) :
    ((G.admissions (G.batch now seen messages).2).map Prod.fst).Nodup := by
  induction messages generalizing seen with
  | nil => exact List.nodup_nil
  | cons message rest ih =>
    rw [batch, Machine.run_cons, admissions_cons, List.map_append]
    apply List.Nodup.append
    · cases G.admission (message, (G.step (now, message) seen).2) with
      | none => exact List.nodup_nil
      | some x => exact List.nodup_singleton x.1
    · exact ih (G.step (now, message) seen).1
    · intro k hhead hrest
      obtain ⟨⟨_, b⟩, hb, rfl⟩ := List.mem_map.mp hhead
      have hoffers := (exists_admission_step.mp ⟨b, Option.mem_toList.mp hb⟩).1
      have hnone := ((mem_keys_batch hnow (G.step (now, message) seen).1).mp hrest).1
      exact ((retain_step_none_iff hnow).mp hnone).2 hoffers

end

/-- What a batch admits is read from one of its messages, and fresh. -/
theorem read_of_mem_admissions {seen : Cache K T}
    (h : (k, b) ∈ G.admissions (G.batch now seen messages).2) :
    ∃ message ∈ messages, ∃ s, G.read message = .ok (k, s, b) ∧ G.fresh now s = true := by
  obtain ⟨⟨message, result⟩, hmem, hadmits⟩ := List.mem_filterMap.mp h
  obtain ⟨seen', hstep⟩ := Machine.exists_step_of_mem _ hmem
  dsimp only at hstep
  rw [← hstep] at hadmits
  obtain ⟨s, hread, hfresh, _⟩ := admission_step.mp hadmits
  have hmessage : message ∈ (G.batch now seen messages).2.map Prod.fst :=
    List.mem_map_of_mem hmem
  rw [batch, Machine.run_inputs] at hmessage
  exact ⟨message, hmessage, s, hread, hfresh⟩

/-- The bodies returned are those of the admissions, in their order. -/
theorem bodies_batch (seen : Cache K T) :
    (G.batch now seen messages).2.filterMap (fun x => x.2.toOption) =
      (G.admissions (G.batch now seen messages).2).map Prod.snd := by
  rw [admissions, List.map_filterMap]
  apply List.filterMap_congr
  rintro ⟨message, result⟩ hmem
  obtain ⟨seen', hstep⟩ := Machine.exists_step_of_mem _ hmem
  cases result with
  | error e => rfl
  | ok b =>
    obtain ⟨k, s, hread, _⟩ := step_eq_ok_iff.mp hstep
    simp only [admission, hread]
    rfl

section
variable (hnow : G.keeps now now = true)
include hnow

/-- With one payload a key, a batch admits what was unknown and is offered. -/
theorem mem_admissions_iff (one : G.OnePayload messages) (seen : Cache K T) :
    (k, b) ∈ G.admissions (G.batch now seen messages).2 ↔
      G.retain now seen k = none ∧
        ∃ message ∈ messages, ∃ s, G.read message = .ok (k, s, b) ∧ G.fresh now s = true := by
  constructor
  · intro h
    have hkey := (mem_keys_batch hnow seen).mp (List.mem_map_of_mem h)
    exact ⟨hkey.1, read_of_mem_admissions h⟩
  · rintro ⟨hnone, message, hmessage, s, hread, hfresh⟩
    have hoffered : G.Offered now messages k := ⟨message, hmessage, s, b, hread, hfresh⟩
    have hkey := (mem_keys_batch hnow seen).mpr ⟨hnone, hoffered⟩
    obtain ⟨⟨_, b'⟩, hmem, rfl⟩ := List.mem_map.mp hkey
    obtain ⟨message', hmessage', s', hread', _⟩ := read_of_mem_admissions hmem
    obtain ⟨_, rfl⟩ := one message hmessage message' hmessage' _ s s' b b' hread hread'
    exact hmem

variable (perm : messages.Perm messages') (seen : Cache K T)
include perm

theorem batch_seen_perm : (G.batch now seen messages).1 = (G.batch now seen messages').1 := by
  by_cases hne : messages = []
  · subst hne
    rw [perm.nil_eq]
  · have hne' : messages' ≠ [] := by
      rintro rfl
      exact hne perm.eq_nil
    funext k
    apply Option.ext
    intro a
    rw [batch_seen_iff hnow seen hne, batch_seen_iff hnow seen hne', Offered.perm perm]

theorem batch_keys_perm : ((G.admissions (G.batch now seen messages).2).map Prod.fst).Perm
    ((G.admissions (G.batch now seen messages').2).map Prod.fst) := by
  apply (List.perm_ext_iff_of_nodup (nodup_keys_batch hnow seen) (nodup_keys_batch hnow seen)).mpr
  intro k
  rw [mem_keys_batch hnow, mem_keys_batch hnow, Offered.perm perm]

/-- With one payload a key, two orders of a batch return the same bodies. -/
theorem batch_bodies_perm (one : G.OnePayload messages) :
    ((G.batch now seen messages).2.filterMap fun x => x.2.toOption).Perm
      ((G.batch now seen messages').2.filterMap fun x => x.2.toOption) := by
  have one' : G.OnePayload messages' := by
    intro m hm m' hm'
    exact one m (perm.mem_iff.mpr hm) m' (perm.mem_iff.mpr hm')
  rw [bodies_batch, bodies_batch]
  apply List.Perm.map
  apply (List.perm_ext_iff_of_nodup (List.Nodup.of_map _ (nodup_keys_batch hnow seen))
    (List.Nodup.of_map _ (nodup_keys_batch hnow seen))).mpr
  rintro ⟨k, b⟩
  simp only [mem_admissions_iff hnow one, mem_admissions_iff hnow one', perm.mem_iff]

end
end Replay.Guard
