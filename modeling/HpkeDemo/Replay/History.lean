import HpkeDemo.Replay.Guard
import HpkeDemo.Replay.Trace

/-!
# What a guard remembers is its recent admissions

For any readings at all, in any order: after a run from an empty cache, a key is
remembered with `a` exactly when its last admission was at `a` and every call
since kept it (`seen_eq_some_iff`). An admission that every call since kept is the
last one (`seen_eq_some_iff_kept`), which is the form in which a next call reads
the cache (`next_eq_ok_iff`).
-/

namespace Replay.Guard
open History
variable {T M K S E B : Type}

/-- `k` was admitted at `a`, and every reading since keeps `a`. -/
def Kept (G : Guard T M K S E B) (log : List ((T × M) × Except E B)) (k : K) (a : T) : Prop :=
  Since (fun y => G.keeps y.1.1 a = true) (fun x => G.Admits x k ∧ x.1.1 = a) log

/-- The last admission of `k` was at `a`, and every reading since keeps `a`. -/
def LastKept (G : Guard T M K S E B) (log : List ((T × M) × Except E B)) (k : K) (a : T) : Prop :=
  Since (fun y => ¬ G.Admits y k ∧ G.keeps y.1.1 a = true)
    (fun x => G.Admits x k ∧ x.1.1 = a) log

variable {G : Guard T M K S E B}

theorem LastKept.kept {log : List ((T × M) × Except E B)} {k : K} {a : T}
    (h : G.LastKept log k a) : G.Kept log k a :=
  Since.mono h fun _ hy => hy.2

variable [DecidableEq K]

/-- The cache after a run is the recent part of its log. -/
theorem seen_eq_some_iff (calls : List (T × M)) (k : K) (a : T) :
    (Machine.run G.step (fun _ => none) calls).1 k = some a ↔
      G.LastKept (Machine.run G.step (fun _ => none) calls).2 k a := by
  induction calls using List.reverseRecOn generalizing a with
  | nil => simp [LastKept, not_since_nil]
  | append_singleton calls call ih =>
    simp only [Machine.run_concat, LastKept, since_concat, step_seen_iff]
    rw [ih, LastKept]
    tauto

/-- An admission that every reading since keeps is the last one of its key. -/
theorem seen_eq_some_of_kept (calls : List (T × M)) (k : K) (a : T)
    (h : G.Kept (Machine.run G.step (fun _ => none) calls).2 k a) :
    (Machine.run G.step (fun _ => none) calls).1 k = some a := by
  induction calls using List.reverseRecOn with
  | nil => exact absurd h not_since_nil
  | append_singleton calls call ih =>
    simp only [Machine.run_concat, Kept, since_concat] at h ⊢
    obtain hlast | ⟨hkept, hk⟩ := h
    · exact step_seen_iff.mpr (Or.inl hlast)
    · exact step_seen_of_keeps (ih hkept) hk

theorem seen_eq_some_iff_kept (calls : List (T × M)) (k : K) (a : T) :
    (Machine.run G.step (fun _ => none) calls).1 k = some a ↔
      G.Kept (Machine.run G.step (fun _ => none) calls).2 k a :=
  ⟨fun h => ((seen_eq_some_iff calls k a).mp h).kept, seen_eq_some_of_kept calls k a⟩

/-- The next call admits a fresh message unless an admission of its key is kept by
every reading since and by this one. -/
theorem next_eq_ok_iff (calls : List (T × M)) (call : T × M) (b : B) :
    (G.step call (Machine.run G.step (fun _ => none) calls).1).2 = .ok b ↔
      ∃ k s, G.read call.2 = .ok (k, s, b) ∧ G.fresh call.1 s = true ∧
        ¬ ∃ a, G.Kept (Machine.run G.step (fun _ => none) calls).2 k a ∧
          G.keeps call.1 a = true := by
  simp only [step_eq_ok_iff, retain_eq_none_iff, seen_eq_some_iff_kept, not_exists, not_and,
    Bool.not_eq_true]

end Replay.Guard
