import HpkeDemo.Replay.Once

/-! A guard that loses its cache now and then. Each session starts from an empty cache, and a
restart after which the first reading lets go of every earlier one is not noticed. -/
namespace Replay.Guard
open History
variable {T M K S E B : Type} [DecidableEq K] {G : Guard T M K S E B}

/-- The log of the sessions between restarts. -/
def restarted (G : Guard T M K S E B) (sessions : List (List (T × M))) :
    List ((T × M) × Except E B) :=
  sessions.flatMap fun calls => (Machine.run G.step (fun _ => none) calls).2

/-- The first reading after each restart lets go of every reading before it. -/
def Waits (G : Guard T M K S E B) (sessions : List (List (T × M))) : Prop :=
  Each (fun before calls => ∀ first ∈ calls.head?, ∀ earlier ∈ before.flatten,
    G.keeps first.1 earlier.1 = false) sessions

/-- A call that lets go of all that is remembered might as well find nothing. -/
theorem step_of_forgotten {call : T × M} {seen : Cache K T}
    (h : ∀ k a, seen k = some a → G.keeps call.1 a = false) :
    G.step call seen = G.step call fun _ => none := by
  have hretain : G.retain call.1 seen = G.retain call.1 fun _ => none := by
    funext k
    rw [retain_eq_none_iff.mpr (h k)]
    rfl
  unfold step
  rw [hretain]

theorem run_of_forgotten {seen : Cache K T} {calls : List (T × M)}
    (h : ∀ first ∈ calls.head?, ∀ k a, seen k = some a → G.keeps first.1 a = false) :
    (Machine.run G.step seen calls).2 = (Machine.run G.step (fun _ => none) calls).2 := by
  cases calls with
  | nil => rfl
  | cons call calls =>
    rw [Machine.run_cons, Machine.run_cons, step_of_forgotten (h call rfl)]

theorem restarted_of_waits {sessions : List (List (T × M))} (waits : G.Waits sessions) :
    G.restarted sessions = (Machine.run G.step (fun _ => none) sessions.flatten).2 := by
  induction sessions using List.reverseRecOn with
  | nil => rfl
  | append_singleton sessions calls ih =>
    obtain ⟨earlier, hlast⟩ := each_concat.mp waits
    have hlog : G.restarted (sessions ++ [calls]) =
        G.restarted sessions ++ (Machine.run G.step (fun _ => none) calls).2 := by
      simp [restarted]
    have forgotten : ∀ first ∈ calls.head?, ∀ k a,
        (Machine.run G.step (fun _ => none) sessions.flatten).1 k = some a →
          G.keeps first.1 a = false := by
      intro first hfirst k a hseen
      obtain ⟨call, hcall, rfl, _⟩ := offered_of_seen hseen
      exact hlast first hfirst call hcall
    rw [hlog, ih earlier, List.flatten_append, List.flatten_singleton, Machine.run_append,
      run_of_forgotten forgotten]

end Replay.Guard
