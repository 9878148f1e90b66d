import Mathlib.Data.List.Basic

/-! Runs of a machine that takes inputs one at a time and answers each: the state
after a list of inputs, and the log of inputs with their answers, oldest first. -/
namespace Machine

section
variable {σ I O : Type} (step : I → σ → σ × O)

/-- The state after `inputs`, and the log. -/
def run : σ → List I → σ × List (I × O)
  | s, [] => (s, [])
  | s, i :: is => ((run (step i s).1 is).1, (i, (step i s).2) :: (run (step i s).1 is).2)

@[simp] theorem run_nil (s : σ) : run step s [] = (s, []) := rfl

theorem run_cons (s : σ) (i : I) (is : List I) :
    run step s (i :: is) =
      ((run step (step i s).1 is).1, (i, (step i s).2) :: (run step (step i s).1 is).2) := rfl

theorem run_append (s : σ) (is js : List I) :
    run step s (is ++ js) = ((run step (run step s is).1 js).1,
      (run step s is).2 ++ (run step (run step s is).1 js).2) := by
  induction is generalizing s with
  | nil => rfl
  | cons i is ih => simp only [List.cons_append, run_cons, ih]

theorem run_concat (s : σ) (is : List I) (i : I) :
    run step s (is ++ [i]) = ((step i (run step s is).1).1,
      (run step s is).2 ++ [(i, (step i (run step s is).1).2)]) := by
  rw [run_append, run_cons, run_nil]

@[simp] theorem run_inputs (s : σ) (is : List I) : (run step s is).2.map Prod.fst = is := by
  induction is generalizing s with
  | nil => rfl
  | cons i is ih => rw [run_cons, List.map_cons, ih]

@[simp] theorem length_run (s : σ) (is : List I) : (run step s is).2.length = is.length := by
  rw [← List.length_map Prod.fst, run_inputs]

/-- The entries of a log before any point are the log of the inputs up to there, and
the entry at that point is what the next input is answered with. -/
theorem run_split {s : σ} {is : List I} {before after : List (I × O)} {x : I × O}
    (h : (run step s is).2 = before ++ x :: after) :
    (run step s (before.map Prod.fst)).2 = before ∧
      (step x.1 (run step s (before.map Prod.fst)).1).2 = x.2 := by
  have his := run_inputs step s is
  rw [h, List.map_append, List.map_cons] at his
  rw [← his, run_append, run_cons] at h
  obtain ⟨hbefore, hx⟩ := List.append_inj h (by simp)
  exact ⟨hbefore, congrArg Prod.snd (List.cons.inj hx).1⟩

/-- Each entry of a log is what its input was answered with, in some state. -/
theorem exists_step_of_mem {s : σ} {is : List I} {x : I × O} (h : x ∈ (run step s is).2) :
    ∃ s', (step x.1 s').2 = x.2 := by
  obtain ⟨before, after, hlog⟩ := List.append_of_mem h
  exact ⟨_, (run_split step hlog).2⟩

/-- Two machines that step alike run alike. -/
theorem run_congr {step step' : I → σ → σ × O} (h : ∀ i s, step i s = step' i s) :
    run step = run step' := by
  rw [show step = step' from funext fun i => funext (h i)]

end

section project
variable {σ I O σ' I' O' : Type} {step : I → σ → σ × O} {step' : I' → σ' → σ' × O'}

/-- A run seen from a part of its state. The inputs that concern the part are the inputs of
a machine of its own, and the others leave the part as it is. -/
theorem run_project (part : σ → σ') (view : I → Option I') (answer : O' → O)
    (own : ∀ i i' s, view i = some i' → part (step i s).1 = (step' i' (part s)).1 ∧
      (step i s).2 = answer (step' i' (part s)).2)
    (other : ∀ i s, view i = none → part (step i s).1 = part s) (s : σ) (is : List I) :
    part (run step s is).1 = (run step' (part s) (is.filterMap view)).1 ∧
      (run step s is).2.filterMap (fun x => (view x.1).map fun i' => (i', x.2)) =
        (run step' (part s) (is.filterMap view)).2.map fun y => (y.1, answer y.2) := by
  induction is generalizing s with
  | nil => exact ⟨rfl, rfl⟩
  | cons i is ih =>
    obtain ⟨hpart, hlog⟩ := ih (step i s).1
    rw [run_cons]
    cases hview : view i with
    | none =>
      rw [List.filterMap_cons_none hview, List.filterMap_cons_none (by simp [hview])]
      rw [other i s hview] at hpart hlog
      exact ⟨hpart, hlog⟩
    | some i' =>
      obtain ⟨hstate, hanswer⟩ := own i i' s hview
      rw [List.filterMap_cons_some hview, run_cons,
        List.filterMap_cons_some (b := (i', (step i s).2)) (by simp [hview])]
      rw [hstate] at hpart hlog
      exact ⟨hpart, by rw [List.map_cons, ← hlog, hanswer]⟩

end project
end Machine
