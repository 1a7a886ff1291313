import CatalogChain.Service.Crew
import Mathlib.Tactic.SplitIfs

/-!
# Steps of a crew

One step of a crew does one of three things (`Crew.step_cases`): a ready job goes on, the work is
cancelled because that is due, or time passes until the next job wakes.  What such a step keeps
holds behind any number of them (`Crew.run_induction`).
-/

namespace CatalogChain.Crew

variable {σ : Supply} {c c' : Crew}

theorem step_cases (hs : c.step σ = some c') :
    (∃ job ready, c.ready = job :: ready ∧ c' = c.work σ job ready) ∨
      (c.isDue = true ∧ c' = c.cancel) ∨
      ∃ first rest, c.ready = [] ∧ c.sleeping = first :: rest ∧ c.isDue = false ∧
        c' = c.wake first := by
  unfold step at hs
  split at hs
  · next job ready hready =>
    cases hs
    split_ifs with hdue
    · exact .inr (.inl ⟨(Bool.and_eq_true_iff.mp hdue).2, rfl⟩)
    · exact .inl ⟨job, ready, hready, rfl⟩
  · next first rest hready hsleeping =>
    cases hs
    split_ifs with hdue
    · exact .inr (.inl ⟨hdue, rfl⟩)
    · exact .inr (.inr ⟨first, rest, hready, hsleeping, Bool.eq_false_iff.mpr hdue, rfl⟩)
  · cases hs

/-- **What every step of a crew keeps** holds behind a run. -/
theorem run_induction {Q : Crew → Prop} (hstep : ∀ c c', Q c → c.step σ = some c' → Q c')
    (h : Q c) (n : Nat) : Q (c.run σ n) := by
  induction n generalizing c with
  | zero => exact h
  | succ n ih =>
    unfold run
    split
    · exact h
    · next c' hs => exact ih (hstep c c' h hs)

theorem perm_insertSleeper (job : Job) (js : List Job) :
    (insertSleeper job js).Perm (job :: js) := by
  induction js with
  | nil => exact .refl _
  | cons j js ih =>
    unfold insertSleeper
    split_ifs
    · exact .refl _
    · exact (ih.cons j).trans (.swap job j js)

theorem mem_insertSleeper {job j : Job} {js : List Job} (h : j ∈ insertSleeper job js) :
    j = job ∨ j ∈ js := List.mem_cons.mp ((perm_insertSleeper job js).subset h)

end CatalogChain.Crew
