import Mathlib.Data.List.Basic

/-!
# Runs of a transition function

A system is a partial step function on states and actions. A run is a list of
actions each of which is enabled when it is taken. Properties of every run follow
from what one step preserves.
-/

namespace Transition

universe u v

variable {σ : Type u} {α : Type v} {step : σ → α → Option σ}

/-- Take the actions one after the other. -/
def run (step : σ → α → Option σ) : σ → List α → Option σ
  | s, [] => some s
  | s, a :: as => (step s a).bind fun t => run step t as

@[simp] theorem run_nil (s : σ) : run step s [] = some s := rfl

variable {as : List α} {s t : σ} {I : σ → Prop}

theorem run_cons {a : α} :
    run step s (a :: as) = some t ↔ ∃ m, step s a = some m ∧ run step m as = some t := by
  simp only [run, Option.bind_eq_some_iff]

/-- A run is two runs in a row. -/
theorem run_append {bs : List α} :
    run step s (as ++ bs) = some t ↔ ∃ m, run step s as = some m ∧ run step m bs = some t := by
  induction as generalizing s with
  | nil => simp
  | cons a as ih =>
    simp only [List.cons_append, run_cons, ih]
    constructor
    · rintro ⟨m, hm, k, hk, ht⟩
      exact ⟨k, ⟨m, hm, hk⟩, ht⟩
    · rintro ⟨k, ⟨m, hm, hk⟩, ht⟩
      exact ⟨m, hm, k, hk, ht⟩

/-- What every step by an action with `A` preserves, every run by such actions preserves. -/
theorem run_invariant_of {A : α → Prop} (hstep : ∀ s a t, A a → I s → step s a = some t → I t)
    (hA : ∀ a ∈ as, A a) (hs : I s) (h : run step s as = some t) : I t := by
  induction as generalizing s with
  | nil =>
    cases h
    exact hs
  | cons a as ih =>
    obtain ⟨m, hm, ht⟩ := run_cons.mp h
    exact ih (fun b hb => hA b (List.mem_cons_of_mem _ hb))
      (hstep s a m (hA a List.mem_cons_self) hs hm) ht

/-- What every step preserves, every run preserves. -/
theorem run_invariant (hstep : ∀ s a t, I s → step s a = some t → I t) (hs : I s)
    (h : run step s as = some t) : I t :=
  run_invariant_of (A := fun _ => True) (fun s a t _ => hstep s a t) (fun _ _ => trivial) hs h

/-- A system that can always take a step that lowers a measure reaches its G. -/
theorem run_until {G : σ → Prop} (measure : σ → Nat)
    (hstep : ∀ s, I s → ¬ G s → ∃ a t, step s a = some t ∧ I t ∧ measure t < measure s) (s : σ)
    (hs : I s) : ∃ as t, run step s as = some t ∧ I t ∧ G t := by
  induction hn : measure s using Nat.strongRecOn generalizing s with
  | ind n ih =>
    by_cases hg : G s
    · exact ⟨[], s, rfl, hs, hg⟩
    · obtain ⟨a, m, ha, hi, hl⟩ := hstep s hs hg
      obtain ⟨as, t, ht, hit, hgt⟩ := ih _ (hn ▸ hl) m hi rfl
      exact ⟨a :: as, t, run_cons.mpr ⟨m, ha, ht⟩, hit, hgt⟩

end Transition
