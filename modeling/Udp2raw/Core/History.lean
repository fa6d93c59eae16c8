import Mathlib.Data.List.Basic

/-!
# Histories

A history is a list that only grows at its end. `Each P` says that every entry
stood in the relation `P` to what had come before it, at the time it was added.
-/

namespace History

variable {α : Type} {P : List α → α → Prop}

/-- Every entry of a continuation is related to everything before it. -/
def EachFrom (P : List α → α → Prop) (before : List α) : List α → Prop
  | [] => True
  | e :: rest => P before e ∧ EachFrom P (before ++ [e]) rest

/-- Every entry is related to what came before it. -/
abbrev Each (P : List α → α → Prop) (log : List α) : Prop := EachFrom P [] log

theorem eachFrom_append (before a b : List α) :
    EachFrom P before (a ++ b) ↔ EachFrom P before a ∧ EachFrom P (before ++ a) b := by
  induction a generalizing before with
  | nil => simp [EachFrom]
  | cons e rest ih => simp [EachFrom, ih, and_assoc]

/-- A history grows by a continuation. -/
theorem Each.append {a b : List α} (h : Each P a) (hb : EachFrom P a b) : Each P (a ++ b) :=
  (eachFrom_append [] a b).mpr ⟨h, by simpa using hb⟩

/-- An entry is related to what stands before it. -/
theorem Each.at {a b : List α} {e : α} (h : Each P (a ++ e :: b)) : P a e := by
  have := ((eachFrom_append [] a (e :: b)).mp h).2
  rw [List.nil_append] at this
  exact this.1

theorem Each.of_mem {log : List α} {e : α} (h : Each P log) (he : e ∈ log) :
    ∃ a b, log = a ++ e :: b ∧ P a e := by
  obtain ⟨a, b, rfl⟩ := List.append_of_mem he
  exact ⟨a, b, rfl, h.at⟩

/-- Entries that are related to every history. -/
theorem eachFrom_of_forall {out : List α} (h : ∀ e ∈ out, ∀ before, P before e) (before : List α) :
    EachFrom P before out := by
  induction out generalizing before with
  | nil => trivial
  | cons e rest ih =>
    exact ⟨h e List.mem_cons_self before, ih (fun x hx => h x (List.mem_cons_of_mem _ hx)) _⟩

end History
