import Mathlib.Data.List.Nodup
import Mathlib.Order.Basic

/-!
# A cursor that goes round

A cursor visits the positions of a vector in turn and starts over behind the
last one. The vector may grow between two visits. `ahead` bounds the visits
before a given position; each visit elsewhere lowers it.
-/

namespace Cursor

/-- The position a cursor points to in a vector of length `n`. -/
def position (n cursor : Nat) : Nat := if cursor ≥ n then 0 else cursor

theorem position_lt {n : Nat} (h : 0 < n) (cursor : Nat) : position n cursor < n := by
  unfold position
  split <;> omega

/-- How many positions come before `p`, in a vector of length at most `bound`. -/
def ahead (bound cursor p : Nat) : Nat :=
  if cursor ≤ p then p - cursor else bound - cursor + p

theorem ahead_lt {bound p : Nat} (h : p < bound) (cursor : Nat) : ahead bound cursor p < bound := by
  unfold ahead
  split <;> omega

/-- The cursor comes closer to every position it does not visit. -/
theorem ahead_visit {n bound cursor p : Nat} (hp : p < n) (hn : n ≤ bound)
    (hne : position n cursor ≠ p) :
    ahead bound (position n cursor + 1) p + 1 ≤ ahead bound cursor p := by
  unfold ahead position at *
  split_ifs at * <;> omega

section

variable {α : Type*} [DecidableEq α] {l : List α}

/-- The cursor behind an element of a list, or at the start if it is none. -/
def behind (l : List α) (a : α) : Nat := ((l.findIdx? (· = a)).map (· + 1)).getD 0

/-- An element of a list without repetitions is found at its index. -/
theorem behind_getElem (hnodup : l.Nodup) {i : Nat} (hi : i < l.length) :
    behind l l[i] = i + 1 := by
  have hfind : l.findIdx? (· = l[i]) = some i := by
    refine List.findIdx?_eq_some_iff_getElem.mpr ⟨hi, decide_eq_true rfl, fun j hj heq => ?_⟩
    have hsame := hnodup.getElem_inj_iff.mp (of_decide_eq_true heq)
    omega
  rw [behind, hfind]
  rfl

/-- The position behind an element is the next one, and the first behind the last. -/
theorem position_behind (hne : l ≠ []) (a : α) :
    position l.length (behind l a)
      = ((l.findIdx? (· = a)).map fun i => (i + 1) % l.length).getD 0 := by
  have hpos := List.length_pos_iff.mpr hne
  unfold behind position
  cases hfind : l.findIdx? (· = a) with
  | none =>
    dsimp only [Option.map_none, Option.getD_none]
    split <;> rfl
  | some i =>
    obtain ⟨hi, -, -⟩ := List.findIdx?_eq_some_iff_getElem.mp hfind
    dsimp only [Option.map_some, Option.getD_some]
    split
    · rw [show i + 1 = l.length by omega, Nat.mod_self]
    · exact (Nat.mod_eq_of_lt (by omega)).symm

end

/-- The positions visited in turn, and where the cursor ends. -/
inductive Tour (n : Nat) : Nat → List Nat → Nat → Prop where
  | nil (cursor : Nat) : Tour n cursor [] cursor
  | cons {cursor last : Nat} {ps : List Nat} : Tour n (position n cursor + 1) ps last →
      Tour n cursor (position n cursor :: ps) last

/-- Every step of a tour that misses a position comes closer to it. -/
theorem Tour.ahead_le {n bound cursor last p : Nat} {ps : List Nat} (h : Tour n cursor ps last)
    (hp : p < n) (hn : n ≤ bound) (hmem : p ∉ ps) :
    ahead bound last p + ps.length ≤ ahead bound cursor p := by
  induction h with
  | nil => exact Nat.le_refl _
  | cons _ ih =>
    have hvisit := ahead_visit hp hn fun heq => hmem (heq ▸ List.mem_cons_self)
    have hrest := ih fun htail => hmem (List.mem_cons_of_mem _ htail)
    rw [List.length_cons]
    omega

end Cursor
