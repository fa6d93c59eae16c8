import Mathlib.Data.List.AList

/-!
# Hash tables

A finite map as an association list with distinct keys. Lookup after an update
is a case distinction on the key. The order in which a hash table is iterated is
unspecified: whoever iterates brings the order along.
-/

/-- A finite map from `K` to `V`. -/
abbrev Table (K V : Type) := AList fun _ : K => V

namespace Table

variable {K V : Type} [DecidableEq K]

theorem lookup_insert (m : Table K V) (k : K) (v : V) (j : K) :
    (m.insert k v).lookup j = if j = k then some v else m.lookup j := by
  by_cases h : j = k
  · subst h
    rw [if_pos rfl, AList.lookup_insert]
  · rw [if_neg h, AList.lookup_insert_ne h]

theorem lookup_erase (m : Table K V) (k j : K) :
    (m.erase k).lookup j = if j = k then none else m.lookup j := by
  by_cases h : j = k
  · subst h
    rw [if_pos rfl, AList.lookup_erase]
  · rw [if_neg h, AList.lookup_erase_ne h]

/-- The number of keys. -/
def size (m : Table K V) : Nat := m.entries.length

/-- The values, once for each key. -/
def values (m : Table K V) : List V := m.entries.map Sigma.snd

/-- The values are what lookups find. -/
theorem mem_values {m : Table K V} {v : V} : v ∈ values m ↔ ∃ k, m.lookup k = some v := by
  simp only [values, List.mem_map]
  constructor
  · rintro ⟨⟨k, w⟩, he, rfl⟩
    exact ⟨k, AList.mem_lookup_iff.mpr he⟩
  · rintro ⟨k, hk⟩
    exact ⟨⟨k, v⟩, AList.mem_lookup_iff.mp hk, rfl⟩

end Table

/-- `xs` in the order a caller chooses; a choice that is no reordering is ignored. -/
def reorder {α : Type} [BEq α] (order : List α → List α) (xs : List α) : List α :=
  if (order xs).isPerm xs then order xs else xs

/-- A reordering loses and adds nothing. -/
theorem reorder_perm {α : Type} [BEq α] [LawfulBEq α] (order : List α → List α) (xs : List α) :
    (reorder order xs).Perm xs := by
  unfold reorder
  split
  · next h => exact List.isPerm_iff.mp h
  · exact .refl xs
