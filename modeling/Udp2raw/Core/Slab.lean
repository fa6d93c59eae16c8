import Mathlib.Data.List.Count
import Mathlib.Data.List.Nodup
import Mathlib.Data.List.Perm.Basic
import Mathlib.Data.List.Range

/-!
# Slabs

A vector of optional entries with a stack of the empty positions. The structure
carries the agreement of the two, so a slab whose free list is wrong cannot be
built, and each operation is described by what it does to `get?` and to counts.
-/

/-- Entries at stable positions; `free` is the stack of empty ones, top first. -/
structure Slab (α : Type) where
  slots : List (Option α)
  free : List Nat
  nodup : free.Nodup
  mem_free : ∀ i, i ∈ free ↔ slots[i]? = some none

namespace Slab

variable {α : Type}

/-- No position yet. -/
def empty : Slab α := ⟨[], [], List.nodup_nil, by simp⟩

/-- The entry at a position, if the position exists and is occupied. -/
def get? (s : Slab α) (i : Nat) : Option α := (s.slots[i]?).join

variable {a b : α} {s : Slab α} {i : Nat}

theorem get?_eq_some : s.get? i = some a ↔ s.slots[i]? = some (some a) := by
  simp [get?, Option.join_eq_some_iff]

@[simp] theorem get?_empty (i : Nat) : (empty : Slab α).get? i = none := by
  simp [get?, empty]

theorem lt_of_get? (h : s.get? i = some a) : i < s.slots.length := by
  obtain ⟨hlt, -⟩ := List.getElem?_eq_some_iff.mp (get?_eq_some.mp h)
  exact hlt

/-- A free position exists and holds nothing. -/
theorem get?_of_mem_free (h : i ∈ s.free) : s.get? i = none := by
  simp [get?, (s.mem_free i).mp h]

theorem lt_of_mem_free (h : i ∈ s.free) : i < s.slots.length := by
  obtain ⟨hlt, -⟩ := List.getElem?_eq_some_iff.mp ((s.mem_free i).mp h)
  exact hlt

/-- Occupy the position on top of the free stack. -/
def reuse (s : Slab α) (i : Nat) (rest : List Nat) (h : s.free = i :: rest) (a : α) : Slab α where
  slots := s.slots.set i (some a)
  free := rest
  nodup := (List.nodup_cons.mp (h ▸ s.nodup)).2
  mem_free := by
    intro j
    have hn := List.nodup_cons.mp (h ▸ s.nodup)
    have hm := s.mem_free j
    rw [h, List.mem_cons] at hm
    have hi : i < s.slots.length := s.lt_of_mem_free (h ▸ List.mem_cons_self)
    by_cases hj : j = i
    · subst hj
      simp [hn.1, hi]
    · rw [List.getElem?_set_ne (Ne.symm hj), ← hm]
      simp [hj]

/-- Occupy a new position at the end. -/
def push (s : Slab α) (h : s.free = []) (a : α) : Slab α where
  slots := s.slots ++ [some a]
  free := []
  nodup := List.nodup_nil
  mem_free := by
    intro j
    have hm := s.mem_free j
    rw [h] at hm
    simp only [List.not_mem_nil, false_iff] at hm ⊢
    rcases Nat.lt_trichotomy j s.slots.length with hj | rfl | hj
    · rwa [List.getElem?_append_left hj]
    · simp
    · rw [List.getElem?_eq_none (by simp; omega)]
      simp

/-- Take the top free position, or a new one, and put an entry there. -/
def alloc (s : Slab α) (a : α) : Slab α × Nat :=
  match h : s.free with
  | i :: rest => (s.reuse i rest h a, i)
  | [] => (s.push h a, s.slots.length)

/-- Replace the entry of an occupied position. -/
def set (s : Slab α) (i : Nat) (a : α) : Slab α :=
  if h : (s.get? i).isSome then
    { slots := s.slots.set i (some a)
      free := s.free
      nodup := s.nodup
      mem_free := by
        intro j
        obtain ⟨b, hb⟩ := Option.isSome_iff_exists.mp h
        have hi := lt_of_get? hb
        by_cases hj : j = i
        · subst hj
          rw [s.mem_free, get?_eq_some.mp hb]
          simp [hi]
        · rw [s.mem_free, List.getElem?_set_ne (Ne.symm hj)] }
  else s

/-- Empty an occupied position and put it on the free stack. -/
def release (s : Slab α) (i : Nat) : Slab α :=
  if h : (s.get? i).isSome then
    { slots := s.slots.set i none
      free := i :: s.free
      nodup := by
        refine List.nodup_cons.mpr ⟨fun hmem => ?_, s.nodup⟩
        rw [get?_of_mem_free hmem] at h
        cases h
      mem_free := by
        intro j
        obtain ⟨b, hb⟩ := Option.isSome_iff_exists.mp h
        have hi := lt_of_get? hb
        by_cases hj : j = i
        · subst hj
          simp [hi]
        · rw [List.mem_cons, s.mem_free, List.getElem?_set_ne (Ne.symm hj)]
          simp [hj] }
  else s

/-- What an allocation did: the position was empty, and only it changed. -/
theorem alloc_cases (s : Slab α) (a : α) :
    (∃ rest, s.free = (s.alloc a).2 :: rest ∧
      (s.alloc a).1.slots = s.slots.set (s.alloc a).2 (some a)) ∨
    (s.free = [] ∧ (s.alloc a).2 = s.slots.length ∧
      (s.alloc a).1.slots = s.slots ++ [some a]) := by
  unfold alloc
  split
  · next i rest h => exact .inl ⟨rest, h, rfl⟩
  · next h => exact .inr ⟨h, rfl, rfl⟩

theorem get?_alloc_index (s : Slab α) (a : α) : s.get? (s.alloc a).2 = none := by
  rcases s.alloc_cases a with ⟨rest, hfree, -⟩ | ⟨-, hi, -⟩
  · exact get?_of_mem_free (hfree ▸ List.mem_cons_self)
  · simp [get?, hi]

/-- Allocation fills its index and no other. -/
@[simp] theorem get?_alloc (s : Slab α) (a : α) (j : Nat) :
    (s.alloc a).1.get? j = if j = (s.alloc a).2 then some a else s.get? j := by
  rcases s.alloc_cases a with ⟨rest, hfree, hs⟩ | ⟨-, hi, hs⟩
  · have hlt := s.lt_of_mem_free (hfree ▸ List.mem_cons_self)
    by_cases hj : j = (s.alloc a).2
    · rw [if_pos hj, get?, hs, hj]
      simp [hlt]
    · rw [if_neg hj, get?, hs, List.getElem?_set_ne (Ne.symm hj), get?]
  · rw [get?, hs, hi]
    by_cases hj : j = s.slots.length
    · simp [hj]
    · rw [if_neg hj, List.getElem?_append, get?]
      split
      · rfl
      · next hge =>
          rw [List.getElem?_eq_none (by simp; omega), List.getElem?_eq_none (by omega)]

theorem set_slots (h : s.get? i = some b) (a : α) : (s.set i a).slots = s.slots.set i (some a) := by
  unfold set
  rw [dif_pos (by simp [h])]

@[simp] theorem set_free (s : Slab α) (i : Nat) (a : α) : (s.set i a).free = s.free := by
  unfold set
  split <;> rfl

@[simp] theorem length_set (s : Slab α) (i : Nat) (a : α) :
    (s.set i a).slots.length = s.slots.length := by
  unfold set
  split
  · exact List.length_set
  · rfl

/-- Setting a used slot changes no other. -/
theorem get?_set (h : s.get? i = some b) (a : α) (j : Nat) :
    (s.set i a).get? j = if j = i then some a else s.get? j := by
  have hlt := lt_of_get? h
  rw [get?, set_slots h]
  by_cases hj : j = i
  · simp [hj, hlt]
  · rw [if_neg hj, List.getElem?_set_ne (Ne.symm hj), get?]

theorem get?_set_self (h : s.get? i = some b) (a : α) : (s.set i a).get? i = some a := by
  rw [get?_set h, if_pos rfl]

theorem release_slots (h : s.get? i = some b) : (s.release i).slots = s.slots.set i none := by
  unfold release
  rw [dif_pos (by simp [h])]

/-- Releasing an empty position does nothing. -/
theorem release_of_none (h : s.get? i = none) : s.release i = s := by
  unfold release
  rw [dif_neg (by simp [h])]

/-- Releasing empties its index and no other. -/
@[simp] theorem get?_release (s : Slab α) (i j : Nat) :
    (s.release i).get? j = if j = i then none else s.get? j := by
  cases h : s.get? i with
  | none =>
    rw [release_of_none h]
    split
    · next hj => rw [hj, h]
    · rfl
  | some b =>
    rw [get?, release_slots h]
    by_cases hj : j = i
    · simp [hj, lt_of_get? h]
    · rw [if_neg hj, List.getElem?_set_ne (Ne.symm hj), get?]

@[simp] theorem length_release (s : Slab α) (i : Nat) :
    (s.release i).slots.length = s.slots.length := by
  unfold release
  split
  · exact List.length_set
  · rfl

theorem length_le_alloc (s : Slab α) (a : α) : s.slots.length ≤ (s.alloc a).1.slots.length := by
  rcases s.alloc_cases a with ⟨rest, -, hs⟩ | ⟨-, -, hs⟩ <;> simp [hs]

/-- Empty several positions in turn. -/
def releaseAll (s : Slab α) (is : List Nat) : Slab α := is.foldl release s

/-- Releasing several empties these and no other. -/
@[simp] theorem get?_releaseAll (s : Slab α) (is : List Nat) (j : Nat) :
    (s.releaseAll is).get? j = if j ∈ is then none else s.get? j := by
  induction is generalizing s with
  | nil => simp [releaseAll]
  | cons i rest ih =>
    have hr := ih (s.release i)
    rw [get?_release] at hr
    refine hr.trans ?_
    by_cases hj : j = i <;> simp [hj]

/-- The number of entries with a property. -/
def count (s : Slab α) (p : α → Bool) : Nat := s.slots.countP (Option.any p)

/-- What one write does to a count. -/
theorem countP_set_add (p : α → Bool) (xs : List (Option α)) (i : Nat) (o : Option α)
    (h : i < xs.length) :
    (xs.set i o).countP (Option.any p) + (if xs[i].any p then 1 else 0) =
      xs.countP (Option.any p) + if o.any p then 1 else 0 := by
  induction xs generalizing i with
  | nil => simp at h
  | cons x rest ih =>
    cases i with
    | zero =>
      simp only [List.set_cons_zero, List.countP_cons, List.getElem_cons_zero]
      omega
    | succ i =>
      have hi := ih i (by simpa using h)
      simp only [List.set_cons_succ, List.countP_cons, List.getElem_cons_succ]
      omega

theorem getElem_of_get? (h : s.get? i = some b) (hi : i < s.slots.length) :
    s.slots[i] = some b := by
  have he := get?_eq_some.mp h
  rw [List.getElem?_eq_getElem hi] at he
  exact Option.some.inj he

/-- What setting a used slot does to a count. -/
theorem count_set (h : s.get? i = some b) (a : α) (p : α → Bool) :
    (s.set i a).count p + (if p b then 1 else 0) = s.count p + if p a then 1 else 0 := by
  have hi := lt_of_get? h
  have hc := countP_set_add p s.slots i (some a) hi
  rw [getElem_of_get? h hi] at hc
  rw [count, set_slots h]
  exact hc

/-- What releasing a used slot does to a count. -/
theorem count_release (h : s.get? i = some b) (p : α → Bool) :
    (s.release i).count p + (if p b then 1 else 0) = s.count p := by
  have hi := lt_of_get? h
  have hc := countP_set_add p s.slots i none hi
  rw [getElem_of_get? h hi] at hc
  rw [count, release_slots h]
  simpa [count] using hc

/-- What allocation does to a count. -/
theorem count_alloc (s : Slab α) (a : α) (p : α → Bool) :
    (s.alloc a).1.count p = s.count p + if p a then 1 else 0 := by
  rcases s.alloc_cases a with ⟨rest, hfree, hs⟩ | ⟨-, -, hs⟩
  · have hm : (s.alloc a).2 ∈ s.free := hfree ▸ List.mem_cons_self
    have hlt := s.lt_of_mem_free hm
    have hc := countP_set_add p s.slots _ (some a) hlt
    have he : s.slots[(s.alloc a).2] = none := by
      have hn := (s.mem_free _).mp hm
      rw [List.getElem?_eq_getElem hlt] at hn
      exact Option.some.inj hn
    rw [he] at hc
    rw [count, hs]
    simpa [count] using hc
  · rw [count, hs, List.countP_append]
    simp [count]

/-- The number of occupied positions, as the code computes it. -/
def live (s : Slab α) : Nat := s.slots.length - s.free.length

/-- The entries in the order of their positions. -/
theorem slots_eq_map (s : Slab α) : s.slots = (List.range s.slots.length).map s.get? := by
  refine List.ext_getElem (by simp) fun i hi hi' => ?_
  simp [get?, List.getElem?_eq_getElem hi]

/-- The free stack has one position for each empty entry. -/
theorem length_free (s : Slab α) : s.free.length = s.slots.countP Option.isNone := by
  have hperm : s.free.Perm ((List.range s.slots.length).filter (Option.isNone ∘ s.get?)) := by
    refine (List.perm_ext_iff_of_nodup s.nodup (List.nodup_range.filter _)).mpr fun i => ?_
    rw [s.mem_free, List.mem_filter, List.mem_range]
    constructor
    · intro h
      exact ⟨(List.getElem?_eq_some_iff.mp h).1, by simp [get?, h]⟩
    · rintro ⟨hi, hn⟩
      simpa [get?, List.getElem?_eq_getElem hi] using hn
  rw [hperm.length_eq, ← List.countP_eq_length_filter, ← List.countP_map, ← slots_eq_map]

/-- The computed number of occupied positions is the real one. -/
theorem live_eq_count (s : Slab α) : s.live = s.count fun _ => true := by
  have hlen := List.length_eq_countP_add_countP (l := s.slots) Option.isNone
  have hsome : s.slots.countP (fun o => decide ¬ o.isNone = true) =
      s.slots.countP (Option.any fun _ => true) := by
    refine List.countP_congr fun o _ => ?_
    cases o <;> simp
  rw [live, length_free, count, ← hsome]
  omega

/-- An occupied position counts. -/
theorem live_pos (h : s.get? i = some a) : 0 < s.live := by
  rw [live_eq_count, count, List.countP_pos_iff]
  exact ⟨some a, List.mem_of_getElem? (get?_eq_some.mp h), rfl⟩

theorem live_alloc (s : Slab α) (a : α) : (s.alloc a).1.live = s.live + 1 := by
  rw [live_eq_count, live_eq_count, count_alloc, if_pos rfl]

theorem live_set (s : Slab α) (i : Nat) (a : α) : (s.set i a).live = s.live := by
  rw [live, live, length_set, set_free]

theorem live_release_le (s : Slab α) (i : Nat) : (s.release i).live ≤ s.live := by
  cases h : s.get? i with
  | none => rw [release_of_none h]
  | some b =>
    have hc := count_release h fun _ => true
    rw [live_eq_count, live_eq_count]
    omega

end Slab
