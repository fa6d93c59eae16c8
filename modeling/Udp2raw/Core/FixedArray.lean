import Mathlib.Data.Nat.Basic

/-!
# Arrays of fixed length

Reading and writing the entries of an array whose indices are known to be in bounds,
and loops that write one entry in each round. A loop that never writes an entry twice
leaves in each the value of the round that wrote it.
-/

namespace FixedArray

variable {α : Type} [Inhabited α] {n : Nat}

/-- `v[i]`. -/
def read (v : Vector α n) (i : Nat) : α := v[i]?.getD default

/-- `v[i] = a`. -/
def write (v : Vector α n) (i : Nat) (a : α) : Vector α n := v.setIfInBounds i a

/-- A write is seen at its index only. -/
theorem read_write (v : Vector α n) {i : Nat} (hi : i < n) (a : α) (j : Nat) :
    read (write v i a) j = if i = j then a else read v j := by
  unfold read write
  rw [Vector.getElem?_setIfInBounds]
  by_cases hij : i = j
  · rw [if_pos hij, if_pos hij, if_pos hi]
    rfl
  · rw [if_neg hij, if_neg hij]

/-- The loop that writes `g i` at `f i` in round `i`. -/
def scatter (f : Nat → Nat) (g : Nat → α) (v : Vector α n) (rounds : Nat) : Vector α n :=
  (List.range rounds).foldl (fun v i => write v (f i) (g i)) v

omit [Inhabited α] in
theorem scatter_succ (f : Nat → Nat) (g : Nat → α) (v : Vector α n) (k : Nat) :
    scatter f g v (k + 1) = write (scatter f g v k) (f k) (g k) := by
  simp only [scatter, List.range_succ, List.foldl_append, List.foldl_cons, List.foldl_nil]

/-- No round writes over what another one wrote. -/
theorem read_scatter {f : Nat → Nat} {g : Nat → α} {v : Vector α n} {rounds i : Nat}
    (hbound : ∀ j < rounds, f j < n) (hinj : ∀ j < rounds, ∀ k < rounds, f j = f k → j = k)
    (hi : i < rounds) : read (scatter f g v rounds) (f i) = g i := by
  induction rounds with
  | zero => omega
  | succ k ih =>
    rw [scatter_succ, read_write _ (hbound k (by omega))]
    by_cases hki : k = i
    · rw [hki, if_pos rfl]
    · rw [if_neg fun heq => hki (hinj k (by omega) i hi heq)]
      exact ih (fun j hj => hbound j (by omega)) (fun j hj l hl => hinj j (by omega) l (by omega))
        (by omega)

/-- The loop that writes entry `i` in round `i`. -/
theorem read_scatter_id {g : Nat → α} {v : Vector α n} {rounds i : Nat} (hrounds : rounds ≤ n)
    (hi : i < rounds) : read (scatter id g v rounds) i = g i :=
  read_scatter (fun _ hj => Nat.lt_of_lt_of_le hj hrounds) (fun _ _ _ _ h => h) hi

/-- The first entries hold the values of a function. -/
def Filled (f : Nat → α) (v : Vector α n) (k : Nat) : Prop := ∀ i < k, read v i = f i

/-- A correct write extends the filled part. -/
theorem Filled.write {f : Nat → α} {v : Vector α n} {k : Nat} (h : Filled f v k) (hk : k < n)
    {a : α} (ha : a = f k) : Filled f (write v k a) (k + 1) := by
  intro i hi
  rw [read_write v hk]
  by_cases hki : k = i
  · rw [if_pos hki, ha, hki]
  · rw [if_neg hki]
    exact h i (by omega)

/-- The loop that applies a function to the entries from `start` on in place. -/
def mapFrom (g : α → α) (start : Nat) (v : Vector α n) (rounds : Nat) : Vector α n :=
  (List.range rounds).foldl (fun v j => write v (start + j) (g (read v (start + j)))) v

/-- Mapping a range changes the range only. -/
theorem read_mapFrom (g : α → α) {start rounds : Nat} (v : Vector α n)
    (hbound : start + rounds ≤ n) (i : Nat) :
    read (mapFrom g start v rounds) i =
      if start ≤ i ∧ i < start + rounds then g (read v i) else read v i := by
  induction rounds generalizing i with
  | zero =>
    rw [if_neg (by omega)]
    rfl
  | succ k ih =>
    have hstep : mapFrom g start v (k + 1) = FixedArray.write (mapFrom g start v k) (start + k)
        (g (read (mapFrom g start v k) (start + k))) := by
      simp only [mapFrom, List.range_succ, List.foldl_append, List.foldl_cons, List.foldl_nil]
    rw [hstep, read_write _ (by omega), ih (by omega), ih (by omega)]
    by_cases hi : start + k = i
    · rw [if_pos hi, if_neg (by omega), if_pos (by omega), hi]
    · rw [if_neg hi]
      have hiff : (start ≤ i ∧ i < start + k) ↔ start ≤ i ∧ i < start + (k + 1) := by omega
      simp only [hiff]

end FixedArray
