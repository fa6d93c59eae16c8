import Mathlib.Algebra.Order.Ring.Nat
import Mathlib.Data.Vector.Basic

/-!
# Filling a buffer block by block

A loop that writes one block of `w` elements after another until a buffer of `n`
elements is full, the last block truncated. Each block comes from a state by a
step that may abort. The loop takes as many steps as blocks are started, and
what it writes is the start of the blocks in a row.
-/

namespace BlockFill

variable {σ ε α : Type} {w : Nat}

/-- The loop: `out` is what has been written so far. -/
def fill [NeZero w] (step : σ → Except ε (List.Vector α w × σ)) (n : Nat) (s : σ) (out : List α) :
    Except ε (List α) :=
  if out.length < n then do
    let r ← step s
    fill step n r.2 (out ++ r.1.toList.take (min (n - out.length) w))
  else .ok out
termination_by n - out.length
decreasing_by
  have hw := Nat.pos_of_neZero w
  rw [List.length_append, List.length_take, List.Vector.toList_length]
  omega

/-- What the turns of the loop start from, `written` elements being there. The loop ends when the
buffer is full or a step aborts. -/
def turns [NeZero w] (step : σ → Except ε (List.Vector α w × σ)) (n : Nat) (s : σ)
    (written : Nat) : List σ :=
  if written < n then
    s :: match step s with
      | .ok r => turns step n r.2 (written + min (n - written) w)
      | .error _ => []
  else []
termination_by n - written
decreasing_by
  have hw := Nat.pos_of_neZero w
  omega

/-- A number of whole blocks in a row. -/
def run (step : σ → Except ε (List.Vector α w × σ)) : Nat → σ → Except ε (List α)
  | 0, _ => .ok []
  | k + 1, s => do
    let r ← step s
    return r.1.toList ++ (← run step k r.2)

variable [NeZero w] {step : σ → Except ε (List.Vector α w × σ)}

/-- The loop runs for every block it starts and cuts the last one off at the end of the buffer. -/
theorem fill_eq_run {n k : Nat} {s : σ} {out : List α} (henough : n - out.length ≤ w * k)
    (hstarted : w * k < n - out.length + w) :
    fill step n s out = (out ++ ·.take (n - out.length)) <$> run step k s := by
  induction k generalizing s out with
  | zero =>
    have hfull : ¬ out.length < n := by omega
    rw [fill, if_neg hfull, run]
    change _ = Except.ok (out ++ [].take _)
    rw [List.take_nil, List.append_nil]
  | succ k ih =>
    have hw := Nat.pos_of_neZero w
    rw [Nat.mul_succ] at henough hstarted
    have hroom : out.length < n := by omega
    rw [fill, if_pos hroom, run]
    cases step s with
    | error e => rfl
    | ok r =>
      obtain ⟨block, next⟩ := r
      have hblock := block.toList_length
      have hlen : (out ++ block.toList.take (min (n - out.length) w)).length =
          out.length + min (n - out.length) w := by
        rw [List.length_append, List.length_take, hblock]
        omega
      change fill step n next (out ++ block.toList.take (min (n - out.length) w)) =
        (out ++ ·.take (n - out.length)) <$> (run step k next >>= fun rest =>
          Except.ok (block.toList ++ rest))
      -- what is left to write after this block
      have hleft : n - (out.length + min (n - out.length) w) = n - out.length - w := by omega
      have hcut : block.toList.take (min (n - out.length) w) =
          block.toList.take (n - out.length) := by
        rw [List.take_eq_take_iff, hblock]
        omega
      rw [ih (by rw [hlen, hleft]; omega) (by rw [hlen, hleft]; omega), hlen, hleft, hcut]
      cases run step k next with
      | error e => rfl
      | ok rest =>
        change Except.ok _ = Except.ok (out ++ (block.toList ++ rest).take (n - out.length))
        rw [List.take_append, hblock, ← List.append_assoc]

/-- Filling a whole buffer. -/
theorem fill_nil {n k : Nat} {s : σ} (henough : n ≤ w * k) (hstarted : w * k < n + w) :
    fill step n s [] = (·.take n) <$> run step k s :=
  @fill_eq_run σ ε α w _ step n k s [] henough hstarted

/-- The turns are known from the states that the steps lead through. The step of the last turn may
abort. -/
theorem turns_eq_map {n k i written : Nat} {f : Nat → σ} (henough : n - written ≤ w * k)
    (hstarted : w * k < n - written + w)
    (hstep : ∀ j, i ≤ j → j + 1 < i + k → ∃ block, step (f j) = .ok (block, f (j + 1))) :
    turns step n (f i) written = (List.range' i k).map f := by
  induction k generalizing i written with
  | zero =>
    have hfull : ¬ written < n := by omega
    rw [turns, if_neg hfull, List.range'_zero, List.map_nil]
  | succ k ih =>
    have hw := Nat.pos_of_neZero w
    rw [Nat.mul_succ] at henough hstarted
    have hroom : written < n := by omega
    have hleft : n - (written + min (n - written) w) = n - written - w := by omega
    rw [turns, if_pos hroom, List.range'_succ, List.map_cons]
    congr 1
    rcases Nat.eq_zero_or_pos k with rfl | hk
    · -- the buffer is full whatever the last step gives
      have hfull : ¬ written + min (n - written) w < n := by omega
      cases step (f i) with
      | error e => rfl
      | ok r =>
        dsimp only
        rw [turns, if_neg hfull]
        rfl
    · obtain ⟨block, hblock⟩ := hstep i (Nat.le_refl i) (by omega)
      rw [hblock]
      exact ih (by omega) (by omega) fun j hj hlt => hstep j (by omega) (by omega)

end BlockFill
