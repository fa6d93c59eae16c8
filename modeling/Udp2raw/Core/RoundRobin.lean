import Mathlib.Data.List.Basic
import Mathlib.Data.Nat.ModEq

/-!
# Round-robin distribution

`share n c i xs` is what receiver `i` of `n` gets when the elements of `xs` are
handed out in turn, starting with receiver `c % n`. Handing out one more element
extends one share, and taking the first element back shortens one.
-/

namespace RoundRobin

universe u

variable {α : Type u}

/-- The elements dealt to receiver `i`, in order. -/
def share (n : Nat) : Nat → Nat → List α → List α
  | _, _, [] => []
  | c, i, x :: xs => if c % n = i then x :: share n (c + 1) i xs else share n (c + 1) i xs

/-- Only the starting receiver matters, not how often the cursor has gone round. -/
theorem share_congr {n c d : Nat} (h : c % n = d % n) (i : Nat) (xs : List α) :
    share n c i xs = share n d i xs := by
  induction xs generalizing c d with
  | nil => rfl
  | cons x xs ih =>
    have hs : (c + 1) % n = (d + 1) % n := Nat.ModEq.add_right 1 h
    simp only [share, h, ih hs]

/-- One more element goes to the receiver after the last one served. -/
theorem share_snoc (n c i : Nat) (xs : List α) (x : α) :
    share n c i (xs ++ [x]) =
      if (c + xs.length) % n = i then share n c i xs ++ [x] else share n c i xs := by
  induction xs generalizing c with
  | nil => rfl
  | cons y ys ih =>
    have hc : c + 1 + ys.length = c + (y :: ys).length := by rw [List.length_cons]; omega
    rw [List.cons_append, share, ih, hc]
    simp only [share]
    split <;> split <;> rfl

end RoundRobin
