import Mathlib.Data.Nat.Count

/-!
# Accounts

A log of payments and expenses is settled when no expense comes before the payment
that covers it. The balance makes this checkable step by step; a settled log has an
assignment of payments to expenses in which no payment is used twice and each comes
before what it pays for.
-/

namespace Accounts

/-- An entry of the log. -/
inductive Mark where
  | paid
  | spent
  deriving DecidableEq, Repr

/-- The balance after a log, from a balance before it; an expense needs a positive one. -/
def settle : Nat → List Mark → Option Nat
  | b, [] => some b
  | b, .paid :: log => settle (b + 1) log
  | 0, .spent :: _ => none
  | b + 1, .spent :: log => settle b log

variable {b r : Nat} {log : List Mark}

/-- A log is settled part by part. -/
theorem settle_append (b : Nat) (log log' : List Mark) :
    settle b (log ++ log') = (settle b log).bind fun r => settle r log' := by
  induction log generalizing b with
  | nil => rfl
  | cons m log ih =>
    cases m with
    | paid => exact ih (b + 1)
    | spent =>
      cases b with
      | zero => rfl
      | succ b => exact ih b

/-- What is left is what was there and paid, less what was spent. -/
theorem count_of_settle (h : settle b log = some r) :
    log.count .spent + r = b + log.count .paid := by
  induction log generalizing b with
  | nil =>
    cases h
    simp
  | cons m log ih =>
    cases m with
    | paid =>
      have h' := ih h
      simp only [List.count_cons, beq_iff_eq, reduceCtorEq, if_true, if_false]
      omega
    | spent =>
      cases b with
      | zero => cases h
      | succ b =>
        have h' := ih h
        simp only [List.count_cons, beq_iff_eq, reduceCtorEq, if_true, if_false]
        omega

/-- Payments alone always settle. -/
theorem settle_of_not_spent (b : Nat) (h : .spent ∉ log) :
    settle b log = some (b + log.count .paid) := by
  induction log generalizing b with
  | nil => rfl
  | cons m log ih =>
    cases m with
    | paid =>
      rw [settle, ih (b + 1) fun hm => h (List.mem_cons_of_mem _ hm)]
      simp only [List.count_cons_self, Option.some.injEq]
      omega
    | spent => exact absurd List.mem_cons_self h

/-- At every point of a settled log, what was spent is at most what was paid. -/
theorem count_take_le (h : settle 0 log = some r) (n : Nat) :
    (log.take n).count .spent ≤ (log.take n).count .paid := by
  rw [← List.take_append_drop n log, settle_append] at h
  obtain ⟨b, hb, -⟩ := Option.bind_eq_some_iff.mp h
  have hcount := count_of_settle hb
  omega

/-! ## Who pays for what -/

/-- The marks in a prefix, counted by their indices. -/
theorem count_take (m : Mark) (log : List Mark) (n : Nat) :
    (log.take n).count m = Nat.count (fun i => log[i]? = some m) n := by
  induction n with
  | zero => simp
  | succ n ih =>
    rw [List.take_add_one, List.count_append, ih, Nat.count_succ]
    cases h : log[n]? with
    | none => simp
    | some a => simp [List.count_singleton]

/-- Below `n` there is a position for every number below the count. -/
theorem exists_position {p : Nat → Prop} [DecidablePred p] {k n : Nat} (h : k < Nat.count p n) :
    ∃ i, i < n ∧ p i ∧ Nat.count p i = k := by
  induction n with
  | zero => simp at h
  | succ n ih =>
    by_cases hk : k < Nat.count p n
    · obtain ⟨i, hi, hp, hcount⟩ := ih hk
      exact ⟨i, by omega, hp, hcount⟩
    · rw [Nat.count_succ] at h
      split_ifs at h with hp
      · exact ⟨n, Nat.lt_succ_self n, hp, by omega⟩
      · omega

/-- Every expense of a settled log has a payment of its own before it. -/
theorem exists_payments (h : settle 0 log = some r) :
    ∃ pays : Nat → Nat,
      (∀ i, log[i]? = some .spent → pays i < i ∧ log[pays i]? = some .paid) ∧
      ∀ i j, log[i]? = some .spent → log[j]? = some .spent → pays i = pays j → i = j := by
  -- the payment with the same number as the expense
  have hpay : ∀ i, log[i]? = some .spent → ∃ j, j < i ∧ log[j]? = some .paid ∧
      Nat.count (fun k => log[k]? = some .paid) j
        = Nat.count (fun k => log[k]? = some .spent) i := by
    intro i hi
    have hle := count_take_le h (i + 1)
    rw [count_take, count_take, Nat.count_succ, Nat.count_succ, if_pos hi, if_neg (by simp [hi])]
      at hle
    exact exists_position (by omega)
  choose! pays hpays using hpay
  refine ⟨pays, fun i hi => ⟨(hpays i hi).1, (hpays i hi).2.1⟩, fun i j hi hj heq => ?_⟩
  have hcount := (hpays i hi).2.2.symm.trans (heq ▸ (hpays j hj).2.2)
  exact Nat.count_injective hi hj hcount

end Accounts
