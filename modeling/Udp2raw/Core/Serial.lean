import Mathlib.Algebra.Order.Ring.Nat

/-!
# Serial numbers

32-bit numbers on a circle, compared by the sign of their difference. `ahead base x`
is the distance from `base` up to `x`. A number compares as newer than `base` when
that distance is positive and less than half of the circle; numbers that all lie in
the half circle above one base compare like their distances from it.
-/

namespace Serial

/-- The distance from `base` up to `x`. -/
def ahead (base x : UInt32) : Nat := (x - base).toNat

/-- Whether `a` is newer than `b`: the sign of the difference. -/
def newer (a b : UInt32) : Bool := 0 < (a - b).toInt32

section

variable {base a b : UInt32}

theorem ahead_lt (base x : UInt32) : ahead base x < 2 ^ 32 := (x - base).toNat_lt

@[simp] theorem ahead_self (base : UInt32) : ahead base base = 0 := by
  rw [ahead, UInt32.sub_self]
  rfl

/-- Newer is ahead by less than half of the circle. -/
theorem newer_iff : newer a b = true ↔ 0 < ahead b a ∧ ahead b a < 2 ^ 31 := by
  rw [newer, decide_eq_true_iff, Int32.lt_iff_toInt_lt, ahead]
  generalize a - b = d
  have hlt := d.toNat_lt
  change 0 < d.toBitVec.toInt ↔ _
  rw [BitVec.toInt_eq_toNat_cond, UInt32.toNat_toBitVec]
  split <;> omega

/-- Distances compose around the circle. -/
theorem ahead_eq (base a b : UInt32) :
    ahead b a = (ahead base a + (2 ^ 32 - ahead base b)) % 2 ^ 32 := by
  have ha := a.toNat_lt
  have hb := b.toNat_lt
  have hbase := base.toNat_lt
  simp only [ahead, UInt32.toNat_sub]
  omega

/-- Distances add up around the circle. -/
theorem ahead_add (base a : UInt32) (n : UInt32) :
    ahead base (a + n) = (ahead base a + n.toNat) % 2 ^ 32 := by
  have ha := a.toNat_lt
  have hn := n.toNat_lt
  have hbase := base.toNat_lt
  simp only [ahead, UInt32.toNat_sub, UInt32.toNat_add]
  omega

/-- Advancing adds to the distance as long as that does not leave the circle. -/
theorem ahead_add_ofNat {n : Nat} (h : ahead base a + n < 2 ^ 32) :
    ahead base (a + UInt32.ofNat n) = ahead base a + n := by
  rw [ahead_add, UInt32.toNat_ofNat', Nat.mod_eq_of_lt (show n < 2 ^ 32 by omega),
    Nat.mod_eq_of_lt h]

end

end Serial
