import Mathlib.Data.Nat.Bitwise
import Mathlib.Dynamics.PeriodicPts.Defs
import Mathlib.Order.Interval.Finset.Nat

/-!
# The field with 256 elements

Bytes are polynomials over the field with two elements, added by exclusive or and
multiplied modulo x⁸ + x⁴ + x³ + x + 1. A product is a sum of repeated doublings,
so multiplication is additive and commutes with itself. The element 3 generates
the other 255, which gives every nonzero byte its inverse.
-/

namespace Gf256

/-- The product of two polynomials, from the lowest coefficients of `b` on. -/
def clmul (a b : Nat) : Nat → Nat
  | 0 => 0
  | k + 1 => clmul a b k ^^^ (b >>> k % 2) * (a <<< k)

/-- The remainder modulo x⁸ + x⁴ + x³ + x + 1, of a polynomial of degree less than `k + 8`. -/
def reduce : Nat → Nat → Nat
  | 0, p => p
  | k + 1, p => reduce k (p ^^^ (p >>> (k + 8) % 2) * (0x11b <<< k))

/-- The product of two elements. -/
def mul (a b : UInt8) : UInt8 := UInt8.ofNat (reduce 7 (clmul a.toNat b.toNat 8))

/-- The powers of an element. -/
def pow (a : UInt8) : Nat → UInt8
  | 0 => 1
  | n + 1 => mul (pow a n) a

/-- The inverse of an element, and zero for zero. -/
def inv (a : UInt8) : UInt8 := pow a 254

/-- The product with x. -/
def double (a : UInt8) : UInt8 := (a <<< 1) ^^^ if a &&& 0x80 != 0 then 0x1b else 0

/-- The product with x + 1. -/
def triple (a : UInt8) : UInt8 := a ^^^ double a

/-- A fact about bytes that is checked one by one. -/
theorem forall_byte {p : UInt8 → Prop} (h : ∀ n < 256, p (UInt8.ofNat n)) (a : UInt8) : p a := by
  have ha := h a.toNat a.toNat_lt
  rwa [UInt8.ofNat_toNat] at ha

/-! ## Sums -/

theorem xor_left_comm (a b c : UInt8) : a ^^^ (b ^^^ c) = b ^^^ (a ^^^ c) := by ac_rfl

theorem xor_cancel_left (a b : UInt8) : a ^^^ (a ^^^ b) = b := by
  rw [← UInt8.xor_assoc, UInt8.xor_self, UInt8.zero_xor]

theorem bit_mul_xor (p q c k : Nat) :
    ((p ^^^ q) >>> k % 2) * c = (p >>> k % 2) * c ^^^ (q >>> k % 2) * c := by
  rw [Nat.shiftRight_xor_distrib, Nat.xor_mod_two_eq]
  rcases Nat.mod_two_eq_zero_or_one (p >>> k) with hp | hp <;>
    rcases Nat.mod_two_eq_zero_or_one (q >>> k) with hq | hq <;>
    simp [hp, hq, Nat.add_mod]

/-- Reduction is linear. -/
theorem reduce_xor (k p q : Nat) : reduce k (p ^^^ q) = reduce k p ^^^ reduce k q := by
  induction k generalizing p q with
  | zero => rfl
  | succ k ih =>
    rw [reduce, reduce, reduce, bit_mul_xor, ← ih]
    congr 1
    ac_rfl

theorem reduce_zero (k : Nat) : reduce k 0 = 0 := by
  have h := reduce_xor k 0 0
  rwa [Nat.xor_self, Nat.xor_self] at h

/-- A shifted byte is its double up to a multiple of the modulus, which reduces to zero. -/
theorem reduce_shiftLeft (k : Nat) (hk : k < 8) (a : UInt8) :
    UInt8.ofNat (reduce 7 (a.toNat <<< k)) = double^[k] a := by
  have hbyte : ∀ a : UInt8, UInt8.ofNat (reduce 7 a.toNat) = a ∧
      a.toNat <<< 1 = (double a).toNat ^^^ a.toNat / 128 * 0x11b := forall_byte (by decide +kernel)
  have hmodulus : ∀ k < 7, reduce 7 (0x11b <<< k) = 0 := by decide
  induction k generalizing a with
  | zero => exact (hbyte a).1
  | succ k ih =>
    have htop : a.toNat / 128 = 0 ∨ a.toNat / 128 = 1 := by
      have := a.toNat_lt
      omega
    have hrest : reduce 7 ((a.toNat / 128 * 0x11b) <<< k) = 0 := by
      rcases htop with h | h <;> rw [h]
      · rw [Nat.zero_mul, Nat.zero_shiftLeft, reduce_zero]
      · exact hmodulus k (by omega)
    rw [Nat.add_comm, Nat.shiftLeft_add, (hbyte a).2, Nat.shiftLeft_xor_distrib, reduce_xor,
      hrest, Nat.xor_zero, ih (by omega), Nat.add_comm, Function.iterate_succ_apply]

theorem double_xor (a b : UInt8) : double (a ^^^ b) = double a ^^^ double b := by
  have hdouble : ∀ a, double a = UInt8.ofNat (reduce 7 (a.toNat <<< 1)) :=
    fun a => (reduce_shiftLeft 1 (by decide) a).symm
  rw [hdouble, UInt8.toNat_xor, Nat.shiftLeft_xor_distrib, reduce_xor, UInt8.ofNat_xor, ← hdouble,
    ← hdouble]

/-! ## Products as sums -/

/-- The product, as the sum of the doublings the second factor selects. -/
def selected (a : UInt8) (b : Nat) : Nat → UInt8
  | 0 => 0
  | k + 1 => selected a b k ^^^ if b >>> k % 2 = 1 then double^[k] a else 0

/-- A product is the sum of the doublings its bits select. -/
theorem mul_eq_selected (a b : UInt8) : mul a b = selected a b.toNat 8 := by
  have hsum : ∀ k ≤ 8, UInt8.ofNat (reduce 7 (clmul a.toNat b.toNat k)) = selected a b.toNat k := by
    intro k
    induction k with
    | zero =>
      intro _
      rw [clmul, reduce_zero, selected]
      rfl
    | succ k ih =>
      intro hk
      rw [clmul, selected, reduce_xor, UInt8.ofNat_xor, ih (by omega)]
      congr 1
      rcases Nat.mod_two_eq_zero_or_one (b.toNat >>> k) with hbit | hbit
      · rw [hbit, Nat.zero_mul, reduce_zero, if_neg (by decide)]
        rfl
      · rw [hbit, Nat.one_mul, reduce_shiftLeft k (by omega), if_pos rfl]
  exact hsum 8 le_rfl

/-- The selected sum is linear in the first factor. -/
theorem selected_xor (a a' : UInt8) (b k : Nat) :
    selected (a ^^^ a') b k = selected a b k ^^^ selected a' b k := by
  have hiterate : ∀ k, double^[k] (a ^^^ a') = double^[k] a ^^^ double^[k] a' := by
    intro k
    induction k with
    | zero => rfl
    | succ k ih =>
      rw [Function.iterate_succ_apply', ih, double_xor, ← Function.iterate_succ_apply' double,
        ← Function.iterate_succ_apply' double]
  induction k with
  | zero => rw [selected, selected, selected, UInt8.xor_zero]
  | succ k ih =>
    rw [selected, selected, selected, ih, hiterate]
    split_ifs
    · ac_rfl
    · simp only [UInt8.xor_zero]

theorem selected_double (a : UInt8) (b k : Nat) :
    selected (double a) b k = double (selected a b k) := by
  induction k with
  | zero =>
    rw [selected, selected]
    decide
  | succ k ih =>
    rw [selected, selected, ih, double_xor]
    congr 1
    split_ifs
    · rw [← Function.iterate_succ_apply, Function.iterate_succ_apply']
    · rfl

/-- Multiplication distributes over sums. -/
theorem mul_xor (a a' b : UInt8) : mul (a ^^^ a') b = mul a b ^^^ mul a' b := by
  rw [mul_eq_selected, selected_xor, mul_eq_selected, mul_eq_selected]

theorem mul_triple (a b : UInt8) : mul (triple a) b = triple (mul a b) := by
  rw [triple, mul_xor, mul_eq_selected (double a), selected_double, ← mul_eq_selected]
  rfl

theorem one_mul (b : UInt8) : mul 1 b = b := by
  revert b
  exact forall_byte (by decide +kernel)

theorem selected_zero (a : UInt8) (k : Nat) : selected a 0 k = 0 := by
  induction k with
  | zero => rfl
  | succ k ih =>
    rw [selected, ih, Nat.zero_shiftRight, if_neg (by decide)]
    rfl

/-- Multiplication bit by bit, from the lowest bit of the second factor on. -/
theorem selected_succ (a : UInt8) (b k : Nat) :
    selected a b (k + 1) = (if b % 2 = 1 then a else 0) ^^^ selected (double a) (b / 2) k := by
  induction k with
  | zero => simp [selected]
  | succ k ih =>
    rw [selected, ih, selected, UInt8.xor_assoc, ← Function.iterate_succ_apply,
      Nat.shiftRight_succ_inside]

/-! ## Powers of the generator -/

theorem mul_iterate_triple (k : Nat) (b : UInt8) : mul (triple^[k] 1) b = triple^[k] b := by
  induction k with
  | zero => exact one_mul b
  | succ k ih =>
    rw [Function.iterate_succ_apply', mul_triple, ih, ← Function.iterate_succ_apply' triple]

theorem pow_iterate_triple (k n : Nat) : pow (triple^[k] 1) n = triple^[k * n] 1 := by
  induction n with
  | zero => rfl
  | succ n ih => rw [pow, ih, mul_iterate_triple, ← Function.iterate_add_apply, Nat.mul_succ]

/-- The generator has order 255: its order divides 255, and no proper divisor is a period. -/
theorem minimalPeriod_triple : Function.minimalPeriod triple 1 = 255 := by
  have hperiods : triple^[255] 1 = 1 ∧ ∀ d < 255, d ∣ 255 → triple^[d] 1 ≠ 1 := by decide +kernel
  have hperiodic : Function.IsPeriodicPt triple 255 1 := hperiods.1
  have hle := Nat.le_of_dvd (by decide) hperiodic.minimalPeriod_dvd
  by_contra hne
  exact hperiods.2 _ (by omega) hperiodic.minimalPeriod_dvd Function.iterate_minimalPeriod

/-- The first 255 powers differ. -/
theorem iterate_triple_inj {i j : Nat} (hi : i < 255) (hj : j < 255)
    (h : triple^[i] 1 = triple^[j] 1) : i = j := by
  rw [← minimalPeriod_triple] at hi hj
  exact (Function.iterate_eq_iterate_iff_of_lt_minimalPeriod hi hj).mp h

/-- Every nonzero element is a power of the generator. -/
theorem exists_iterate_triple {a : UInt8} (ha : a ≠ 0) : ∃ k < 255, triple^[k] 1 = a := by
  have hne : ∀ k, triple^[k] 1 ≠ 0 := by
    intro k h
    have hone := (Function.isPeriodicPt_minimalPeriod triple 1).const_mul k
    rw [minimalPeriod_triple, Function.IsPeriodicPt, Function.IsFixedPt, Nat.mul_succ k 254,
      Function.iterate_add_apply, h, Function.iterate_fixed (by decide)] at hone
    exact absurd hone (by decide)
  have hpos : ∀ b : UInt8, b ≠ 0 → b.toNat ∈ Finset.Ico 1 256 := by
    intro b hb
    have hlt := b.toNat_lt
    have hnz : b.toNat ≠ 0 := fun h => hb (UInt8.toNat_inj.mp h)
    rw [Finset.mem_Ico]
    omega
  obtain ⟨k, hk, heq⟩ := Finset.surj_on_of_inj_on_of_card_le (s := Finset.range 255)
    (t := Finset.Ico 1 256) (fun k _ => (triple^[k] 1).toNat) (fun k _ => hpos _ (hne k))
    (fun i j hi hj h => iterate_triple_inj (Finset.mem_range.mp hi) (Finset.mem_range.mp hj)
      (UInt8.toNat_inj.mp h)) (by simp) a.toNat (hpos a ha)
  exact ⟨k, Finset.mem_range.mp hk, UInt8.toNat_inj.mp heq.symm⟩

theorem inv_iterate_triple {k : Nat} (hk : k < 255) :
    inv (triple^[k] 1) = triple^[(255 - k) % 255] 1 := by
  have hmod : k * 254 % 255 = (255 - k) % 255 := by omega
  rw [inv, pow_iterate_triple, ← Function.iterate_mod_minimalPeriod_eq, minimalPeriod_triple, hmod]

@[simp] theorem inv_zero : inv 0 = 0 := by
  rw [inv, pow, mul_eq_selected]
  exact selected_zero _ 8

theorem inv_inv (a : UInt8) : inv (inv a) = a := by
  by_cases ha : a = 0
  · rw [ha, inv_zero, inv_zero]
  · obtain ⟨k, hk, rfl⟩ := exists_iterate_triple ha
    have hmod : (255 - (255 - k) % 255) % 255 = k := by omega
    rw [inv_iterate_triple hk, inv_iterate_triple (Nat.mod_lt _ (by decide)), hmod]

end Gf256
