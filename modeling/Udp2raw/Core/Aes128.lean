import Udp2raw.Core.Gf256

/-!
# AES with 128-bit keys

The cipher of FIPS 197 on a state of four columns of four bytes: the S-box as the
inverse in the field followed by an affine map, the three other transformations,
the key expansion, the cipher and its inverse. Each transformation is undone by its
inverse, so the inverse cipher undoes the cipher.
-/

namespace Aes128

open Gf256

/-- A column of the state, or a word of the key schedule. -/
@[ext] structure Word where
  b0 : UInt8
  b1 : UInt8
  b2 : UInt8
  b3 : UInt8
  deriving DecidableEq

/-- The state, column by column. -/
@[ext] structure State where
  c0 : Word
  c1 : Word
  c2 : Word
  c3 : Word
  deriving DecidableEq

namespace Word

/-- The sum of two words. -/
def add (v w : Word) : Word := ⟨v.b0 ^^^ w.b0, v.b1 ^^^ w.b1, v.b2 ^^^ w.b2, v.b3 ^^^ w.b3⟩

/-- Apply a map to each byte. -/
def map (f : UInt8 → UInt8) (w : Word) : Word := ⟨f w.b0, f w.b1, f w.b2, f w.b3⟩

theorem add_add_cancel (v w : Word) : (v.add w).add w = v := by
  simp only [add, UInt8.xor_assoc, UInt8.xor_self, UInt8.xor_zero]

end Word

/-! ## The S-box -/

/-- Bit `i` of a byte, with the positions counted modulo eight. -/
def bit (b : UInt8) (i : Nat) : Bool := b.toNat.testBit (i % 8)

/-- The byte with the given bits. -/
def ofBits (f : Nat → Bool) : UInt8 :=
  (List.range 8).foldl (fun b i => if f i then b ||| ((1 : UInt8) <<< UInt8.ofNat i) else b) 0

/-- The affine map of the S-box. -/
def affine (b : UInt8) : UInt8 :=
  ofBits fun i => (bit b i ^^ bit b (i + 4) ^^ bit b (i + 5) ^^ bit b (i + 6) ^^ bit b (i + 7)) ^^
    bit 0x63 i

/-- The affine map of the inverse S-box. -/
def invAffine (b : UInt8) : UInt8 :=
  ofBits fun i => (bit b (i + 2) ^^ bit b (i + 5) ^^ bit b (i + 7)) ^^ bit 0x05 i

/-- The S-box. -/
def sbox (b : UInt8) : UInt8 := affine (inv b)

/-- The inverse S-box. -/
def invSbox (b : UInt8) : UInt8 := inv (invAffine b)

theorem affine_inverse (b : UInt8) : invAffine (affine b) = b ∧ affine (invAffine b) = b := by
  revert b
  exact forall_byte (by decide +kernel)

theorem invSbox_sbox (b : UInt8) : invSbox (sbox b) = b := by
  rw [invSbox, sbox, (affine_inverse _).1, inv_inv]

theorem sbox_invSbox (b : UInt8) : sbox (invSbox b) = b := by
  rw [sbox, invSbox, inv_inv, (affine_inverse _).2]

/-! ## The transformations -/

/-- `MixColumns` on a column. -/
def mixColumn (w : Word) : Word where
  b0 := mul w.b0 2 ^^^ mul w.b1 3 ^^^ w.b2 ^^^ w.b3
  b1 := w.b0 ^^^ mul w.b1 2 ^^^ mul w.b2 3 ^^^ w.b3
  b2 := w.b0 ^^^ w.b1 ^^^ mul w.b2 2 ^^^ mul w.b3 3
  b3 := mul w.b0 3 ^^^ w.b1 ^^^ w.b2 ^^^ mul w.b3 2

/-- `InvMixColumns` on a column. -/
def invMixColumn (w : Word) : Word where
  b0 := mul w.b0 0x0e ^^^ mul w.b1 0x0b ^^^ mul w.b2 0x0d ^^^ mul w.b3 0x09
  b1 := mul w.b0 0x09 ^^^ mul w.b1 0x0e ^^^ mul w.b2 0x0b ^^^ mul w.b3 0x0d
  b2 := mul w.b0 0x0d ^^^ mul w.b1 0x09 ^^^ mul w.b2 0x0e ^^^ mul w.b3 0x0b
  b3 := mul w.b0 0x0b ^^^ mul w.b1 0x0d ^^^ mul w.b2 0x09 ^^^ mul w.b3 0x0e

/-- Apply a map to each column. -/
def State.map (f : Word → Word) (s : State) : State := ⟨f s.c0, f s.c1, f s.c2, f s.c3⟩

/-- `SubBytes`. -/
def subBytes : State → State := State.map (Word.map sbox)

/-- `InvSubBytes`. -/
def invSubBytes : State → State := State.map (Word.map invSbox)

/-- `ShiftRows`: row `r` moves by `r` columns. -/
def shiftRows (s : State) : State where
  c0 := ⟨s.c0.b0, s.c1.b1, s.c2.b2, s.c3.b3⟩
  c1 := ⟨s.c1.b0, s.c2.b1, s.c3.b2, s.c0.b3⟩
  c2 := ⟨s.c2.b0, s.c3.b1, s.c0.b2, s.c1.b3⟩
  c3 := ⟨s.c3.b0, s.c0.b1, s.c1.b2, s.c2.b3⟩

/-- `InvShiftRows`. -/
def invShiftRows (s : State) : State where
  c0 := ⟨s.c0.b0, s.c3.b1, s.c2.b2, s.c1.b3⟩
  c1 := ⟨s.c1.b0, s.c0.b1, s.c3.b2, s.c2.b3⟩
  c2 := ⟨s.c2.b0, s.c1.b1, s.c0.b2, s.c3.b3⟩
  c3 := ⟨s.c3.b0, s.c2.b1, s.c1.b2, s.c0.b3⟩

/-- `MixColumns`. -/
def mixColumns : State → State := State.map mixColumn

/-- `InvMixColumns`. -/
def invMixColumns : State → State := State.map invMixColumn

/-- `AddRoundKey`. -/
def addRoundKey (s k : State) : State :=
  ⟨s.c0.add k.c0, s.c1.add k.c1, s.c2.add k.c2, s.c3.add k.c3⟩

/-! ## The key expansion -/

/-- `RotWord`. -/
def rotWord (w : Word) : Word := ⟨w.b1, w.b2, w.b3, w.b0⟩

/-- `Rcon[j]`. -/
def rcon (j : Nat) : Word := ⟨pow 2 (j - 1), 0, 0, 0⟩

/-- `KeyExpansion`: word `i` of the schedule. -/
def keyWord (key : State) (i : Nat) : Word :=
  match i with
  | 0 => key.c0
  | 1 => key.c1
  | 2 => key.c2
  | 3 => key.c3
  | i + 4 =>
    let temp := keyWord key (i + 3)
    (keyWord key i).add
      (if (i + 4) % 4 = 0 then ((rotWord temp).map sbox).add (rcon ((i + 4) / 4)) else temp)

/-- The key of a round. -/
def roundKey (key : State) (r : Nat) : State :=
  ⟨keyWord key (4 * r), keyWord key (4 * r + 1), keyWord key (4 * r + 2), keyWord key (4 * r + 3)⟩

/-! ## The cipher -/

/-- The state after round `r` of the cipher, the last one apart. -/
def rounds (key s : State) : Nat → State
  | 0 => addRoundKey s (roundKey key 0)
  | r + 1 => addRoundKey (mixColumns (shiftRows (subBytes (rounds key s r)))) (roundKey key (r + 1))

/-- `Cipher`. -/
def cipher (key s : State) : State :=
  addRoundKey (shiftRows (subBytes (rounds key s 9))) (roundKey key 10)

/-- The state after round `r` of the inverse cipher, the last one apart. -/
def invRounds (key s : State) : Nat → State
  | 0 => addRoundKey s (roundKey key 10)
  | r + 1 => invMixColumns
      (addRoundKey (invSubBytes (invShiftRows (invRounds key s r))) (roundKey key (9 - r)))

/-- `InvCipher`. -/
def invCipher (key s : State) : State :=
  addRoundKey (invSubBytes (invShiftRows (invRounds key s 9))) (roundKey key 0)

/-! ## Each transformation is undone -/

@[simp] theorem invSubBytes_subBytes (s : State) : invSubBytes (subBytes s) = s := by
  simp [invSubBytes, subBytes, State.map, Word.map, invSbox_sbox]

@[simp] theorem invShiftRows_shiftRows (s : State) : invShiftRows (shiftRows s) = s := rfl

@[simp] theorem addRoundKey_addRoundKey (s k : State) : addRoundKey (addRoundKey s k) k = s := by
  simp [addRoundKey, Word.add_add_cancel]

section

variable (a : UInt8)

theorem mul_two : mul a 2 = double a := by
  simp [mul_eq_selected, selected]

theorem mul_three : mul a 3 = a ^^^ double a := by
  simp [mul_eq_selected, selected]

theorem mul_nine : mul a 0x09 = a ^^^ double (double (double a)) := by
  simp [mul_eq_selected, selected]

theorem mul_eleven : mul a 0x0b = a ^^^ double a ^^^ double (double (double a)) := by
  simp [mul_eq_selected, selected]

theorem mul_thirteen : mul a 0x0d = a ^^^ double (double a) ^^^ double (double (double a)) := by
  simp [mul_eq_selected, selected]

theorem mul_fourteen :
    mul a 0x0e = double a ^^^ double (double a) ^^^ double (double (double a)) := by
  simp [mul_eq_selected, selected]

end

/-- The product of a row of the inverse matrix with the columns of the matrix, which is a unit
vector even before the reduction. -/
theorem unit_row (a : UInt8) :
    mul (mul a 2) 0x0e ^^^ mul a 0x0b ^^^ mul a 0x0d ^^^ mul (mul a 3) 0x09 = a ∧
    mul (mul a 3) 0x0e ^^^ mul (mul a 2) 0x0b ^^^ mul a 0x0d ^^^ mul a 0x09 = 0 ∧
    mul a 0x0e ^^^ mul (mul a 3) 0x0b ^^^ mul (mul a 2) 0x0d ^^^ mul a 0x09 = 0 ∧
    mul a 0x0e ^^^ mul a 0x0b ^^^ mul (mul a 3) 0x0d ^^^ mul (mul a 2) 0x09 = 0 := by
  simp only [mul_two, mul_three, mul_nine, mul_eleven, mul_thirteen, mul_fourteen, double_xor]
  refine ⟨?_, ?_, ?_, ?_⟩ <;> simp only [UInt8.xor_comm, xor_left_comm, xor_cancel_left,
    UInt8.xor_self, UInt8.xor_zero]

/-- The first byte of a mixed column comes back. -/
theorem first_row (a b c d : UInt8) :
    mul (mul a 2 ^^^ mul b 3 ^^^ c ^^^ d) 0x0e ^^^ mul (a ^^^ mul b 2 ^^^ mul c 3 ^^^ d) 0x0b ^^^
      mul (a ^^^ b ^^^ mul c 2 ^^^ mul d 3) 0x0d ^^^ mul (mul a 3 ^^^ b ^^^ c ^^^ mul d 2) 0x09 =
      a := by
  simp only [mul_xor]
  calc
    _ = (mul (mul a 2) 0x0e ^^^ mul a 0x0b ^^^ mul a 0x0d ^^^ mul (mul a 3) 0x09) ^^^
          (mul (mul b 3) 0x0e ^^^ mul (mul b 2) 0x0b ^^^ mul b 0x0d ^^^ mul b 0x09) ^^^
          (mul c 0x0e ^^^ mul (mul c 3) 0x0b ^^^ mul (mul c 2) 0x0d ^^^ mul c 0x09) ^^^
          (mul d 0x0e ^^^ mul d 0x0b ^^^ mul (mul d 3) 0x0d ^^^ mul (mul d 2) 0x09) := by ac_rfl
    _ = a := by
      rw [(unit_row a).1, (unit_row b).2.1, (unit_row c).2.2.1, (unit_row d).2.2.2]
      simp only [UInt8.xor_zero]

/-- The other rows are rotations of the first one. -/
theorem invMixColumn_mixColumn (w : Word) : invMixColumn (mixColumn w) = w := by
  obtain ⟨a, b, c, d⟩ := w
  refine Word.ext ?_ ?_ ?_ ?_ <;> dsimp only [invMixColumn, mixColumn]
  · exact first_row a b c d
  · conv_rhs => rw [← first_row b c d a]
    ac_rfl
  · conv_rhs => rw [← first_row c d a b]
    ac_rfl
  · conv_rhs => rw [← first_row d a b c]
    ac_rfl

@[simp] theorem invMixColumns_mixColumns (s : State) : invMixColumns (mixColumns s) = s := by
  simp [invMixColumns, mixColumns, State.map, invMixColumn_mixColumn]

theorem invMixColumn_add (v w : Word) :
    invMixColumn (v.add w) = (invMixColumn v).add (invMixColumn w) := by
  simp only [invMixColumn, Word.add, mul_xor]
  refine Word.ext ?_ ?_ ?_ ?_ <;> ac_rfl

/-- After `r` rounds the inverse cipher is where the cipher was before its last `r` rounds. -/
theorem invRounds_cipher (key s : State) {r : Nat} (hr : r ≤ 9) :
    invRounds key (cipher key s) r = shiftRows (subBytes (rounds key s (9 - r))) := by
  induction r with
  | zero => rw [invRounds, cipher, addRoundKey_addRoundKey]
  | succ r ih =>
    have hsucc : 9 - r = 9 - (r + 1) + 1 := by omega
    rw [invRounds, ih (by omega), invShiftRows_shiftRows, invSubBytes_subBytes, hsucc, rounds,
      addRoundKey_addRoundKey, invMixColumns_mixColumns]

/-- The inverse cipher undoes the cipher. -/
theorem invCipher_cipher (key s : State) : invCipher key (cipher key s) = s := by
  rw [invCipher, invRounds_cipher key s le_rfl, invShiftRows_shiftRows, invSubBytes_subBytes,
    Nat.sub_self, rounds, addRoundKey_addRoundKey]

end Aes128
