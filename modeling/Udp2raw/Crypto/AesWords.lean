import Udp2raw.Crypto.AesTables

/-!
# Columns as 32-bit words

A word of the table-driven code holds a column, the first byte in the highest place.
Shifts and masks read the bytes, exclusive or adds columns, and the rotations of an
entry of the first table are the entries of the others. So a round's lookups compute
a whole column of the transformations of a round.
-/

namespace Udp2raw.AesTable

open Aes128 Gf256 FixedArray

/-- A column as a word. -/
def pack (w : Word) : UInt32 := u32FromBe w.b0 w.b1 w.b2 w.b3

/-- The number a packed word is. -/
theorem toNat_pack (w : Word) :
    (pack w).toNat = ((w.b0.toNat * 256 + w.b1.toNat) * 256 + w.b2.toNat) * 256 + w.b3.toNat := by
  have h0 := w.b0.toNat_lt
  have h1 := w.b1.toNat_lt
  have h2 := w.b2.toNat_lt
  have h3 := w.b3.toNat_lt
  rw [pack, u32FromBe, UInt32.toNat_ofNat']
  simp only [BigEndian.decode, List.foldl_cons, List.foldl_nil]
  omega

/-! ## Bytes of a word -/

section

variable (w : Word)

theorem byte3_pack : byte3 (pack w) = w.b0.toNat := by
  have h1 := w.b1.toNat_lt
  have h2 := w.b2.toNat_lt
  have h3 := w.b3.toNat_lt
  rw [byte3, UInt32.toNat_shiftRight, toNat_pack, Nat.shiftRight_eq_div_pow]
  change _ / 2 ^ 24 = _
  omega

theorem byte2_pack : byte2 (pack w) = w.b1.toNat := by
  have h1 := w.b1.toNat_lt
  have h2 := w.b2.toNat_lt
  have h3 := w.b3.toNat_lt
  rw [byte2, UInt32.toNat_and, UInt32.toNat_shiftRight, toNat_pack, Nat.shiftRight_eq_div_pow]
  change _ / 2 ^ 16 &&& (2 ^ 8 - 1) = _
  rw [Nat.and_two_pow_sub_one_eq_mod]
  omega

theorem byte1_pack : byte1 (pack w) = w.b2.toNat := by
  have h2 := w.b2.toNat_lt
  have h3 := w.b3.toNat_lt
  rw [byte1, UInt32.toNat_and, UInt32.toNat_shiftRight, toNat_pack, Nat.shiftRight_eq_div_pow]
  change _ / 2 ^ 8 &&& (2 ^ 8 - 1) = _
  rw [Nat.and_two_pow_sub_one_eq_mod]
  omega

theorem byte0_pack : byte0 (pack w) = w.b3.toNat := by
  have h3 := w.b3.toNat_lt
  rw [byte0, UInt32.toNat_and, toNat_pack]
  change _ &&& (2 ^ 8 - 1) = _
  rw [Nat.and_two_pow_sub_one_eq_mod]
  omega

end

/-! ## Sums of words -/

/-- Bytes of a number are added one by one. -/
theorem xor_digits (a c : Nat) {b d : Nat} (hb : b < 256) (hd : d < 256) :
    (a * 256 + b) ^^^ (c * 256 + d) = (a ^^^ c) * 256 + (b ^^^ d) := by
  have hlt : b ^^^ d < 2 ^ 8 := Nat.xor_lt_two_pow hb hd
  rw [Nat.mul_comm a, Nat.mul_comm c, Nat.mul_comm (a ^^^ c)]
  refine Nat.eq_of_testBit_eq fun i => ?_
  change ((2 ^ 8 * a + b) ^^^ (2 ^ 8 * c + d)).testBit i = (2 ^ 8 * (a ^^^ c) + (b ^^^ d)).testBit i
  rw [Nat.testBit_xor, Nat.testBit_two_pow_mul_add _ hb, Nat.testBit_two_pow_mul_add _ hd,
    Nat.testBit_two_pow_mul_add _ hlt]
  split_ifs <;> rw [Nat.testBit_xor]

theorem pack_add (v w : Word) : pack (v.add w) = pack v ^^^ pack w := by
  apply UInt32.toNat_inj.mp
  rw [UInt32.toNat_xor, toNat_pack, toNat_pack, toNat_pack,
    xor_digits _ _ v.b3.toNat_lt w.b3.toNat_lt, xor_digits _ _ v.b2.toNat_lt w.b2.toNat_lt,
    xor_digits _ _ v.b1.toNat_lt w.b1.toNat_lt]
  simp only [Word.add, UInt8.toNat_xor]

/-! ## Words put together from bytes -/

theorem toNat_shiftByte (a : UInt8) {n : UInt32} (hn : n.toNat ≤ 24) :
    (a.toUInt32 <<< n).toNat = a.toNat * 2 ^ n.toNat := by
  have ha := a.toNat_lt
  have hpow : 2 ^ n.toNat ≤ 2 ^ 24 := Nat.pow_le_pow_right (by decide) hn
  have hlt : a.toNat * 2 ^ n.toNat < 2 ^ 32 :=
    lt_of_lt_of_le (Nat.mul_lt_mul_of_lt_of_le ha hpow (by decide)) (by decide)
  rw [UInt32.toNat_shiftLeft, UInt8.toNat_toUInt32, Nat.shiftLeft_eq,
    Nat.mod_eq_of_lt (show n.toNat < 32 by omega)]
  exact Nat.mod_eq_of_lt hlt

theorem or_eq_add (i a : Nat) {b : Nat} (hb : b < 2 ^ i) : a * 2 ^ i ||| b = a * 2 ^ i + b := by
  rw [Nat.mul_comm, Nat.two_pow_add_eq_or_of_lt hb]

/-- Shifted bytes make a packed word. -/
theorem or_eq_pack (a b c d : UInt8) :
    (a.toUInt32 <<< 24) ||| (b.toUInt32 <<< 16) ||| (c.toUInt32 <<< 8) ||| d.toUInt32 =
      pack ⟨a, b, c, d⟩ := by
  have hb := b.toNat_lt
  have hc := c.toNat_lt
  apply UInt32.toNat_inj.mp
  rw [UInt32.toNat_or, UInt32.toNat_or, UInt32.toNat_or, toNat_shiftByte a (by decide),
    toNat_shiftByte b (by decide), toNat_shiftByte c (by decide), UInt8.toNat_toUInt32, toNat_pack]
  change a.toNat * 2 ^ 24 ||| b.toNat * 2 ^ 16 ||| c.toNat * 2 ^ 8 ||| d.toNat =
    ((a.toNat * 256 + b.toNat) * 256 + c.toNat) * 2 ^ 8 + d.toNat
  -- one byte after the other
  rw [or_eq_add 24 _ (by omega), show a.toNat * 2 ^ 24 + b.toNat * 2 ^ 16 =
      (a.toNat * 256 + b.toNat) * 2 ^ 16 by omega, or_eq_add 16 _ (by omega)]
  rw [show (a.toNat * 256 + b.toNat) * 2 ^ 16 + c.toNat * 2 ^ 8 =
      ((a.toNat * 256 + b.toNat) * 256 + c.toNat) * 2 ^ 8 by omega, or_eq_add 8 _ d.toNat_lt]

/-- The bytes of a word are in different places, so adding them puts them together, too. -/
theorem xor_eq_pack (a b c d : UInt8) :
    (a.toUInt32 <<< 24) ^^^ (b.toUInt32 <<< 16) ^^^ (c.toUInt32 <<< 8) ^^^ d.toUInt32 =
      pack ⟨a, b, c, d⟩ := by
  have h3 : a.toUInt32 <<< 24 = pack ⟨a, 0, 0, 0⟩ := by rw [← or_eq_pack]; simp
  have h2 : b.toUInt32 <<< 16 = pack ⟨0, b, 0, 0⟩ := by rw [← or_eq_pack]; simp
  have h1 : c.toUInt32 <<< 8 = pack ⟨0, 0, c, 0⟩ := by rw [← or_eq_pack]; simp
  have h0 : d.toUInt32 = pack ⟨0, 0, 0, d⟩ := by rw [← or_eq_pack]; simp
  rw [h3, h2, h1, h0, ← pack_add, ← pack_add, ← pack_add]
  simp [Word.add]

/-- A rotation in numbers. -/
theorem toNat_rotateRight (x : UInt32) {n : UInt32} (hpos : 0 < n.toNat) (hn : n.toNat < 32) :
    (rotateRight x n).toNat =
      x.toNat % 2 ^ n.toNat * 2 ^ (32 - n.toNat) + x.toNat / 2 ^ n.toNat := by
  have hx := x.toNat_lt
  have hsplit : 2 ^ 32 = 2 ^ n.toNat * 2 ^ (32 - n.toNat) := by
    rw [← pow_add, Nat.add_sub_cancel' (by omega)]
  have hdiff : (32 - n).toNat = 32 - n.toNat := by
    rw [UInt32.toNat_sub]
    change (2 ^ 32 - n.toNat + 32) % 2 ^ 32 = _
    omega
  have hlow : x.toNat / 2 ^ n.toNat < 2 ^ (32 - n.toNat) := by
    rw [Nat.div_lt_iff_lt_mul (Nat.two_pow_pos _), Nat.mul_comm, ← hsplit]
    exact hx
  rw [rotateRight, UInt32.toNat_or, UInt32.toNat_shiftRight, UInt32.toNat_shiftLeft, hdiff,
    Nat.mod_eq_of_lt hn, Nat.mod_eq_of_lt (show 32 - n.toNat < 32 by omega), Nat.shiftLeft_eq,
    Nat.shiftRight_eq_div_pow, hsplit, Nat.mul_mod_mul_right, Nat.or_comm, or_eq_add _ _ hlow]

section

variable (a b c d : UInt8)

theorem rotateRight_pack_8 : rotateRight (pack ⟨a, b, c, d⟩) 8 = pack ⟨d, a, b, c⟩ := by
  have hd := d.toNat_lt
  apply UInt32.toNat_inj.mp
  rw [toNat_rotateRight _ (by decide) (by decide), toNat_pack, toNat_pack]
  change (((a.toNat * 256 + b.toNat) * 256 + c.toNat) * 256 + d.toNat) % 2 ^ 8 * 2 ^ 24 +
    (((a.toNat * 256 + b.toNat) * 256 + c.toNat) * 256 + d.toNat) / 2 ^ 8 =
    ((d.toNat * 256 + a.toNat) * 256 + b.toNat) * 256 + c.toNat
  omega

theorem rotateRight_pack_16 : rotateRight (pack ⟨a, b, c, d⟩) 16 = pack ⟨c, d, a, b⟩ := by
  have hc := c.toNat_lt
  have hd := d.toNat_lt
  apply UInt32.toNat_inj.mp
  rw [toNat_rotateRight _ (by decide) (by decide), toNat_pack, toNat_pack]
  change (((a.toNat * 256 + b.toNat) * 256 + c.toNat) * 256 + d.toNat) % 2 ^ 16 * 2 ^ 16 +
    (((a.toNat * 256 + b.toNat) * 256 + c.toNat) * 256 + d.toNat) / 2 ^ 16 =
    ((c.toNat * 256 + d.toNat) * 256 + a.toNat) * 256 + b.toNat
  omega

theorem rotateRight_pack_24 : rotateRight (pack ⟨a, b, c, d⟩) 24 = pack ⟨b, c, d, a⟩ := by
  have hb := b.toNat_lt
  have hc := c.toNat_lt
  have hd := d.toNat_lt
  apply UInt32.toNat_inj.mp
  rw [toNat_rotateRight _ (by decide) (by decide), toNat_pack, toNat_pack]
  change (((a.toNat * 256 + b.toNat) * 256 + c.toNat) * 256 + d.toNat) % 2 ^ 24 * 2 ^ 8 +
    (((a.toNat * 256 + b.toNat) * 256 + c.toNat) * 256 + d.toNat) / 2 ^ 24 =
    ((b.toNat * 256 + c.toNat) * 256 + d.toNat) * 256 + a.toNat
  omega

end

/-! ## Lookups -/

section

variable (a b c d : UInt8)

theorem gather_sbox :
    gather genTables.sbox a.toNat b.toNat c.toNat d.toNat =
      pack ((⟨a, b, c, d⟩ : Word).map sbox) := by
  rw [gather, read_sbox, read_sbox, read_sbox, read_sbox, xor_eq_pack]
  rfl

theorem gather_invSbox :
    gather genTables.invSbox a.toNat b.toNat c.toNat d.toNat =
      pack ((⟨a, b, c, d⟩ : Word).map invSbox) := by
  rw [gather, read_invSbox, read_invSbox, read_invSbox, read_invSbox, xor_eq_pack]
  rfl

theorem teEntry_eq : teEntry a = pack ⟨mul a 2, a, a, mul a 3⟩ := by
  rw [mul_two, mul_three, ← or_eq_pack, UInt8.xor_comm a]
  rfl

theorem tdEntry_eq : tdEntry a = pack ⟨mul a 0x0e, mul a 0x09, mul a 0x0d, mul a 0x0b⟩ := by
  rw [tdEntry, gfMul_eq, gfMul_eq, gfMul_eq, gfMul_eq, or_eq_pack]

/-- The lookups of `encrypt_block` substitute and mix a column. -/
theorem te_mix :
    genTables.te.mix a.toNat b.toNat c.toNat d.toNat =
      pack (mixColumn ((⟨a, b, c, d⟩ : Word).map sbox)) := by
  rw [genTables_te, Quad.mix_ofEntries _ a.toNat_lt b.toNat_lt c.toNat_lt d.toNat_lt, read_sbox,
    read_sbox, read_sbox, read_sbox, teEntry_eq, teEntry_eq, teEntry_eq, teEntry_eq,
    rotateRight_pack_8, rotateRight_pack_16, rotateRight_pack_24, ← pack_add, ← pack_add,
    ← pack_add]
  rfl

/-- The tables mix back the columns. -/
theorem td_mix_eq (w : Word) :
    genTables.td.mix (sbox w.b0).toNat (sbox w.b1).toNat (sbox w.b2).toNat (sbox w.b3).toNat =
      pack (invMixColumn w) := by
  rw [genTables_td, Quad.mix_ofEntries _ (UInt8.toNat_lt _) (UInt8.toNat_lt _) (UInt8.toNat_lt _)
    (UInt8.toNat_lt _), read_invSbox, read_invSbox, read_invSbox, read_invSbox, invSbox_sbox,
    invSbox_sbox, invSbox_sbox, invSbox_sbox, tdEntry_eq, tdEntry_eq, tdEntry_eq, tdEntry_eq,
    rotateRight_pack_8, rotateRight_pack_16, rotateRight_pack_24, ← pack_add, ← pack_add,
    ← pack_add]
  rfl

/-- The lookups of `decrypt_block` substitute and mix a column. -/
theorem td_mix :
    genTables.td.mix a.toNat b.toNat c.toNat d.toNat =
      pack (invMixColumn ((⟨a, b, c, d⟩ : Word).map invSbox)) := by
  rw [← td_mix_eq]
  simp only [Word.map, sbox_invSbox]

end

end Udp2raw.AesTable
