import Udp2raw.Core.Aes128
import Udp2raw.Crypto.AesTable

/-!
# What the AES tables hold

The loops of `gen_tables` compute the S-box and its inverse, and the words of the
other tables are the columns of the two mixing matrices times an entry of a box.
-/

namespace Udp2raw.AesTable

open FixedArray Gf256

theorem xtime_eq (x : UInt8) : xtime x = double x := rfl

/-- The loop of `gf_mul` adds the doublings the bits of `b` select. -/
theorem gfMulLoop_eq (k : Nat) (a b p : UInt8) (hb : b.toNat < 2 ^ k) :
    gfMulLoop a b p = p ^^^ selected a b.toNat k := by
  have hbit : ∀ b : UInt8, (b &&& 1 != 0) = decide (b.toNat % 2 = 1) :=
    forall_byte (by decide +kernel)
  induction k generalizing a b p with
  | zero =>
    have hzero : b = 0 := UInt8.toNat_inj.mp (Nat.lt_one_iff.mp hb)
    rw [gfMulLoop, if_pos hzero, selected, UInt8.xor_zero]
  | succ k ih =>
    rw [gfMulLoop]
    split_ifs with hzero hodd
    · rw [hzero]
      exact (congrArg (p ^^^ ·) (selected_zero a _)).trans UInt8.xor_zero |>.symm
    all_goals
      have hshift : (b >>> 1).toNat = b.toNat / 2 := UInt8.toNat_shiftRight b 1
      rw [hbit, decide_eq_true_eq] at hodd
      rw [ih _ _ _ (by rw [hshift]; omega), hshift, selected_succ, xtime_eq]
    · rw [if_pos hodd, UInt8.xor_assoc]
    · rw [if_neg hodd, UInt8.zero_xor]

/-- `gf_mul` is the product in the field. -/
theorem gfMul_eq (a b : UInt8) : gfMul a b = mul a b := by
  rw [gfMul, gfMulLoop_eq 8 a b 0 b.toNat_lt, UInt8.zero_xor, mul_eq_selected]

/-! ## The powers of 3 -/

/-- The loop fills the tables of powers and logarithms. -/
theorem powers_eq (rounds : Nat) :
    powers rounds = {
      pow := scatter id (fun i => triple^[i] 1) (.replicate 256 0) rounds
      log := scatter (fun i => (triple^[i] 1).toNat) UInt8.ofNat (.replicate 256 0) rounds
      x := triple^[rounds] 1 } := by
  induction rounds with
  | zero => rfl
  | succ k ih =>
    unfold powers at ih ⊢
    rw [List.range_succ, List.foldl_append, ih, scatter_succ, scatter_succ,
      Function.iterate_succ_apply']
    rfl

theorem read_pow {k rounds : Nat} (hk : k < rounds) (hrounds : rounds ≤ 256) :
    read (powers rounds).pow k = triple^[k] 1 := by
  rw [powers_eq]
  exact read_scatter_id hrounds hk

theorem read_log {k rounds : Nat} (hk : k < rounds) (hrounds : rounds ≤ 255) :
    read (powers rounds).log (triple^[k] 1).toNat = UInt8.ofNat k := by
  rw [powers_eq]
  refine @read_scatter _ _ _ (fun i => (triple^[i] 1).toNat) _ _ _ _ (fun j _ => UInt8.toNat_lt _)
    (fun i hi j hj h => ?_) hk
  exact iterate_triple_inj (by omega) (by omega) (UInt8.toNat_inj.mp h)

/-! ## The boxes -/

/-- The source computes the S-box of the standard. -/
theorem sboxEntry_eq (b : UInt8) : sboxEntry b.toNat = Aes128.sbox b := by
  have hsums : ∀ b : UInt8, ((List.range 4).foldl (fun sy _ =>
      let y := rotateLeft1 sy.2
      (sy.1 ^^^ y, y)) (b, b)).1 ^^^ 0x63 = Aes128.affine b := forall_byte (by decide +kernel)
  unfold sboxEntry
  dsimp only
  rw [hsums, Aes128.sbox]
  congr 1
  by_cases hb : b = 0
  · rw [hb, inv_zero]
    rfl
  · obtain ⟨k, hk, rfl⟩ := exists_iterate_triple hb
    have hne : (triple^[k] 1).toNat ≠ 0 := fun h => hb (UInt8.toNat_inj.mp h)
    have hk' : (UInt8.ofNat k).toNat = k := by
      rw [UInt8.toNat_ofNat']
      exact Nat.mod_eq_of_lt (by omega)
    rw [if_neg hne, read_log hk le_rfl, hk', read_pow (Nat.mod_lt _ (by decide)) (by decide),
      inv_iterate_triple hk]

/-- The boxes after a number of rounds. -/
theorem foldl_boxes (rounds : Nat) :
    (List.range rounds).foldl (fun t i =>
      let s := sboxEntry i
      ({ sbox := write t.sbox i s, invSbox := write t.invSbox s.toNat (UInt8.ofNat i) } : Boxes))
      { sbox := .replicate 256 0, invSbox := .replicate 256 0 } = {
        sbox := scatter id sboxEntry (.replicate 256 0) rounds
        invSbox :=
          scatter (fun i => (sboxEntry i).toNat) UInt8.ofNat (.replicate 256 0) rounds } := by
  induction rounds with
  | zero => rfl
  | succ k ih =>
    rw [List.range_succ, List.foldl_append, ih, scatter_succ, scatter_succ]
    rfl

theorem genTables_sbox : genTables.sbox = scatter id sboxEntry (.replicate 256 0) 256 := by
  rw [genTables, boxes, foldl_boxes]

theorem genTables_invSbox :
    genTables.invSbox =
      scatter (fun i => (sboxEntry i).toNat) UInt8.ofNat (.replicate 256 0) 256 := by
  rw [genTables, boxes, foldl_boxes]

theorem read_sbox (b : UInt8) : read genTables.sbox b.toNat = Aes128.sbox b := by
  rw [genTables_sbox, read_scatter_id le_rfl b.toNat_lt, sboxEntry_eq]

/-- The inverse table holds the inverse S-box. -/
theorem read_invSbox (b : UInt8) : read genTables.invSbox b.toNat = Aes128.invSbox b := by
  have hentry : ∀ i < 256, sboxEntry i = Aes128.sbox (UInt8.ofNat i) := by
    intro i hi
    rw [← sboxEntry_eq, UInt8.toNat_ofNat', Nat.mod_eq_of_lt hi]
  have hinj : ∀ i < 256, ∀ j < 256, (sboxEntry i).toNat = (sboxEntry j).toNat → i = j := by
    intro i hi j hj h
    rw [UInt8.toNat_inj, hentry i hi, hentry j hj] at h
    have hbyte := congrArg (fun b => (Aes128.invSbox b).toNat) h
    simpa only [Aes128.invSbox_sbox, UInt8.toNat_ofNat', Nat.mod_eq_of_lt hi, Nat.mod_eq_of_lt hj]
      using hbyte
  have hread := @read_scatter _ _ 256 (fun i => (sboxEntry i).toNat) UInt8.ofNat (.replicate 256 0)
    256 (Aes128.invSbox b).toNat (fun j _ => UInt8.toNat_lt _) hinj (UInt8.toNat_lt _)
  rwa [sboxEntry_eq, Aes128.sbox_invSbox, UInt8.ofNat_toNat, ← genTables_invSbox] at hread

/-! ## The tables of words -/

/-- The four tables a loop fills with an entry and its rotations. -/
def Quad.ofEntries (f : Nat → UInt32) (rounds : Nat) : Quad where
  t0 := scatter id f (.replicate 256 0) rounds
  t1 := scatter id (fun i => rotateRight (f i) 8) (.replicate 256 0) rounds
  t2 := scatter id (fun i => rotateRight (f i) 16) (.replicate 256 0) rounds
  t3 := scatter id (fun i => rotateRight (f i) 24) (.replicate 256 0) rounds

theorem Quad.ofEntries_succ (f : Nat → UInt32) (k : Nat) :
    Quad.ofEntries f (k + 1) = (Quad.ofEntries f k).write k (f k) := by
  unfold Quad.ofEntries Quad.write
  rw [scatter_succ, scatter_succ, scatter_succ, scatter_succ]
  rfl

/-- The four tables are rotations of one. -/
theorem Quad.mix_ofEntries (f : Nat → UInt32) {i j k l : Nat} (hi : i < 256) (hj : j < 256)
    (hk : k < 256) (hl : l < 256) :
    (Quad.ofEntries f 256).mix i j k l =
      f i ^^^ rotateRight (f j) 8 ^^^ rotateRight (f k) 16 ^^^ rotateRight (f l) 24 := by
  rw [Quad.mix, Quad.ofEntries, read_scatter_id le_rfl hi, read_scatter_id le_rfl hj,
    read_scatter_id le_rfl hk, read_scatter_id le_rfl hl]

/-- The loop fills both quads. -/
theorem foldl_quads (f g : Nat → UInt32) (rounds : Nat) :
    (List.range rounds).foldl (fun q i => (q.1.write i (f i), q.2.write i (g i)))
      (Quad.zero, Quad.zero) = (Quad.ofEntries f rounds, Quad.ofEntries g rounds) := by
  induction rounds with
  | zero => rfl
  | succ k ih =>
    rw [List.range_succ, List.foldl_append, ih, Quad.ofEntries_succ, Quad.ofEntries_succ]
    rfl

theorem genTables_te :
    genTables.te = Quad.ofEntries (fun i => teEntry (read genTables.sbox i)) 256 := by
  rw [genTables]
  dsimp only
  rw [foldl_quads (fun i => teEntry (read boxes.sbox i)) (fun i => tdEntry (read boxes.invSbox i))]

theorem genTables_td :
    genTables.td = Quad.ofEntries (fun i => tdEntry (read genTables.invSbox i)) 256 := by
  rw [genTables]
  dsimp only
  rw [foldl_quads (fun i => teEntry (read boxes.sbox i)) (fun i => tdEntry (read boxes.invSbox i))]

end Udp2raw.AesTable
