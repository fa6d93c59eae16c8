import Udp2raw.Core.OnesComplement
import Udp2raw.Core.Checked

/-!
# Internet checksum and byte access

The one's-complement sum runs over big-endian 16-bit words in a 32-bit
accumulator, exactly as the source adds and folds it. The readers are the
source's own: each indexes its bytes and aborts when one is missing.
-/

namespace Udp2raw

open Checked

/-- A byte slice. -/
abbrev Bytes := List UInt8

/-- `u16::from_be_bytes`. -/
def u16FromBe (a b : UInt8) : UInt16 := UInt16.ofNat (BigEndian.decode [a, b])

/-- `u16::to_be_bytes`. -/
def u16ToBe (x : UInt16) : Bytes := BigEndian.encode 2 x.toNat

/-- `buf[i..i + 2].copy_from_slice(&x.to_be_bytes())`. -/
def putU16 (buf : Bytes) (i : Nat) (x : UInt16) : Bytes :=
  buf.take i ++ (u16ToBe x ++ buf.drop (i + 2))

/-- `u32::to_be_bytes`. -/
def u32ToBe (x : UInt32) : Bytes := BigEndian.encode 4 x.toNat

/-- `u32::from_be_bytes`. -/
def u32FromBe (a b c d : UInt8) : UInt32 := UInt32.ofNat (BigEndian.decode [a, b, c, d])

/-- `read_u32_be`: the first four bytes of a slice. -/
def readU32Be (p : Bytes) : Except Panic UInt32 := do
  return u32FromBe (← readAt p 0) (← readAt p 1) (← readAt p 2) (← readAt p 3)

/-- `u16::from_be_bytes([p[i], p[i + 1]])`. -/
def readU16At (p : Bytes) (i : Nat) : Except Panic UInt16 := do
  return u16FromBe (← readAt p i) (← readAt p (i + 1))

theorem readU32Be_returns {p : Bytes} (h : 4 ≤ p.length) : Returns (readU32Be p) fun _ => True := by
  refine (readAt_returns (by omega)).bind fun a _ => ?_
  refine (readAt_returns (by omega)).bind fun b _ => ?_
  refine (readAt_returns (by omega)).bind fun c _ => ?_
  exact (readAt_returns (by omega)).bind fun d _ => returns_ok trivial

theorem readU16At_returns {p : Bytes} {i : Nat} (h : i + 1 < p.length) :
    Returns (readU16At p i) fun _ => True := by
  refine (readAt_returns (by omega)).bind fun a _ => ?_
  exact (readAt_returns h).bind fun b _ => returns_ok trivial

@[simp] theorem length_u16ToBe (x : UInt16) : (u16ToBe x).length = 2 := BigEndian.length_encode _ _

@[simp] theorem length_u32ToBe (x : UInt32) : (u32ToBe x).length = 4 := BigEndian.length_encode _ _

/-- Reading where a 16-bit word was written gives it back. -/
theorem readU16At_append (before : Bytes) (x : UInt16) (rest : Bytes) :
    readU16At (before ++ (u16ToBe x ++ rest)) before.length = .ok x := by
  have hx : BigEndian.decode (u16ToBe x) = x.toNat := BigEndian.decode_encode_of_lt x.toNat_lt
  obtain ⟨a, b, hab⟩ : ∃ a b, u16ToBe x = [a, b] := List.length_eq_two.mp (length_u16ToBe x)
  have ha : readAt (before ++ ([a, b] ++ rest)) before.length = .ok a := by
    rw [readAt_eq_ok_iff, List.getElem?_append_right le_rfl, Nat.sub_self]
    rfl
  have hb : readAt (before ++ ([a, b] ++ rest)) (before.length + 1) = .ok b := by
    rw [readAt_eq_ok_iff, List.getElem?_append_right (by omega), Nat.add_sub_cancel_left]
    rfl
  rw [hab] at hx ⊢
  rw [readU16At, ha, hb]
  change Except.ok (u16FromBe a b) = _
  rw [u16FromBe, hx, UInt16.ofNat_toNat]

theorem toNat_u16FromBe (a b : UInt8) : (u16FromBe a b).toNat = a.toNat * 256 + b.toNat := by
  have hlt : BigEndian.decode [a, b] < 256 ^ 2 := BigEndian.decode_lt [a, b]
  have hval : BigEndian.decode [a, b] = a.toNat * 256 + b.toNat := by
    simp only [BigEndian.decode, List.foldl_cons, List.foldl_nil, Nat.zero_mul, Nat.zero_add]
  rw [u16FromBe, UInt16.toNat_ofNat', Nat.mod_eq_of_lt (by omega), hval]

theorem u16ToBe_u16FromBe (a b : UInt8) : u16ToBe (u16FromBe a b) = [a, b] := by
  have hlt : BigEndian.decode [a, b] < 256 ^ 2 := BigEndian.decode_lt [a, b]
  rw [u16ToBe, u16FromBe, UInt16.toNat_ofNat', Nat.mod_eq_of_lt (by omega)]
  exact BigEndian.encode_decode [a, b]

namespace Checksum

/-- Add the 16-bit words of `data`; an odd last byte is the high half of its word. -/
def sumWords (acc : UInt32) : Bytes → UInt32
  | a :: b :: rest => sumWords (acc + (u16FromBe a b).toUInt32) rest
  | [last] => acc + last.toUInt32 <<< 8
  | [] => acc

/-- Fold the carries back in twice and complement. -/
def fold (acc : UInt32) : UInt16 :=
  let once := (acc >>> 16) + (acc &&& 0xffff)
  let twice := once + (once >>> 16)
  ~~~ twice.toUInt16

/-- Checksum of `data` alone (IPv4 header, ICMPv4). -/
def csum (data : Bytes) : UInt16 := fold (sumWords 0 data)

/-- Checksum of a pseudo header followed by `data`. -/
def csumWithPseudo (pseudo data : Bytes) : UInt16 := fold (sumWords (sumWords 0 pseudo) data)

/-- A correct header checksums to zero. -/
def verify (data : Bytes) : Bool := csum data == 0

/-- A correct segment checksums to zero after its pseudo header. -/
def verifyWithPseudo (pseudo data : Bytes) : Bool := csumWithPseudo pseudo data == 0

/-! ## Inversion

The checksum is the complement of a one's complement sum, so writing it into the word that was
zero when it was computed makes the whole sum check. -/

open OnesComplement

theorem toNat_highByte (x : UInt8) : (x.toUInt32 <<< 8).toNat = x.toNat * 256 := by
  have := x.toNat_lt
  simp [UInt32.toNat_shiftLeft, Nat.shiftLeft_eq]
  omega

theorem toNat_highHalf (x : UInt32) : (x >>> 16).toNat = x.toNat / 65536 := by
  simp [UInt32.toNat_shiftRight, Nat.shiftRight_eq_div_pow]

theorem toNat_lowHalf (x : UInt32) : (x &&& 0xffff).toNat = x.toNat % 65536 := by
  rw [UInt32.toNat_and]
  exact Nat.and_two_pow_sub_one_eq_mod _ 16

/-- The halves of a 32-bit number add up without a carry. -/
theorem toNat_halves (x : UInt32) :
    ((x >>> 16) + (x &&& 0xffff)).toNat = x.toNat / 65536 + x.toNat % 65536 := by
  have hx := x.toNat_lt
  rw [UInt32.toNat_add, toNat_highHalf, toNat_lowHalf, Nat.mod_eq_of_lt (by omega)]

/-- The loop computes the sum of the words. -/
theorem toNat_sumWords (acc : UInt32) (data : Bytes) :
    (sumWords acc data).toNat = (acc.toNat + wordSum data) % 2 ^ 32 := by
  induction data using wordSum.induct generalizing acc with
  | case1 a b rest ih =>
    rw [sumWords, ih, UInt32.toNat_add, UInt16.toNat_toUInt32, toNat_u16FromBe,
      wordSum_cons_cons]
    omega
  | case2 last =>
    rw [sumWords, UInt32.toNat_add, toNat_highByte, wordSum]
  | case3 =>
    have := acc.toNat_lt
    rw [sumWords, wordSum]
    omega

/-- Folding computes the complement of the reduced sum. -/
theorem toNat_fold (acc : UInt32) : (fold acc).toNat = 65535 - reduce acc.toNat := by
  have hn := acc.toNat_lt
  have honce := toNat_halves acc
  have hle : acc.toNat / 65536 + acc.toNat % 65536 ≤ 131070 := by omega
  simp only [fold, reduce]
  generalize (acc >>> 16) + (acc &&& 0xffff) = once at honce
  rw [UInt16.toNat_not, UInt32.toNat_toUInt16, UInt32.toNat_add, toNat_highHalf, ← honce]
  rw [← honce] at hle
  simp only [UInt16.size]
  omega

theorem toNat_csumWithPseudo {pseudo data : Bytes} (h : wordSum pseudo + wordSum data < 2 ^ 32) :
    (csumWithPseudo pseudo data).toNat = 65535 - reduce (wordSum pseudo + wordSum data) := by
  rw [csumWithPseudo, toNat_fold, toNat_sumWords, toNat_sumWords, UInt32.toNat_zero, Nat.zero_add,
    Nat.mod_add_mod, Nat.mod_eq_of_lt h]

theorem wordSum_u16ToBe (x : UInt16) : wordSum (u16ToBe x) = x.toNat := wordSum_encode x.toNat_lt

/-- Filling in the checksum at an even offset makes the segment verify. -/
theorem verifyWithPseudo_filled {pseudo before after : Bytes} (heven : 2 ∣ before.length)
    (hfit : pseudo.length + before.length + after.length ≤ 131000) :
    verifyWithPseudo pseudo
      (before ++ (u16ToBe (csumWithPseudo pseudo (before ++ ([0, 0] ++ after))) ++ after)) =
        true := by
  have hp := wordSum_le pseudo
  have hb := wordSum_le before
  have ha := wordSum_le after
  have hzero : wordSum (before ++ ([0, 0] ++ after)) = wordSum before + wordSum after := by
    rw [wordSum_append heven, wordSum_append (by simp)]
    simp [wordSum]
  have hfilled : ∀ x : UInt16, wordSum (before ++ (u16ToBe x ++ after)) =
      wordSum before + x.toNat + wordSum after := fun x => by
    rw [wordSum_append heven, wordSum_append (by simp), wordSum_u16ToBe, Nat.add_assoc]
  generalize hc : csumWithPseudo pseudo (before ++ ([0, 0] ++ after)) = c
  have hcsum : c.toNat = 65535 - reduce (wordSum pseudo + wordSum before + wordSum after) := by
    rw [← hc, toNat_csumWithPseudo (by rw [hzero]; omega), hzero, Nat.add_assoc]
  have hle := c.toNat_lt
  have hsum : (csumWithPseudo pseudo (before ++ (u16ToBe c ++ after))).toNat = 0 := by
    rw [toNat_csumWithPseudo (by rw [hfilled]; omega), hfilled]
    have hcomplete := @reduce_add_complement (wordSum pseudo + wordSum before + wordSum after)
      (by omega)
    rw [← hcsum] at hcomplete
    have hcomm : wordSum pseudo + (wordSum before + c.toNat + wordSum after) =
        wordSum pseudo + wordSum before + wordSum after + c.toNat := by omega
    rw [hcomm, hcomplete]
  rw [verifyWithPseudo, beq_iff_eq]
  exact UInt16.toNat_inj.mp hsum

/-- The same without a pseudo header. -/
theorem verify_filled {before after : Bytes} (heven : 2 ∣ before.length)
    (hfit : before.length + after.length ≤ 131000) :
    verify (before ++ (u16ToBe (csum (before ++ ([0, 0] ++ after))) ++ after)) = true :=
  @verifyWithPseudo_filled [] before after heven (by simpa using hfit)

end Checksum

end Udp2raw
