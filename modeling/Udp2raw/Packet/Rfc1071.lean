import Udp2raw.Packet.Ip

/-!
# The checksum against its RFCs

The source adds 16-bit words into a 32-bit accumulator and folds the carries
twice. With the overflow check on every addition the result is the same, and it
is the complement of the one's complement sum of RFC 1071. The IPv6 pseudo
header has its length in the other half of the length field than RFC 8200,
which moves no word to another weight.
-/

namespace Udp2raw

open Checked

namespace Checksum

open OnesComplement

/-- Addition of `u32` with its overflow check. -/
def addU32 (a b : UInt32) : Except Panic UInt32 :=
  if a.toNat + b.toNat < 2 ^ 32 then .ok (a + b) else .error .overflow

/-- `sum_words` with the overflow check of each addition. -/
def sumWordsChecked (acc : UInt32) : Bytes → Except Panic UInt32
  | a :: b :: rest => do sumWordsChecked (← addU32 acc (u16FromBe a b).toUInt32) rest
  | [last] => addU32 acc (last.toUInt32 <<< 8)
  | [] => .ok acc

/-- `fold` with the overflow check of each addition. -/
def foldChecked (acc : UInt32) : Except Panic UInt16 := do
  let once ← addU32 (acc >>> 16) (acc &&& 0xffff)
  let twice ← addU32 once (once >>> 16)
  return ~~~ twice.toUInt16

/-- `csum_with_pseudo` with every overflow check. -/
def csumWithPseudoChecked (pseudo data : Bytes) : Except Panic UInt16 := do
  foldChecked (← sumWordsChecked (← sumWordsChecked 0 pseudo) data)

/-- A sum that fits does not overflow. -/
theorem sumWordsChecked_eq_ok {acc : UInt32} {data : Bytes}
    (h : acc.toNat + wordSum data < 2 ^ 32) :
    sumWordsChecked acc data = .ok (sumWords acc data) := by
  induction data using wordSum.induct generalizing acc with
  | case1 a b rest ih =>
    have hword : (u16FromBe a b).toUInt32.toNat = a.toNat * 256 + b.toNat := by
      rw [UInt16.toNat_toUInt32, toNat_u16FromBe]
    rw [wordSum_cons_cons] at h
    have hadd : addU32 acc (u16FromBe a b).toUInt32 = .ok (acc + (u16FromBe a b).toUInt32) := by
      apply if_pos
      omega
    have hsum : (acc + (u16FromBe a b).toUInt32).toNat =
        acc.toNat + (a.toNat * 256 + b.toNat) := by
      rw [UInt32.toNat_add, hword]
      omega
    rw [sumWordsChecked, hadd, ok_bind, ih (by omega)]
    rfl
  | case2 last =>
    have hlast := toNat_highByte last
    rw [wordSum] at h
    apply if_pos
    omega
  | case3 => rfl

/-- Folding does not overflow. -/
theorem foldChecked_eq_ok (acc : UInt32) : foldChecked acc = .ok (fold acc) := by
  have hn := acc.toNat_lt
  have honce := toNat_halves acc
  have hfirst : addU32 (acc >>> 16) (acc &&& 0xffff) = .ok ((acc >>> 16) + (acc &&& 0xffff)) := by
    apply if_pos
    rw [toNat_highHalf, toNat_lowHalf]
    omega
  rw [foldChecked, fold, hfirst, ok_bind]
  generalize (acc >>> 16) + (acc &&& 0xffff) = once at honce
  have hsecond : addU32 once (once >>> 16) = .ok (once + (once >>> 16)) := by
    apply if_pos
    rw [toNat_highHalf]
    omega
  rw [hsecond, ok_bind]
  rfl

/-- The accumulator has room for a packet and its pseudo header. -/
theorem wordSum_fits {pseudo data : Bytes} (hp : pseudo.length ≤ 40) (hd : data.length ≤ 65575) :
    wordSum pseudo + wordSum data < 2 ^ 32 := by
  have hpseudo := wordSum_le pseudo
  have hdata := wordSum_le data
  omega

/-- The checksum does not overflow. -/
theorem csumWithPseudoChecked_eq_ok {pseudo data : Bytes}
    (h : wordSum pseudo + wordSum data < 2 ^ 32) :
    csumWithPseudoChecked pseudo data = .ok (csumWithPseudo pseudo data) := by
  have hpseudo : sumWordsChecked 0 pseudo = .ok (sumWords 0 pseudo) :=
    sumWordsChecked_eq_ok (by rw [UInt32.toNat_zero]; omega)
  have hacc : (sumWords 0 pseudo).toNat = wordSum pseudo := by
    rw [toNat_sumWords, UInt32.toNat_zero, Nat.zero_add, Nat.mod_eq_of_lt (by omega)]
  rw [csumWithPseudoChecked, hpseudo, ok_bind, sumWordsChecked_eq_ok (by rw [hacc]; omega),
    ok_bind, foldChecked_eq_ok]
  rfl

/-- RFC 1071: the checksum is the complement of the one's complement sum. -/
theorem csumWithPseudo_eq_not_sum {pseudo data : Bytes} (heven : 2 ∣ pseudo.length)
    (h : wordSum pseudo + wordSum data < 2 ^ 32) :
    csumWithPseudo pseudo data = ~~~ UInt16.ofNat (sum (pseudo ++ data)) := by
  have happend := wordSum_append heven data
  have hsum : reduce (wordSum (pseudo ++ data)) = sum (pseudo ++ data) :=
    reduce_wordSum (by rw [happend]; exact h)
  have hle := reduce_le (wordSum (pseudo ++ data))
  apply UInt16.toNat_inj.mp
  rw [toNat_csumWithPseudo h, ← happend, UInt16.toNat_not, UInt16.toNat_ofNat', ← hsum,
    Nat.mod_eq_of_lt (by omega)]
  rfl

/-- Data with a zero field is what is left and right of the field around two zero bytes. -/
theorem eq_append_zero_field {data : Bytes} {offset : Nat} (h0 : data[offset]? = some 0)
    (h1 : data[offset + 1]? = some 0) :
    data = data.take offset ++ ([0, 0] ++ data.drop (offset + 2)) := by
  obtain ⟨hlt0, h0⟩ := List.getElem?_eq_some_iff.mp h0
  obtain ⟨hlt1, h1⟩ := List.getElem?_eq_some_iff.mp h1
  conv_lhs => rw [← List.take_append_drop offset data, List.drop_eq_getElem_cons hlt0,
    List.drop_eq_getElem_cons hlt1, h0, h1]
  rfl

/-- A checksum stored into its zero field at an even offset makes the data verify. -/
theorem verifyWithPseudo_putU16 {pseudo data : Bytes} {offset : Nat} (hp : pseudo.length ≤ 40)
    (hd : data.length ≤ 65575) (heven : 2 ∣ offset) (h0 : data[offset]? = some 0)
    (h1 : data[offset + 1]? = some 0) :
    verifyWithPseudo pseudo (putU16 data offset (csumWithPseudo pseudo data)) = true := by
  have hlt := (List.getElem?_eq_some_iff.mp h0).1
  have htake : (data.take offset).length = offset := List.length_take_of_le hlt.le
  have hfilled := @verifyWithPseudo_filled pseudo (data.take offset) (data.drop (offset + 2))
    (by rwa [htake]) (by rw [htake, List.length_drop]; omega)
  rwa [← eq_append_zero_field h0 h1] at hfilled

/-- The pseudo header of RFC 8200: addresses, 32-bit length, three zero bytes, next header. -/
def rfc8200PseudoHeader (src dst : Vector UInt8 16) (protocol : UInt8) (len : Nat) : Bytes :=
  src.toList ++ dst.toList ++ BigEndian.encode 4 len ++ [0, 0, 0] ++ [protocol]

/-- A length of 16 bits leaves the first half of its 32-bit field zero. -/
theorem encode_four {len : Nat} (h : len ≤ 65535) :
    BigEndian.encode 4 len = [0, 0] ++ BigEndian.encode 2 len := by
  have hhigh : len / 256 / 256 = 0 := by omega
  have hzero : BigEndian.encode 2 (len / 256 / 256) = [0, 0] := by
    rw [hhigh]
    rfl
  change BigEndian.encode 2 (len / 256 / 256) ++ [UInt8.ofNat (len / 256)] ++ [UInt8.ofNat len] = _
  rw [hzero]
  rfl

/-- The length of the source's IPv6 pseudo header stands in the other half of its field, which
adds up to the same sum. -/
theorem sumWords_pseudoHeader (src dst : Vector UInt8 16) (protocol : UInt8) {len : Nat}
    (h : len ≤ 65535) :
    ∃ pseudo, pseudoHeader (.v6 src) (.v6 dst) protocol len = .ok pseudo ∧
      ∀ acc, sumWords acc pseudo = sumWords acc (rfc8200PseudoHeader src dst protocol len) := by
  refine ⟨_, rfl, fun acc => UInt32.toNat_inj.mp ?_⟩
  have hsrc : 2 ∣ src.toList.length := by simp
  have hdst : 2 ∣ dst.toList.length := by simp
  have hlen : 2 ∣ (BigEndian.encode 2 len).length := by simp
  rw [toNat_sumWords, toNat_sumWords, rfc8200PseudoHeader, encode_four h]
  simp only [List.append_assoc, wordSum_append hsrc, wordSum_append hdst, wordSum_append hlen,
    List.cons_append, List.nil_append, wordSum_cons_cons, UInt8.toNat_zero, Nat.zero_mul,
    Nat.zero_add]

/-- The checksum arithmetic against its RFCs. For data of at most 65575 bytes after a pseudo header
of even length at most 40, no addition overflows and the checksum is the complement of the one's
complement sum. Stored into its zero field it makes the data verify. The IPv6 pseudo header sums
like the one of RFC 8200. -/
theorem checksum_matches_rfcs :
    (∀ pseudo data : Bytes, 2 ∣ pseudo.length → pseudo.length ≤ 40 → data.length ≤ 65575 →
      csumWithPseudoChecked pseudo data = .ok (csumWithPseudo pseudo data) ∧
        csumWithPseudo pseudo data = ~~~ UInt16.ofNat (sum (pseudo ++ data)) ∧
        csum data = ~~~ UInt16.ofNat (sum data)) ∧
      (∀ (pseudo data : Bytes) (offset : Nat), 2 ∣ pseudo.length → pseudo.length ≤ 40 →
        data.length ≤ 65575 → 2 ∣ offset → data[offset]? = some 0 → data[offset + 1]? = some 0 →
        verifyWithPseudo pseudo (putU16 data offset (csumWithPseudo pseudo data)) = true ∧
          verify (putU16 data offset (csum data)) = true) ∧
      ∀ (src dst : Vector UInt8 16) (protocol : UInt8) (len : Nat), len ≤ 65535 →
        ∃ pseudo, pseudoHeader (.v6 src) (.v6 dst) protocol len = .ok pseudo ∧
          ∀ acc, sumWords acc pseudo = sumWords acc (rfc8200PseudoHeader src dst protocol len) := by
  refine ⟨?_, ?_, ?_⟩
  · intro pseudo data heven hp hd
    have hfits := wordSum_fits hp hd
    exact ⟨csumWithPseudoChecked_eq_ok hfits, csumWithPseudo_eq_not_sum heven hfits,
      @csumWithPseudo_eq_not_sum [] data (by simp) (wordSum_fits (Nat.zero_le _) hd)⟩
  · intro pseudo data offset _ hp hd heven h0 h1
    exact ⟨verifyWithPseudo_putU16 hp hd heven h0 h1,
      @verifyWithPseudo_putU16 [] data offset (Nat.zero_le _) hd heven h0 h1⟩
  · intro src dst protocol len hlen
    exact sumWords_pseudoHeader src dst protocol hlen

/-- The worked example of RFC 1071 in the source's tests, its checksum field still zero. -/
def exampleHeader : Bytes :=
  [0x45, 0x00, 0x00, 0x73, 0x00, 0x00, 0x40, 0x00, 0x40, 0x11, 0x00, 0x00,
    0xc0, 0xa8, 0x00, 0x01, 0xc0, 0xa8, 0x00, 0xc7]

theorem checksum_matches_rfcs_exampleHeader :
    csum exampleHeader = 0xb861 ∧ csum exampleHeader = ~~~ UInt16.ofNat (sum exampleHeader) ∧
      verify (putU16 exampleHeader 10 (csum exampleHeader)) = true ∧
      ∃ pseudo, pseudoHeader (.v6 (.replicate 16 1)) (.v6 (.replicate 16 2)) 17 65535 = .ok pseudo ∧
        ∀ acc, sumWords acc pseudo =
          sumWords acc (rfc8200PseudoHeader (.replicate 16 1) (.replicate 16 2) 17 65535) :=
  ⟨by decide,
    (checksum_matches_rfcs.1 [] exampleHeader (by decide) (by decide) (by decide)).2.2,
    (checksum_matches_rfcs.2.1 [] exampleHeader 10 (by decide) (by decide) (by decide) (by decide)
      (by decide) (by decide)).2,
    checksum_matches_rfcs.2.2 _ _ 17 65535 (by decide)⟩

end Checksum

end Udp2raw
