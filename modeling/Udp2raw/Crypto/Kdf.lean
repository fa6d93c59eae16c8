import Udp2raw.Core.BlockFill
import Udp2raw.Crypto.Keys

/-!
# Key derivation against its RFCs

HMAC over an incremental hash with the two padded keys absorbed in advance, and
the two loops that fill an output buffer from it. Each is compared with the
function of its RFC. The loops count their blocks in a machine integer and
increment it once more after the last block; a build with overflow checks aborts
where that increment leaves the type.
-/

namespace Udp2raw

open Checked

namespace Kdf

/-- A hash computed piece by piece: what was absorbed piece by piece counts as one string. -/
structure IncrementalHash (n : Nat) where
  State : Type
  new : State
  update : State → Bytes → State
  finalize : State → FixedBytes n
  /-- The hash of a whole string. -/
  digest : Bytes → FixedBytes n
  finalize_updates : ∀ parts : List Bytes,
    finalize (parts.foldl update new) = digest parts.flatten

/-- The incremental hash that keeps everything it absorbs. -/
def IncrementalHash.ofDigest {n : Nat} (digest : Bytes → FixedBytes n) : IncrementalHash n where
  State := Bytes
  new := []
  update := (· ++ ·)
  finalize := digest
  digest := digest
  finalize_updates := fun parts => by
    have hfold := @List.foldl_append_eq_append _ _ parts id []
    rw [List.map_id, List.nil_append] at hfold
    exact congrArg digest hfold

/-! ## The RFCs -/

/-- RFC 2104 with a block size of 64: `H(K ⊕ opad, H(K ⊕ ipad, text))`, a longer key hashed
first. -/
def rfc2104 {n : Nat} (hash : Bytes → FixedBytes n) (key text : Bytes) : FixedBytes n :=
  let k := if key.length > 64 then (hash key).toList else key
  let padded := k ++ List.replicate (64 - k.length) 0
  hash (List.zipWith (· ^^^ ·) padded (List.replicate 64 0x5c) ++
    (hash (List.zipWith (· ^^^ ·) padded (List.replicate 64 0x36) ++ text)).toList)

section

variable (prf : Bytes → FixedBytes 32)

/-- `U_1 = PRF(S || INT(i))` and `U_{j+1} = PRF(U_j)` of RFC 8018, counted from zero. -/
def rfc8018Chain (salt : Bytes) (i : Nat) : Nat → FixedBytes 32
  | 0 => prf (salt ++ BigEndian.encode 4 i)
  | j + 1 => prf (rfc8018Chain salt i j).toList

/-- `T_i = U_1 ⊕ … ⊕ U_c`. -/
def rfc8018Block (salt : Bytes) (c i : Nat) : FixedBytes 32 :=
  ((List.range c).map (rfc8018Chain prf salt i)).foldl xorBytes (List.Vector.replicate 32 0)

/-- PBKDF2 of RFC 8018: `l - 1` whole blocks and the first `r` bytes of the last one. -/
def rfc8018 (salt : Bytes) (c dkLen : Nat) : Bytes :=
  let l := (dkLen + 31) / 32
  let r := dkLen - (l - 1) * 32
  ((List.range' 1 (l - 1)).flatMap fun i => (rfc8018Block prf salt c i).toList) ++
    (rfc8018Block prf salt c l).toList.take r

/-- `T(0)` is empty and `T(i) = HMAC(PRK, T(i-1) | info | i)` in RFC 5869. -/
def rfc5869Block (info : Bytes) : Nat → Bytes
  | 0 => []
  | i + 1 => (prf (rfc5869Block info i ++ info ++ [UInt8.ofNat (i + 1)])).toList

/-- HKDF-Expand of RFC 5869: the first `len` bytes of `T(1) | T(2) | …`. -/
def rfc5869 (info : Bytes) (len : Nat) : Bytes :=
  ((List.range' 1 ((len + 31) / 32)).flatMap (rfc5869Block prf info)).take len

end

/-! ## The source -/

/-- How `+=` on a machine integer is compiled: checked in a debug build, wrapping in a release
build. -/
inductive Build where
  | debug
  | release
  deriving DecidableEq, Repr

/-- `block_index += 1` on a `u32`. -/
def Build.incU32 (build : Build) (x : UInt32) : Except Panic UInt32 :=
  if build = .debug ∧ x.toNat + 1 ≥ 2 ^ 32 then .error .overflow else .ok (x + 1)

/-- `counter += 1` on a `u8`. -/
def Build.incU8 (build : Build) (x : UInt8) : Except Panic UInt8 :=
  if build = .debug ∧ x.toNat + 1 ≥ 2 ^ 8 then .error .overflow else .ok (x + 1)

section

variable (H : IncrementalHash 32)

/-- `HmacSha256`: the two hash states after the padded key. -/
structure HmacSha256 where
  inner : H.State
  outer : H.State

variable {H}

/-- `HmacSha256::new`. -/
def HmacSha256.new (key : Bytes) : HmacSha256 H :=
  let k := hmacKeyBlock H.digest key
  { inner := H.update H.new (k.map (0x36 ^^^ ·)), outer := H.update H.new (k.map (0x5c ^^^ ·)) }

/-- `HmacSha256::mac_parts`. -/
def HmacSha256.macParts (h : HmacSha256 H) (parts : List Bytes) : FixedBytes 32 :=
  let inner := parts.foldl H.update h.inner
  H.finalize (H.update h.outer (H.finalize inner).toList)

/-- `HmacSha256::mac`. -/
def HmacSha256.mac (h : HmacSha256 H) (data : Bytes) : FixedBytes 32 := h.macParts [data]

/-- One output block of `pbkdf2_hmac_sha256`: the loop `for _ in 1..iterations`. -/
def pbkdf2Block (prf : HmacSha256 H) (salt : Bytes) (iterations blockIndex : UInt32) :
    FixedBytes 32 :=
  let u := prf.macParts [salt, u32ToBe blockIndex]
  let step := fun ut : FixedBytes 32 × FixedBytes 32 =>
    let u := prf.mac ut.1.toList
    (u, xorBytes ut.2 u)
  (Nat.iterate step (iterations.toNat - 1) (u, u)).2

/-- One turn of the loop of `pbkdf2_hmac_sha256`. -/
def pbkdf2Step (build : Build) (prf : HmacSha256 H) (salt : Bytes) (iterations : UInt32)
    (blockIndex : UInt32) : Except Panic (FixedBytes 32 × UInt32) := do
  let t := pbkdf2Block prf salt iterations blockIndex
  return (t, ← build.incU32 blockIndex)

/-- One turn of the loop of `hkdf_sha256_expand`, from the previous block and the counter. -/
def hkdfStep (build : Build) (prf : HmacSha256 H) (info : Bytes) (s : Bytes × UInt8) :
    Except Panic (FixedBytes 32 × Bytes × UInt8) := do
  let t := prf.macParts [s.1, info, [s.2]]
  return (t, t.toList, ← build.incU8 s.2)

variable (H)

/-- `pbkdf2_hmac_sha256` filling a slice of `n` bytes. -/
def pbkdf2HmacSha256 (build : Build) (password salt : Bytes) (iterations : UInt32) (n : Nat) :
    Except Panic Bytes :=
  BlockFill.fill (pbkdf2Step build (.new password : HmacSha256 H) salt iterations) n 1 []

/-- `hkdf_sha256_expand` filling a slice of `n` bytes. -/
def hkdfSha256Expand (build : Build) (prk info : Bytes) (n : Nat) : Except Panic Bytes := do
  if prk.length < 32 then throw .explicit
  if n > 255 * 32 then throw .explicit
  BlockFill.fill (hkdfStep build (.new prk : HmacSha256 H) info) n ([], 1) []

variable {H}

/-! ## HMAC -/

/-- A key is padded to a block. -/
theorem length_hmacKeyBlock (key : Bytes) : (hmacKeyBlock H.digest key).length = 64 := by
  unfold hmacKeyBlock
  dsimp only
  split
  · simp
  · rw [List.length_append, List.length_replicate]
    omega

/-- Padding with a constant is a map over the key block. -/
theorem zipWith_replicate_pad (xs : Bytes) (c : UInt8) :
    List.zipWith (· ^^^ ·) xs (List.replicate xs.length c) = xs.map (c ^^^ ·) := by
  induction xs with
  | nil => rfl
  | cons x xs ih =>
    rw [List.length_cons, List.replicate_succ, List.zipWith_cons_cons, ih, List.map_cons,
      UInt8.xor_comm]

/-- The precomputed states give the HMAC of the parts in a row. -/
theorem macParts_new (key : Bytes) (parts : List Bytes) :
    (HmacSha256.new key : HmacSha256 H).macParts parts =
      rfc2104 H.digest key parts.flatten := by
  have hinner := H.finalize_updates ((hmacKeyBlock H.digest key).map (0x36 ^^^ ·) :: parts)
  have houter := fun mid : Bytes =>
    H.finalize_updates [(hmacKeyBlock H.digest key).map (0x5c ^^^ ·), mid]
  have hlen := @length_hmacKeyBlock H key
  simp only [List.foldl_cons, List.foldl_nil, List.flatten_cons, List.flatten_nil,
    List.append_nil] at hinner houter
  simp only [HmacSha256.macParts, HmacSha256.new, hinner, houter]
  rw [← zipWith_replicate_pad, ← zipWith_replicate_pad, hlen]
  rfl

/-- The source's HMAC is the standard's. -/
theorem mac_new (key data : Bytes) :
    (HmacSha256.new key : HmacSha256 H).mac data = rfc2104 H.digest key data := by
  rw [HmacSha256.mac, macParts_new, List.flatten_cons, List.flatten_nil, List.append_nil]

/-! ## PBKDF2 -/

variable {n i : Nat} {iterations : UInt32} {build : Build} {prk : Bytes}

theorem zero_xorBytes (a : FixedBytes n) : xorBytes (List.Vector.replicate n 0) a = a := by
  apply List.Vector.ext
  intro i
  simp [xorBytes, List.Vector.zipWith_get]

theorem rfc8018Block_succ (prf : Bytes → FixedBytes 32) (salt : Bytes) (c i : Nat) :
    rfc8018Block prf salt (c + 1) i =
      xorBytes (rfc8018Block prf salt c i) (rfc8018Chain prf salt i c) := by
  rw [rfc8018Block, List.range_succ, List.map_append, List.foldl_append]
  rfl

/-- The inner loop keeps the last link of the chain and the sum so far. -/
theorem iterate_chain (prf : Bytes → FixedBytes 32) (salt : Bytes) (i k : Nat) :
    Nat.iterate (fun ut : FixedBytes 32 × FixedBytes 32 =>
        (prf ut.1.toList, xorBytes ut.2 (prf ut.1.toList))) k
        (rfc8018Chain prf salt i 0, rfc8018Chain prf salt i 0) =
      (rfc8018Chain prf salt i k, rfc8018Block prf salt (k + 1) i) := by
  induction k with
  | zero =>
    rw [rfc8018Block_succ, rfc8018Block, List.range_zero, List.map_nil, List.foldl_nil,
      zero_xorBytes]
    rfl
  | succ k ih =>
    rw [Function.iterate_succ_apply', ih, rfc8018Block_succ prf salt (k + 1)]
    rfl

theorem u32ToBe_ofNat {i : Nat} (h : i < 2 ^ 32) :
    u32ToBe (UInt32.ofNat i) = BigEndian.encode 4 i := by
  rw [u32ToBe, UInt32.toNat_ofNat', Nat.mod_eq_of_lt h]

/-- A block of the source is a block of the standard. -/
theorem pbkdf2Block_eq (password salt : Bytes) (h : 1 ≤ iterations.toNat) (hi : i < 2 ^ 32) :
    pbkdf2Block (HmacSha256.new password : HmacSha256 H) salt iterations (UInt32.ofNat i) =
      rfc8018Block (rfc2104 H.digest password) salt iterations.toNat i := by
  have hindex := u32ToBe_ofNat hi
  have hchain := iterate_chain (rfc2104 H.digest password) salt i (iterations.toNat - 1)
  simp only [pbkdf2Block, mac_new, macParts_new, hindex, List.flatten_cons, List.flatten_nil,
    List.append_nil]
  rw [Nat.sub_add_cancel h] at hchain
  exact congrArg Prod.snd hchain

/-- A counter that fits is incremented in both builds. -/
theorem Build.incU32_ofNat (h : build = .debug → i + 1 < 2 ^ 32) (hi : i < 2 ^ 32) :
    build.incU32 (UInt32.ofNat i) = .ok (UInt32.ofNat (i + 1)) := by
  rw [Build.incU32, UInt32.toNat_ofNat', Nat.mod_eq_of_lt hi, UInt32.ofNat_add]
  apply if_neg
  rintro ⟨hdebug, hover⟩
  have := h hdebug
  omega

/-- A turn writes the block of its index and goes on with the next index. -/
theorem pbkdf2Step_eq (build : Build) (password salt : Bytes) (h : 1 ≤ iterations.toNat)
    (hi : i + 1 < 2 ^ 32) :
    pbkdf2Step build (.new password : HmacSha256 H) salt iterations (UInt32.ofNat i) =
      .ok (rfc8018Block (rfc2104 H.digest password) salt iterations.toNat i,
        UInt32.ofNat (i + 1)) := by
  rw [pbkdf2Step, Build.incU32_ofNat (fun _ => hi) (by omega),
    pbkdf2Block_eq password salt h (by omega)]
  rfl

/-- The whole blocks of `pbkdf2_hmac_sha256` from index `i` on. -/
theorem run_pbkdf2 (build : Build) (password salt : Bytes) {iterations : UInt32}
    (h : 1 ≤ iterations.toNat) {i k : Nat} (hfit : i + k < 2 ^ 32) :
    BlockFill.run (pbkdf2Step build (.new password : HmacSha256 H) salt iterations) k
        (UInt32.ofNat i) =
      .ok ((List.range' i k).flatMap fun j =>
        (rfc8018Block (rfc2104 H.digest password) salt iterations.toNat j).toList) := by
  induction k generalizing i with
  | zero => rfl
  | succ k ih =>
    rw [BlockFill.run, pbkdf2Step_eq build password salt h (by omega), ok_bind, ih (by omega),
      List.range'_succ, List.flatMap_cons]
    rfl

/-- The block index is never incremented past its type. -/
theorem pbkdf2_turns (build : Build) (password salt : Bytes) (h : 1 ≤ iterations.toNat)
    (hn : n ≤ 32 * (2 ^ 32 - 2)) :
    ∀ blockIndex ∈ BlockFill.turns
        (pbkdf2Step build (.new password : HmacSha256 H) salt iterations) n 1 0,
      blockIndex.toNat + 1 < 2 ^ 32 := by
  have hturns : BlockFill.turns (pbkdf2Step build (.new password : HmacSha256 H) salt iterations) n
      (UInt32.ofNat 1) 0 = (List.range' 1 ((n + 31) / 32)).map UInt32.ofNat :=
    BlockFill.turns_eq_map (by omega) (by omega) fun j _ hj =>
      ⟨_, pbkdf2Step_eq build password salt h (by omega)⟩
  intro blockIndex hmem
  rw [show (1 : UInt32) = UInt32.ofNat 1 from rfl, hturns, List.mem_map] at hmem
  obtain ⟨j, hj, rfl⟩ := hmem
  rw [List.mem_range'_1] at hj
  rw [UInt32.toNat_ofNat', Nat.mod_eq_of_lt (by omega)]
  omega

/-- Blocks in a row, cut off inside the last one. -/
theorem take_flatMap_blocks (block : Nat → FixedBytes 32) (n : Nat) :
    ((List.range' 1 ((n + 31) / 32)).flatMap fun i => (block i).toList).take n =
      ((List.range' 1 ((n + 31) / 32 - 1)).flatMap fun i => (block i).toList) ++
        (block ((n + 31) / 32)).toList.take (n - ((n + 31) / 32 - 1) * 32) := by
  have hlen : ∀ k, ((List.range' 1 k).flatMap fun i => (block i).toList).length = k * 32 := by
    intro k
    simp [List.length_flatMap]
  rcases Nat.eq_zero_or_pos n with rfl | hpos
  · simp
  · obtain ⟨l, hl⟩ : ∃ l, (n + 31) / 32 = l + 1 := ⟨(n + 31) / 32 - 1, by omega⟩
    rw [hl, List.range'_1_concat, List.flatMap_append, List.take_append, hlen,
      List.take_of_length_le (by rw [hlen]; omega), Nat.add_sub_cancel, Nat.add_comm 1 l]
    simp

/-- The source computes the standard's PBKDF2. -/
theorem pbkdf2HmacSha256_eq (build : Build) (password salt : Bytes) (h : 1 ≤ iterations.toNat)
    (hn : n ≤ 32 * (2 ^ 32 - 2)) :
    pbkdf2HmacSha256 H build password salt iterations n =
      .ok (rfc8018 (rfc2104 H.digest password) salt iterations.toNat n) := by
  have hrun := @run_pbkdf2 H build password salt iterations h 1 ((n + 31) / 32) (by omega)
  rw [pbkdf2HmacSha256, BlockFill.fill_nil (k := (n + 31) / 32) (by omega) (by omega),
    show (1 : UInt32) = UInt32.ofNat 1 from rfl, hrun]
  exact congrArg Except.ok (take_flatMap_blocks _ n)

/-! ## HKDF-Expand -/

theorem Build.incU8_ofNat (h : build = .debug → i + 1 < 2 ^ 8) :
    build.incU8 (UInt8.ofNat i) = .ok (UInt8.ofNat (i + 1)) := by
  rw [Build.incU8, UInt8.ofNat_add]
  apply if_neg
  rintro ⟨hdebug, hover⟩
  have := h hdebug
  rw [UInt8.toNat_ofNat', Nat.mod_eq_of_lt (by omega)] at hover
  omega

/-- A turn from the block before and its number gives the next block and its number. -/
theorem hkdfStep_eq {build : Build} (prk info : Bytes) {i : Nat}
    (h : build = .debug → i + 2 < 2 ^ 8) :
    hkdfStep build (.new prk : HmacSha256 H) info
        (rfc5869Block (rfc2104 H.digest prk) info i, UInt8.ofNat (i + 1)) =
      .ok (rfc2104 H.digest prk
          (rfc5869Block (rfc2104 H.digest prk) info i ++ info ++ [UInt8.ofNat (i + 1)]),
        rfc5869Block (rfc2104 H.digest prk) info (i + 1), UInt8.ofNat (i + 2)) := by
  rw [hkdfStep, Build.incU8_ofNat h, macParts_new, List.flatten_cons, List.flatten_cons,
    List.flatten_cons, List.flatten_nil, List.append_nil, ← List.append_assoc]
  rfl

/-- The whole blocks of `hkdf_sha256_expand` after block `i`. -/
theorem run_hkdf {build : Build} (prk info : Bytes) {i k : Nat}
    (hfit : build = .debug → i + k < 255) :
    BlockFill.run (hkdfStep build (.new prk : HmacSha256 H) info) k
        (rfc5869Block (rfc2104 H.digest prk) info i, UInt8.ofNat (i + 1)) =
      .ok ((List.range' (i + 1) k).flatMap (rfc5869Block (rfc2104 H.digest prk) info)) := by
  induction k generalizing i with
  | zero => rfl
  | succ k ih =>
    have hstep := @hkdfStep_eq H build prk info i fun hdebug => by
      have := hfit hdebug
      omega
    have hrest := @ih (i + 1) fun hdebug => by
      have := hfit hdebug
      omega
    rw [BlockFill.run, hstep, ok_bind, hrest, List.range'_succ, List.flatMap_cons]
    rfl

/-- With overflow checks the increment behind block 255 aborts. -/
theorem run_hkdf_overflow (prk info : Bytes) {k : Nat} (hk : i + k = 254) :
    BlockFill.run (hkdfStep .debug (.new prk : HmacSha256 H) info) (k + 1)
        (rfc5869Block (rfc2104 H.digest prk) info i, UInt8.ofNat (i + 1)) =
      .error .overflow := by
  induction k generalizing i with
  | zero =>
    have hi : i = 254 := hk
    subst hi
    rfl
  | succ k ih =>
    have hstep := @hkdfStep_eq H .debug prk info i fun _ => by omega
    rw [BlockFill.run, hstep, ok_bind, @ih (i + 1) (by omega)]
    rfl

/-- The expansion fills blocks. -/
theorem hkdfSha256Expand_fill (build : Build) (info : Bytes) (hprk : 32 ≤ prk.length)
    (hn : n ≤ 255 * 32) :
    hkdfSha256Expand H build prk info n = (·.take n) <$>
      BlockFill.run (hkdfStep build (.new prk : HmacSha256 H) info) ((n + 31) / 32)
        (rfc5869Block (rfc2104 H.digest prk) info 0, UInt8.ofNat 1) := by
  rw [hkdfSha256Expand, if_neg (Nat.not_lt.mpr hprk), if_neg (Nat.not_lt.mpr hn)]
  exact BlockFill.fill_nil (by omega) (by omega)

/-- The source computes the standard's HKDF. -/
theorem hkdfSha256Expand_eq (info : Bytes) (hprk : 32 ≤ prk.length) (hn : n ≤ 255 * 32)
    (hfit : build = .debug → n ≤ 254 * 32) :
    hkdfSha256Expand H build prk info n = .ok (rfc5869 (rfc2104 H.digest prk) info n) := by
  have hrun := @run_hkdf H build prk info 0 ((n + 31) / 32) fun hdebug => by
    have := hfit hdebug
    omega
  rw [hkdfSha256Expand_fill build info hprk hn, hrun]
  rfl

/-- A debug build panics at the last block. -/
theorem hkdfSha256Expand_overflow (info : Bytes) (hprk : 32 ≤ prk.length) (hn : n ≤ 255 * 32)
    (hlast : 254 * 32 < n) : hkdfSha256Expand H .debug prk info n = .error .overflow := by
  have hblocks : (n + 31) / 32 = 254 + 1 := by omega
  rw [hkdfSha256Expand_fill .debug info hprk hn, hblocks, run_hkdf_overflow prk info (by omega)]
  rfl

/-- No increment of the counter leaves its type exactly if there are at most 254 blocks. In a
debug build the last of 255 increments aborts, in a release build it wraps. -/
theorem hkdf_turns (build : Build) (prk info : Bytes) (hn : n ≤ 255 * 32) :
    (∀ s ∈ BlockFill.turns (hkdfStep build (.new prk : HmacSha256 H) info) n ([], 1) 0,
      s.2.toNat + 1 < 2 ^ 8) ↔ n ≤ 254 * 32 := by
  let state i := (rfc5869Block (rfc2104 H.digest prk) info i, UInt8.ofNat (i + 1))
  have hturns : BlockFill.turns (hkdfStep build (.new prk : HmacSha256 H) info) n (state 0) 0 =
      (List.range' 0 ((n + 31) / 32)).map state :=
    BlockFill.turns_eq_map (by omega) (by omega) fun j _ hj =>
      ⟨_, hkdfStep_eq prk info fun _ => by omega⟩
  have hcounter : ∀ j < 255, (UInt8.ofNat (j + 1)).toNat = j + 1 := fun j hj => by
    rw [UInt8.toNat_ofNat', Nat.mod_eq_of_lt (by omega)]
  rw [show (([], 1) : Bytes × UInt8) = state 0 from rfl, hturns]
  simp only [List.forall_mem_map, List.mem_range'_1]
  constructor
  · intro hfits
    by_contra hlong
    have hlast := hfits 254 (by omega)
    rw [hcounter 254 (by omega)] at hlast
    omega
  · intro hshort j hj
    rw [hcounter j (by omega)]
    omega

/-- HMAC, PBKDF2 and HKDF-Expand over any incremental hash compute the functions of their RFCs,
and no increment of their counters leaves its type, with one exception: in either build that is so
for HKDF-Expand exactly up to 254 blocks of output. Behind the 255th block a debug build aborts,
and a release build returns the right output although its counter has wrapped. -/
theorem kdf_follows_rfcs (H : IncrementalHash 32) :
    (∀ (key : Bytes) (parts : List Bytes), (HmacSha256.new key : HmacSha256 H).macParts parts =
      rfc2104 H.digest key parts.flatten) ∧
    (∀ (build : Build) (password salt : Bytes) (iterations : UInt32) (n : Nat),
      1 ≤ iterations.toNat → n ≤ 32 * (2 ^ 32 - 2) →
      pbkdf2HmacSha256 H build password salt iterations n =
          .ok (rfc8018 (rfc2104 H.digest password) salt iterations.toNat n) ∧
        ∀ blockIndex ∈ BlockFill.turns
            (pbkdf2Step build (.new password : HmacSha256 H) salt iterations) n 1 0,
          blockIndex.toNat + 1 < 2 ^ 32) ∧
    ∀ (build : Build) (prk info : Bytes) (n : Nat), 32 ≤ prk.length → n ≤ 255 * 32 →
      (hkdfSha256Expand H build prk info n = .ok (rfc5869 (rfc2104 H.digest prk) info n) ∧
          (∀ s ∈ BlockFill.turns (hkdfStep build (.new prk : HmacSha256 H) info) n ([], 1) 0,
            s.2.toNat + 1 < 2 ^ 8) ↔ n ≤ 254 * 32) ∧
        hkdfSha256Expand H build prk info n =
          if build = .debug ∧ 254 * 32 < n then .error .overflow
          else .ok (rfc5869 (rfc2104 H.digest prk) info n) := by
  refine ⟨macParts_new, ?_, ?_⟩
  · intro build password salt iterations n h hn
    exact ⟨pbkdf2HmacSha256_eq build password salt h hn, pbkdf2_turns build password salt h hn⟩
  · intro build prk info n hprk hn
    refine ⟨⟨fun h => (hkdf_turns build prk info hn).mp h.2, fun hshort => ?_⟩, ?_⟩
    · exact ⟨hkdfSha256Expand_eq info hprk hn fun _ => hshort,
        (hkdf_turns build prk info hn).mpr hshort⟩
    · split_ifs with hlast
      · obtain ⟨rfl, hlast⟩ := hlast
        exact hkdfSha256Expand_overflow info hprk hn hlast
      · refine hkdfSha256Expand_eq info hprk hn fun hdebug => ?_
        exact Nat.not_lt.mp fun hlt => hlast ⟨hdebug, hlt⟩

end

/-- A toy hash: the first 32 bytes, padded with zeros. -/
def firstBytes : IncrementalHash 32 :=
  .ofDigest fun data => List.Vector.ofFn fun i => data.getD i.val 0

/-- Two blocks of PBKDF2, and the longest output for which HKDF-Expand is as it should be. -/
theorem kdf_follows_rfcs_firstBytes :
    pbkdf2HmacSha256 firstBytes .debug [1] [2] 3 33 =
        .ok (rfc8018 (rfc2104 firstBytes.digest [1]) [2] 3 33) ∧
      hkdfSha256Expand firstBytes .debug (List.replicate 32 7) [] 8128 =
        .ok (rfc5869 (rfc2104 firstBytes.digest (List.replicate 32 7)) [] 8128) :=
  ⟨((kdf_follows_rfcs firstBytes).2.1 .debug [1] [2] 3 33 (by decide) (by decide)).1,
    (((kdf_follows_rfcs firstBytes).2.2 .debug (List.replicate 32 7) [] 8128 (by decide)
      (by decide)).1.mpr (by decide)).1⟩

/-- The longest output the assertion admits needs 255 blocks, and the increment behind the last
one leaves the byte: a debug build aborts, and in a release build the counter wraps as well. -/
theorem hkdf_counter_overflows :
    (List.replicate 32 (7 : UInt8)).length ≥ 32 ∧ 8160 ≤ 255 * 32 ∧
      hkdfSha256Expand firstBytes .debug (List.replicate 32 7) [] 8160 = .error .overflow ∧
      ¬ ∀ s ∈ BlockFill.turns (hkdfStep .release (.new (List.replicate 32 7) :
        HmacSha256 firstBytes) []) 8160 ([], 1) 0, s.2.toNat + 1 < 2 ^ 8 := by
  refine ⟨by decide, by decide, ?_, ?_⟩
  · exact hkdfSha256Expand_overflow [] (by decide) (by decide) (by decide)
  · rw [hkdf_turns .release _ _ (by decide)]
    decide

/-! ## The derived keys

The key material of the two roles was defined with whole blocks and a truncation. It is what the
loops compute. -/

section

variable (hashes : Hashes)

theorem hmac_mac_eq (key data : Bytes) :
    (Hmac.new hashes.sha256 key).mac hashes.sha256 data = rfc2104 hashes.sha256 key data :=
  @mac_new (.ofDigest hashes.sha256) key data

/-- The blocks of the keys are the standard's. -/
theorem pbkdf2Blocks_eq (password salt : Bytes) {iterations : Nat} (h : 1 ≤ iterations) {i k : Nat}
    (hfit : i + k < 2 ^ 32) :
    pbkdf2Blocks hashes (Hmac.new hashes.sha256 password) salt iterations k (UInt32.ofNat i) =
      (List.range' i k).flatMap fun j =>
        (rfc8018Block (rfc2104 hashes.sha256 password) salt iterations j).toList := by
  induction k generalizing i with
  | zero => rfl
  | succ k ih =>
    have hindex := @u32ToBe_ofNat i (by omega)
    have hchain := iterate_chain (rfc2104 hashes.sha256 password) salt i (iterations - 1)
    rw [Nat.sub_add_cancel h] at hchain
    have hblock : Udp2raw.pbkdf2Block hashes (Hmac.new hashes.sha256 password) salt iterations
        (UInt32.ofNat i) = rfc8018Block (rfc2104 hashes.sha256 password) salt iterations i := by
      simp only [Udp2raw.pbkdf2Block, hmac_mac_eq, hindex]
      exact congrArg Prod.snd hchain
    have hrest := @ih (i + 1) (by omega)
    rw [UInt32.ofNat_add] at hrest
    rw [pbkdf2Blocks, hblock, List.range'_succ, List.flatMap_cons]
    exact congrArg _ hrest

theorem hkdfBlocks_eq (prk info : Bytes) (i k : Nat) :
    hkdfBlocks hashes (Hmac.new hashes.sha256 prk) info k
        (rfc5869Block (rfc2104 hashes.sha256 prk) info i) (UInt8.ofNat (i + 1)) =
      (List.range' (i + 1) k).flatMap (rfc5869Block (rfc2104 hashes.sha256 prk) info) := by
  induction k generalizing i with
  | zero => rfl
  | succ k ih =>
    have hrest := ih (i + 1)
    rw [UInt8.ofNat_add] at hrest
    rw [hkdfBlocks, hmac_mac_eq, List.range'_succ, List.flatMap_cons]
    exact congrArg _ hrest

/-- The derived keys are what the loops write, in either build. -/
theorem keys_from_loops (build : Build) (password salt info : Bytes) (prk : FixedBytes 32)
    {iterations : UInt32} (h : 1 ≤ iterations.toNat) {n : Nat} (hn : n ≤ 254 * 32) :
    pbkdf2HmacSha256 (.ofDigest hashes.sha256) build password salt iterations n =
        .ok (Udp2raw.pbkdf2HmacSha256 hashes password salt iterations.toNat n).toList ∧
      hkdfSha256Expand (.ofDigest hashes.sha256) build prk.toList info n =
        .ok (Udp2raw.hkdfSha256Expand hashes prk info n).toList := by
  constructor
  · rw [pbkdf2HmacSha256_eq build password salt h (by omega)]
    have hblocks := @pbkdf2Blocks_eq hashes password salt _ h 1 ((n + 31) / 32) (by omega)
    refine congrArg Except.ok ?_
    change _ = List.take n (pbkdf2Blocks hashes _ salt _ _ (UInt32.ofNat 1))
    rw [hblocks, take_flatMap_blocks]
    rfl
  · rw [hkdfSha256Expand_eq info (by simp) (by omega) fun _ => hn]
    have hblocks := hkdfBlocks_eq hashes prk.toList info 0 ((n + 31) / 32)
    exact congrArg (fun blocks => Except.ok (List.take n blocks)) hblocks.symm

end

/-- Three blocks of each, the last one cut off. -/
theorem keys_from_loops_three_blocks :
    pbkdf2HmacSha256 firstBytes .debug [1] [2] 3 80 =
        .ok (Udp2raw.pbkdf2HmacSha256 ⟨default, default, firstBytes.digest, default⟩ [1] [2] 3
          80).toList ∧
      hkdfSha256Expand firstBytes .debug (List.Vector.replicate 32 7).toList [5] 80 =
        .ok (Udp2raw.hkdfSha256Expand ⟨default, default, firstBytes.digest, default⟩
          (.replicate 32 7) [5] 80).toList :=
  keys_from_loops ⟨_, _, _, _⟩ .debug [1] [2] [5] (.replicate 32 7) (by decide) (by decide)

end Kdf

end Udp2raw
