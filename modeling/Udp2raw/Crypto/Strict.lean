import Udp2raw.Crypto.Gro

/-!
# Decryption with every access checked

The receiving half of the engine and the splitter once more, written the way the
source indexes, slices, converts and subtracts: an access outside a buffer and a
subtraction below zero abort. Each function agrees with the one that leaves these
checks out.
-/

namespace Udp2raw

open Checked
open BlockModes

namespace Strict

/-- `a[i] = x` on a fixed array. -/
def arraySet {n : Nat} (a : FixedBytes n) (i : Nat) (x : UInt8) : Except Panic (FixedBytes n) :=
  if h : i < n then .ok (a.set ⟨i, h⟩ x) else .error (.index i n)

/-- `<[u8; n]>::try_from(s).unwrap()`. -/
def toArray (n : Nat) (s : Bytes) : Except Panic (FixedBytes n) :=
  if h : s.length = n then .ok ⟨s, h⟩ else .error .unwrap

/-- `xor_in_place` from index `i` on. -/
def xorFrom (key16 : Block) : Nat → Bytes → Except Panic Bytes
  | _, [] => .ok []
  | i, b :: rest => do
    let k ← readAt key16.toList (i &&& 15)
    return (b ^^^ k) :: (← xorFrom key16 (i + 1) rest)

/-- `xor_in_place`. -/
def xorInPlace (data : Bytes) (key16 : Block) : Except Panic Bytes := xorFrom key16 0 data

/-- The first `n` chunks of `chunks_exact(16)`, each converted to a block. -/
def chunksExact : Nat → Bytes → Except Panic (List Block)
  | 0, _ => .ok []
  | n + 1, data => do
    let chunk ← toArray 16 (← slice data 0 16)
    return chunk :: (← chunksExact n (← sliceFrom data 16))

/-- The chaining loop of the crate branch: `chunk[j] = blocks[i][j] ^ prev[j]`. -/
def addChain (blocks : List Block) : Nat → Block → List Block → Except Panic (List Block)
  | _, _, [] => .ok []
  | i, prev, ct :: rest => do
    let b ← readAt blocks i
    return xorBytes b prev :: (← addChain blocks (i + 1) ct rest)

/-- `unpad16`. -/
def unpad16 (buf : Bytes) : Except Panic (Option Bytes) := do
  if buf.isEmpty then return none
  let p := (← unwrap buf.getLast?).toNat
  if p > 16 ∨ p > buf.length then return none
  return some (buf.take (← sub buf.length p))

section

variable (aes : Aes)

/-- `cbc_decrypt_zero_iv`. -/
def cbcDecryptZeroIv (k : AesKey) (data : Bytes) : Except Panic Bytes := do
  let n := data.length / 16
  if n = 0 then return data
  let cs ← chunksExact n data
  let out ← match k.impl with
    | .crate => addChain (cs.map (k.decryptBlock aes)) 0 zeroBlock cs
    | .table => .ok (cbcDecrypt xorBytes (k.decryptBlock aes) zeroBlock cs)
  return join out ++ data.drop (16 * n)

/-- `cfb_decrypt_zero_iv` from a register and a position in it. -/
def cfbDecryptFrom (k : AesKey) : Block → Nat → Bytes → Except Panic Bytes
  | _, _, [] => .ok []
  | iv, off, c :: rest => do
    let iv := if off = 0 then k.encryptBlock aes iv else iv
    let x ← readAt iv.toList off
    let iv ← arraySet iv off c
    return (c ^^^ x) :: (← cfbDecryptFrom k iv ((off + 1) &&& 0x0f) rest)

/-- `cfb_decrypt_zero_iv`. -/
def cfbDecryptZeroIv (k : AesKey) (data : Bytes) : Except Panic Bytes :=
  cfbDecryptFrom aes k zeroBlock 0 data

end

/-- `Authenticator::verify`. -/
def verify (hashes : Hashes) (a : Authenticator) (data : Bytes) : Except Panic (Option Nat) := do
  let tl := a.mode.tagLen
  if data.length < tl then return none
  let body ← slice data 0 (← sub data.length tl)
  let tag ← sliceFrom data (← sub data.length tl)
  let t ← a.tag hashes body
  if a.mode = .none ∨ ctEq t tag then return some body.length
  return none

/-- `Aead::decrypt_vec`. -/
def aeadDecryptVec (aead : AeadCipher) (a : Aead) (buf : Bytes) : Except Panic (Option Bytes) := do
  if buf.length < Aead.overhead then return none
  let nonce ← toArray 24 (← slice buf 0 Aead.nonceLen)
  return aead.decryptInPlace a.dec nonce (← sliceFrom buf Aead.nonceLen)

variable (prim : Primitives)

/-- `Crypto::cipher_decrypt`. -/
def cipherDecrypt (c : Crypto) (buf : Bytes) : Except Panic (Option Bytes) :=
  match c.cipherMode with
  | .none | .chaCha20Poly1305 => .ok (some buf)
  | .xor => do return some (← xorInPlace buf c.rxXorKey)
  | .aes128Cbc =>
    if buf.length % 16 ≠ 0 then .ok none
    else do
      let k ← unwrap c.rxAes
      unpad16 (← cbcDecryptZeroIv prim.aes k buf)
  | .aes128Cfb =>
    if buf.length < 16 then .ok none
    else do
      let k ← unwrap c.rxAes
      let buf ← cfbDecryptZeroIv prim.aes k buf
      return some (← c.firstBlockEcb c.ecbDec (AesKey.decryptBlock prim.aes) buf)

/-- `Authenticator::verify` and the truncation to the length it returns. -/
def verifyTruncate (c : Crypto) (buf : Bytes) : Except Panic (Option Bytes) := do
  match ← verify prim.hashes c.rxAuth buf with
  | some bodyLen => return some (buf.take bodyLen)
  | none => return none

/-- `Crypto::decrypt_vec`. -/
def decryptVec (c : Crypto) (buf : Bytes) : Except Panic (Option Bytes) :=
  if buf.length > maxDataLen then .ok none
  else match c.aead with
    | some a => aeadDecryptVec prim.aead a buf
    | none =>
      if c.isHmacUsed then do
        match ← verifyTruncate prim c buf with
        | some buf => cipherDecrypt prim c buf
        | none => return none
      else do
        match ← cipherDecrypt prim c buf with
        | some buf => verifyTruncate prim c buf
        | none => return none

/-- The variables of the loop of `gro_unwrap`. -/
structure GroState where
  buf : Bytes
  pos : Nat
  remaining : Nat
  out : List (Nat × Nat)
  deriving DecidableEq, Repr

/-- One round of the loop of `gro_unwrap`, and whether the loop goes on. -/
def groRound (c : Crypto) (s : GroState) : Except Panic (GroState × Bool) := do
  let head ← slice s.buf s.pos (s.pos + 16)
  let head ← c.groDeobfuscateHead prim head
  let buf := s.buf.take s.pos ++ head ++ s.buf.drop (s.pos + 16)
  let singleLen := (← readU16At (← sliceFrom buf s.pos) 0).toNat
  let pos := s.pos + 2
  let remaining ← sub s.remaining 2
  if singleLen > remaining then return ({ s with buf, pos, remaining }, false)
  if singleLen > maxDataLen then return ({ s with buf, pos, remaining }, false)
  let left ← sub remaining singleLen
  return ({ buf, pos := pos + singleLen, remaining := left, out := s.out ++ [(pos, singleLen)] },
    true)

theorem sub_eq_ok_iff {a b n : Nat} : sub a b = .ok n ↔ b ≤ a ∧ n = a - b := by
  unfold sub
  split
  · next h => simp [Nat.not_le.mpr h]
  · next h => simp [Nat.not_lt.mp h, eq_comm]

/-- A round after which the loop goes on has used up bytes. -/
theorem groRound_remaining {c : Crypto} {s t : GroState} (h : groRound prim c s = .ok (t, true)) :
    t.remaining < s.remaining := by
  unfold groRound at h
  obtain ⟨head, -, h⟩ := bind_eq_ok.mp h
  obtain ⟨head', -, h⟩ := bind_eq_ok.mp h
  obtain ⟨tail, -, h⟩ := bind_eq_ok.mp h
  obtain ⟨len, -, h⟩ := bind_eq_ok.mp h
  obtain ⟨remaining, hr, h⟩ := bind_eq_ok.mp h
  split at h
  · cases h
  split at h
  · cases h
  obtain ⟨left, hl, h⟩ := bind_eq_ok.mp h
  cases h
  obtain ⟨hle, rfl⟩ := sub_eq_ok_iff.mp hr
  obtain ⟨hle', rfl⟩ := sub_eq_ok_iff.mp hl
  simp only
  omega

/-- The loop of `gro_unwrap`. -/
def groLoop (c : Crypto) (s : GroState) : Except Panic GroState :=
  if s.remaining < 16 then .ok s
  else match _hround : groRound prim c s with
    | .error e => .error e
    | .ok (t, false) => .ok t
    | .ok (t, true) => groLoop c t
termination_by s.remaining
decreasing_by exact groRound_remaining prim ‹_›

/-- `gro_unwrap` before its first round. -/
def GroState.start (buf : Bytes) : GroState := ⟨buf, 0, buf.length, []⟩

/-- `gro_unwrap`: the deobfuscated buffer and the packets in it. -/
def groUnwrap (c : Crypto) (buf : Bytes) : Except Panic (Bytes × List (Nat × Nat)) := do
  let s ← groLoop prim c (.start buf)
  return (s.buf, s.out)

/-- The packets of a split buffer that decrypt. -/
def decryptParts (c : Crypto) (buf : Bytes) : List (Nat × Nat) → Except Panic (List Bytes)
  | [] => .ok []
  | (off, len) :: parts => do
    let plain ← decryptVec prim c (← slice buf off (off + len))
    return plain.toList ++ (← decryptParts c buf parts)

/-- `decrypt_safer_gro`. -/
def decryptSaferGro (c : Crypto) (data : Bytes) : Except Panic (List Bytes) := do
  let (buf, parts) ← groUnwrap prim c data
  decryptParts prim c buf parts

/-- `decrypt_safer_vec`. -/
def decryptSaferVec (c : Crypto) (wire : Bytes) (fixGro : Bool) : Except Panic (List Bytes) :=
  if !fixGro then do return (← decryptVec prim c wire).toList
  else decryptSaferGro prim c wire

/-! ## The checks never fire -/

section

variable {prim}

/-- The first bytes of a buffer that has them convert to a block. -/
theorem toArray_take {n : Nat} {buf : Bytes} (h : n ≤ buf.length) :
    toArray n (buf.take n) = .ok (blockOf n buf) := by
  have hlen : (buf.take n).length = n := List.length_take_of_le h
  rw [toArray, dif_pos hlen]
  refine congrArg Except.ok (List.Vector.toList_injective ?_)
  rw [toList_blockOf h]
  rfl

theorem slice_zero_eq_ok {buf : Bytes} {n : Nat} (h : n ≤ buf.length) :
    slice buf 0 n = .ok (buf.take n) := slice_eq_ok (Nat.zero_le n) h

theorem readAt_toList {n : Nat} (a : FixedBytes n) {i : Nat} (h : i < n) :
    readAt a.toList i = .ok (a.get ⟨i, h⟩) := by
  rw [readAt_eq_ok (by rwa [a.toList_length])]
  rfl

/-- The loop of the XOR cipher indexes within the key. -/
theorem xorFrom_eq (key16 : Block) (i : Nat) (data : Bytes) :
    xorFrom key16 i data = .ok (data.mapIdx fun j b =>
      b ^^^ key16.get ⟨(i + j) &&& 15, Nat.and_lt_two_pow _ (by decide : 15 < 2 ^ 4)⟩) := by
  induction data generalizing i with
  | nil => rfl
  | cons b rest ih =>
    rw [xorFrom, readAt_toList key16 (Nat.and_lt_two_pow i (by decide : 15 < 2 ^ 4)), ok_bind, ih,
      ok_bind, List.mapIdx_cons]
    simp only [Nat.add_zero, Nat.add_assoc, Nat.add_comm 1]
    rfl

theorem xorInPlace_eq (data : Bytes) (key16 : Block) :
    xorInPlace data key16 = .ok (Udp2raw.xorInPlace data key16) := by
  rw [xorInPlace, xorFrom_eq]
  simp only [Nat.zero_add]
  rfl

/-- The blocks are cut within the data. -/
theorem chunksExact_eq {n : Nat} {data : Bytes} (h : 16 * n ≤ data.length) :
    chunksExact n data = .ok (chunks 16 n data) := by
  induction n generalizing data with
  | zero => rfl
  | succ n ih =>
    rw [chunksExact, slice_zero_eq_ok (by omega), ok_bind, toArray_take (by omega), ok_bind,
      sliceFrom_eq_ok (by omega), ok_bind, ih (by rw [List.length_drop]; omega)]
    rfl

/-- The decrypted blocks are read in step with the ciphertext blocks. -/
theorem addChain_eq (done todo : List Block) (prev : Block) (cs : List Block)
    (h : todo.length = cs.length) :
    addChain (done ++ todo) done.length prev cs =
      .ok (List.zipWith xorBytes todo (prev :: cs)) := by
  induction cs generalizing done todo prev with
  | nil =>
    rw [List.length_eq_zero_iff.mp h]
    rfl
  | cons ct cs ih =>
    obtain _ | ⟨b, todo⟩ := todo
    · cases h
    · have hread : readAt (done ++ b :: todo) done.length = .ok b := by
        rw [readAt_eq_ok_iff, List.getElem?_append_right le_rfl, Nat.sub_self]
        rfl
      have hrest := ih (done ++ [b]) todo ct (Nat.succ.inj h)
      rw [List.append_assoc, List.singleton_append, List.length_append, List.length_singleton]
        at hrest
      rw [addChain, hread, ok_bind, hrest]
      rfl

/-- CBC decryption indexes within its blocks. -/
theorem cbcDecryptZeroIv_eq (aes : Aes) (k : AesKey) (data : Bytes) :
    cbcDecryptZeroIv aes k data = .ok (k.cbcDecryptZeroIv aes data) := by
  rw [cbcDecryptZeroIv, AesKey.cbcDecryptZeroIv]
  by_cases hn : data.length / 16 = 0
  · rw [if_pos hn, if_pos hn]
    rfl
  · rw [if_neg hn, if_neg hn, chunksExact_eq (Nat.mul_div_le _ _), ok_bind]
    cases k.impl with
    | table => rfl
    | crate =>
      have hchain := addChain_eq [] ((chunks 16 (data.length / 16) data).map (k.decryptBlock aes))
        zeroBlock (chunks 16 (data.length / 16) data) (List.length_map _)
      rw [List.nil_append, List.length_nil] at hchain
      dsimp only
      rw [hchain]
      rfl

/-- The position in the register stays below 16. -/
theorem cfbDecryptFrom_eq (aes : Aes) (k : AesKey) (iv : Block) (off : Fin 16) (data : Bytes) :
    cfbDecryptFrom aes k iv off data =
      .ok (feedbackDecrypt (k.cfbNext aes) AesKey.cfbPut (· ^^^ ·) (iv, off) data) := by
  induction data generalizing iv off with
  | nil => rfl
  | cons c rest ih =>
    have hnext : (off.val + 1) &&& 0x0f = (off + 1).val := by
      rw [Nat.and_two_pow_sub_one_eq_mod _ 4, Fin.val_add]
      rfl
    have hzero : (off.val = 0) = (off = 0) := propext Fin.val_eq_zero_iff
    have hset : ∀ v : Block, arraySet v off.val c = .ok (v.set off c) := fun v => dif_pos off.isLt
    rw [cfbDecryptFrom, readAt_toList _ off.isLt, ok_bind, hset, ok_bind, hnext, ih, ok_bind]
    simp only [hzero]
    rfl

theorem cfbDecryptZeroIv_eq (aes : Aes) (k : AesKey) (data : Bytes) :
    cfbDecryptZeroIv aes k data = .ok (k.cfbDecryptZeroIv aes data) :=
  cfbDecryptFrom_eq aes k zeroBlock 0 data

/-- Removing the padding indexes within the data. -/
theorem unpad16_eq (buf : Bytes) : unpad16 buf = .ok (Udp2raw.unpad16 buf) := by
  unfold unpad16 Udp2raw.unpad16
  cases hlast : buf.getLast? with
  | none =>
    rw [List.getLast?_eq_none_iff.mp hlast]
    rfl
  | some last =>
    have hne : buf.isEmpty = false := by
      cases buf with
      | nil => cases hlast
      | cons b buf => rfl
    rw [hne]
    change (if last.toNat > 16 ∨ last.toNat > buf.length then _ else _) = _
    dsimp only
    split
    · rfl
    · next hle =>
      rw [sub_eq_ok (by omega)]
      rfl

/-- Verification slices within the data. -/
theorem verify_eq (hashes : Hashes) (a : Authenticator) (data : Bytes) :
    verify hashes a data = a.verify hashes data := by
  unfold verify Authenticator.verify
  dsimp only
  split
  · rfl
  · next h =>
    rw [sub_eq_ok (by omega), ok_bind, slice_zero_eq_ok (Nat.sub_le _ _), ok_bind, ok_bind,
      sliceFrom_eq_ok (Nat.sub_le _ _), ok_bind]

/-- AEAD decryption slices within the data. -/
theorem aeadDecryptVec_eq (aead : AeadCipher) (a : Aead) (buf : Bytes) :
    aeadDecryptVec aead a buf = .ok (a.decryptVec aead buf) := by
  unfold aeadDecryptVec Aead.decryptVec
  split
  · rfl
  · next h =>
    have h40 : 40 ≤ buf.length := Nat.not_lt.mp h
    have hle : Aead.nonceLen ≤ buf.length := by
      rw [Aead.nonceLen]
      omega
    rw [slice_zero_eq_ok hle, ok_bind, sliceFrom_eq_ok hle]
    change (toArray Aead.nonceLen (buf.take Aead.nonceLen) >>= _) = _
    rw [toArray_take hle]
    rfl

theorem cipherDecrypt_eq (c : Crypto) (buf : Bytes) :
    cipherDecrypt prim c buf = c.cipherDecrypt prim buf := by
  unfold cipherDecrypt Crypto.cipherDecrypt
  cases c.cipherMode with
  | none => rfl
  | chaCha20Poly1305 => rfl
  | xor =>
    dsimp only
    rw [xorInPlace_eq]
    rfl
  | aes128Cbc =>
    simp only [cbcDecryptZeroIv_eq, unpad16_eq, ok_bind]
    rfl
  | aes128Cfb =>
    simp only [cfbDecryptZeroIv_eq, ok_bind]

theorem verifyTruncate_eq (c : Crypto) (buf : Bytes) :
    verifyTruncate prim c buf = c.verifyTruncate prim buf :=
  congrArg₂ (· >>= ·) (verify_eq prim.hashes c.rxAuth buf) (funext fun r => by cases r <;> rfl)

/-- Decryption with every access checked is decryption. -/
theorem decryptVec_eq (c : Crypto) (buf : Bytes) :
    decryptVec prim c buf = c.decryptVec prim buf := by
  unfold decryptVec Crypto.decryptVec
  split
  · rfl
  · cases c.aead with
    | some a => exact aeadDecryptVec_eq prim.aead a buf
    | none =>
      dsimp only
      split
      · refine congrArg₂ (· >>= ·) (verifyTruncate_eq c buf) (funext fun r => ?_)
        cases r with
        | none => rfl
        | some body => exact cipherDecrypt_eq c body
      · refine congrArg₂ (· >>= ·) (cipherDecrypt_eq c buf) (funext fun r => ?_)
        cases r with
        | none => rfl
        | some plain => exact verifyTruncate_eq c plain

end

end Strict

end Udp2raw
