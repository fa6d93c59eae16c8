import Mathlib.Data.Fintype.Vector
import Mathlib.Data.Vector.Zip
import Udp2raw.Core.BlockModes
import Udp2raw.Packet.Checksum

/-!
# Cipher modes

The xor mode, the zero-IV chained AES modes and the padding of the CBC mode, over
an AES block function whose decryption undoes its encryption. A key schedule
belongs to one of two implementations of the block function; what one encrypts
the other decrypts, and both are one function.
-/

namespace Udp2raw

open BlockModes

/-- `[u8; n]`. -/
abbrev FixedBytes (n : Nat) := List.Vector UInt8 n

/-- `cipher::Block`. -/
abbrev Block := FixedBytes 16

/-- `a[i] ^= b[i]` at every index. -/
def xorBytes {n : Nat} (a b : FixedBytes n) : FixedBytes n := List.Vector.zipWith (· ^^^ ·) a b

theorem xor_xor_cancel (a b : UInt8) : a ^^^ b ^^^ b = a := by
  rw [UInt8.xor_assoc, UInt8.xor_self, UInt8.xor_zero]

theorem xorBytes_xorBytes {n : Nat} (a b : FixedBytes n) : xorBytes (xorBytes a b) b = a := by
  apply List.Vector.ext
  intro i
  simp only [xorBytes, List.Vector.zipWith_get, xor_xor_cancel]

/-- `[0u8; 16]`. -/
def zeroBlock : Block := List.Vector.replicate 16 0

/-- The two implementations of the AES block function. -/
inductive AesImpl where
  /-- The `aes` crate. -/
  | crate
  /-- `AesTable`. -/
  | table
  deriving DecidableEq, Repr

/-- AES-128: a block function of implementation and key. Decryption undoes encryption,
whichever implementations the two ends run. -/
structure Aes where
  encrypt : AesImpl → Block → Block → Block
  decrypt : AesImpl → Block → Block → Block
  decrypt_encrypt : ∀ i j key b, decrypt j key (encrypt i key b) = b

instance finite_uint8 : Finite UInt8 :=
  Finite.of_injective UInt8.toFin fun _ _ h => UInt8.toFin_inj.mp h

/-- Both implementations encrypt alike: each is undone by the same injective decryption. -/
theorem Aes.encrypt_congr (aes : Aes) (i j : AesImpl) (key b : Block) :
    aes.encrypt i key b = aes.encrypt j key b := by
  have hsurj : Function.Surjective (aes.decrypt i key) :=
    fun c => ⟨aes.encrypt i key c, aes.decrypt_encrypt i i key c⟩
  apply Finite.injective_iff_surjective.mpr hsurj
  rw [aes.decrypt_encrypt, aes.decrypt_encrypt]

/-- `AesBackend`. -/
inductive AesBackend where
  | auto
  | hardware
  | table
  | fixslice
  deriving DecidableEq, Repr

/-- `resolve_backend`, given `cpu_has_aes()`. -/
def resolveBackend (cpuHasAes : Bool) : AesBackend → AesBackend
  | .auto => if cpuHasAes then .hardware else .table
  | other => other

/-- `AesKey`: the schedule of a key in one of the implementations. -/
structure AesKey where
  impl : AesImpl
  key : Block
  deriving DecidableEq

namespace AesKey

/-- `AesKey::with_backend`. -/
def withBackend (cpuHasAes : Bool) (key : Block) (backend : AesBackend) : AesKey :=
  match resolveBackend cpuHasAes backend with
  | .table => ⟨.table, key⟩
  | _ => ⟨.crate, key⟩

@[simp] theorem key_withBackend (cpuHasAes : Bool) (key : Block) (backend : AesBackend) :
    (withBackend cpuHasAes key backend).key = key := by
  unfold withBackend
  split <;> rfl

variable (aes : Aes)

/-- `AesKey::encrypt_block`. -/
def encryptBlock (k : AesKey) (block : Block) : Block := aes.encrypt k.impl k.key block

/-- `AesKey::decrypt_block`. -/
def decryptBlock (k : AesKey) (block : Block) : Block := aes.decrypt k.impl k.key block

/-- `cbc_encrypt_zero_iv`. -/
def cbcEncryptZeroIv (k : AesKey) (data : Bytes) : Bytes :=
  mapChunks (cbcEncrypt xorBytes (k.encryptBlock aes) zeroBlock) data

/-- `cbc_decrypt_zero_iv`. -/
def cbcDecryptZeroIv (k : AesKey) (data : Bytes) : Bytes :=
  if data.length / 16 = 0 then data
  else match k.impl with
    -- all blocks are decrypted first, then each is added to the ciphertext before it
    | .crate => mapChunks (fun cs =>
      List.zipWith xorBytes (cs.map (k.decryptBlock aes)) (zeroBlock :: cs)) data
    | .table => mapChunks (cbcDecrypt xorBytes (k.decryptBlock aes) zeroBlock) data

/-- The register of CFB-128 and the position in it. -/
abbrev CfbState := Block × Fin 16

/-- The key byte for the next data byte; the register is encrypted at each block's start. -/
def cfbNext (k : AesKey) (s : CfbState) : CfbState × UInt8 :=
  let iv := if s.2 = 0 then k.encryptBlock aes s.1 else s.1
  ((iv, s.2), iv.get s.2)

/-- `iv[off] = c; off = (off + 1) & 0x0f`. -/
def cfbPut (s : CfbState) (c : UInt8) : CfbState := (s.1.set s.2 c, s.2 + 1)

/-- `cfb_encrypt_zero_iv`. -/
def cfbEncryptZeroIv (k : AesKey) (data : Bytes) : Bytes :=
  feedbackEncrypt (k.cfbNext aes) cfbPut (· ^^^ ·) (zeroBlock, 0) data

/-- `cfb_decrypt_zero_iv`. -/
def cfbDecryptZeroIv (k : AesKey) (data : Bytes) : Bytes :=
  feedbackDecrypt (k.cfbNext aes) cfbPut (· ^^^ ·) (zeroBlock, 0) data

variable {aes} {k k' : AesKey}

/-- A block is decrypted under the same key. -/
theorem decryptBlock_encryptBlock (h : k.key = k'.key) (b : Block) :
    k'.decryptBlock aes (k.encryptBlock aes b) = b := by
  rw [decryptBlock, encryptBlock, h, aes.decrypt_encrypt]

theorem encryptBlock_congr (h : k.key = k'.key) : k.encryptBlock aes = k'.encryptBlock aes := by
  funext b
  rw [encryptBlock, encryptBlock, h, aes.encrypt_congr k.impl k'.impl]

@[simp] theorem length_cbcEncryptZeroIv (data : Bytes) :
    (k.cbcEncryptZeroIv aes data).length = data.length :=
  length_mapChunks (fun bs => length_cbcEncrypt zeroBlock bs) data

@[simp] theorem length_cfbEncryptZeroIv (data : Bytes) :
    (k.cfbEncryptZeroIv aes data).length = data.length := length_feedbackEncrypt _ data

@[simp] theorem length_cfbDecryptZeroIv (data : Bytes) :
    (k.cfbDecryptZeroIv aes data).length = data.length := length_feedbackDecrypt _ data

/-- Both decryption loops are CBC decryption. -/
theorem cbcDecryptZeroIv_eq (data : Bytes) :
    k.cbcDecryptZeroIv aes data =
      mapChunks (cbcDecrypt xorBytes (k.decryptBlock aes) zeroBlock) data := by
  unfold cbcDecryptZeroIv
  split
  · next hn => simp [mapChunks, hn, chunks, cbcDecrypt, join]
  · cases k.impl with
    | crate => simp only [zipWith_decrypt]
    | table => rfl

/-- CBC is decrypted under the same key. -/
theorem cbcDecryptZeroIv_cbcEncryptZeroIv (h : k.key = k'.key) (data : Bytes) :
    k'.cbcDecryptZeroIv aes (k.cbcEncryptZeroIv aes data) = data := by
  rw [cbcDecryptZeroIv_eq]
  exact mapChunks_mapChunks (fun bs => length_cbcEncrypt zeroBlock bs)
    (fun bs => cbcDecrypt_cbcEncrypt xorBytes_xorBytes (decryptBlock_encryptBlock h) zeroBlock bs)
    data

/-- CFB is decrypted under the same key. -/
theorem cfbDecryptZeroIv_cfbEncryptZeroIv (h : k.key = k'.key) (data : Bytes) :
    k'.cfbDecryptZeroIv aes (k.cfbEncryptZeroIv aes data) = data := by
  have hnext : k'.cfbNext aes = k.cfbNext aes := by
    funext s
    simp only [cfbNext, encryptBlock_congr h]
  rw [cfbDecryptZeroIv, hnext]
  exact feedbackDecrypt_feedbackEncrypt xor_xor_cancel _ data

end AesKey

/-- The length `pad16` brings a buffer to. -/
def paddedLen (old : Nat) : Nat :=
  if (old + 1) % 16 ≠ 0 then (old + 1) / 16 * 16 + 16 else old + 1

/-- `pad16`: zero bytes up to a multiple of 16, the last byte counting what was added. -/
def pad16 (buf : Bytes) : Bytes :=
  (buf ++ List.replicate (paddedLen buf.length - buf.length) 0).set (paddedLen buf.length - 1)
    (UInt8.ofNat (paddedLen buf.length - buf.length))

/-- `unpad16`. -/
def unpad16 (buf : Bytes) : Option Bytes :=
  match buf.getLast? with
  | none => none
  | some last =>
    let p := last.toNat
    if p > 16 ∨ p > buf.length then none else some (buf.take (buf.length - p))

/-- `xor_in_place`. -/
def xorInPlace (data : Bytes) (key16 : Block) : Bytes :=
  data.mapIdx fun i b => b ^^^ key16.get ⟨i &&& 15, Nat.and_lt_two_pow i (by decide : 15 < 2 ^ 4)⟩

/-- Padding adds at least one byte and at most a block. -/
theorem paddedLen_bounds (n : Nat) : n < paddedLen n ∧ paddedLen n ≤ n + 16 := by
  unfold paddedLen
  split <;> omega

/-- Padding goes to the next multiple of the block length. -/
theorem isLeast_paddedLen (n : Nat) : IsLeast {m | 16 ∣ m ∧ n < m} (paddedLen n) := by
  refine ⟨⟨?_, (paddedLen_bounds n).1⟩, ?_⟩
  · unfold paddedLen
    split <;> omega
  · rintro m ⟨hdvd, hlt⟩
    unfold paddedLen
    split <;> omega

theorem length_pad16 (buf : Bytes) : (pad16 buf).length = paddedLen buf.length := by
  have := paddedLen_bounds buf.length
  simp only [pad16, List.length_set, List.length_append, List.length_replicate]
  omega

/-- The padding of a buffer: zeros, then their number plus one. -/
theorem pad16_eq (buf : Bytes) : ∃ k, k < 16 ∧
    pad16 buf = buf ++ List.replicate k 0 ++ [UInt8.ofNat (k + 1)] := by
  obtain ⟨hlt, hle⟩ := paddedLen_bounds buf.length
  obtain ⟨k, hk⟩ : ∃ k, paddedLen buf.length - buf.length = k + 1 :=
    ⟨paddedLen buf.length - buf.length - 1, by omega⟩
  have hlast : paddedLen buf.length - 1 = (buf ++ List.replicate k (0 : UInt8)).length := by
    rw [List.length_append, List.length_replicate]
    omega
  refine ⟨k, by omega, ?_⟩
  rw [pad16, hk, hlast, List.replicate_succ', ← List.append_assoc, List.set_append_right _ _ le_rfl,
    Nat.sub_self]
  rfl

/-- Padding is undone. -/
theorem unpad16_pad16 (buf : Bytes) : unpad16 (pad16 buf) = some buf := by
  obtain ⟨k, hk, heq⟩ := pad16_eq buf
  have hp : (UInt8.ofNat (k + 1)).toNat = k + 1 := by
    rw [UInt8.toNat_ofNat']
    omega
  have hlen :
      (buf ++ List.replicate k 0 ++ [UInt8.ofNat (k + 1)]).length = buf.length + (k + 1) := by
    simp only [List.length_append, List.length_replicate, List.length_singleton]
    omega
  simp only [unpad16, heq, List.getLast?_append, List.getLast?_singleton, Option.some_or, hp, hlen]
  rw [if_neg (by omega), Nat.add_sub_cancel, List.append_assoc, List.take_left]

@[simp] theorem length_xorInPlace (data : Bytes) (key16 : Block) :
    (xorInPlace data key16).length = data.length := List.length_mapIdx

theorem xorInPlace_xorInPlace (data : Bytes) (key16 : Block) :
    xorInPlace (xorInPlace data key16) key16 = data := by
  apply List.ext_getElem (by simp)
  intro i h₁ h₂
  simp only [xorInPlace, List.getElem_mapIdx, xor_xor_cancel]

end Udp2raw
