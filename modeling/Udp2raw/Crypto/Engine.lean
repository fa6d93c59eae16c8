import Udp2raw.Crypto.AesRefines
import Udp2raw.Crypto.Keys
import Udp2raw.Raw.Info

/-!
# Packet encryption

`Crypto` is the engine of one role: encrypt-then-MAC under HMAC, MAC-then-encrypt
under every other authentication mode, or an AEAD that ignores the authentication
mode. The main result is the round trip between the engines of the two roles, with
the exact set of refused plaintexts and the exact length of each ciphertext.
-/

namespace Udp2raw

open Checked (Panic)
open BlockModes (blockOf)

/-- XChaCha20-Poly1305 as its crate provides it: it encrypts every plaintext the engine gives
it, adds a 16-byte tag, and decrypts what it encrypted. -/
structure AeadCipher where
  encryptInPlace : FixedBytes 32 → FixedBytes 24 → Bytes → Option Bytes
  decryptInPlace : FixedBytes 32 → FixedBytes 24 → Bytes → Option Bytes
  correct : ∀ key nonce p, p.length ≤ maxDataLen → ∃ c,
    encryptInPlace key nonce p = some c ∧ c.length = p.length + 16 ∧
      decryptInPlace key nonce c = some p

/-- The cryptographic crates. -/
structure Primitives where
  hashes : Hashes
  aes : Aes
  aead : AeadCipher

/-- Functions that satisfy the assumptions: constant hashes, AES as FIPS 197 has it and a
constant tag. -/
instance : Inhabited Primitives where
  default :=
    { hashes :=
        { md5 := fun _ => List.Vector.replicate 16 0
          sha1 := fun _ => List.Vector.replicate 20 0
          sha256 := fun _ => List.Vector.replicate 32 0
          crc32 := fun _ => 0 }
      aes := AesTable.fipsAes
      aead :=
        { encryptInPlace := fun _ _ p => some (p ++ List.replicate 16 0)
          decryptInPlace := fun _ _ c => some (c.take (c.length - 16))
          correct := fun _ _ p _ => ⟨_, rfl, by simp, by simp⟩ } }

/-- `CipherMode`. -/
inductive CipherMode where
  | none
  | xor
  | aes128Cbc
  | aes128Cfb
  | chaCha20Poly1305
  deriving DecidableEq, Repr

/-- `CipherMode::is_aes`. -/
def CipherMode.isAes : CipherMode → Bool
  | .aes128Cbc | .aes128Cfb => true
  | _ => false

/-- `CipherMode::is_aead`. -/
def CipherMode.isAead : CipherMode → Bool
  | .chaCha20Poly1305 => true
  | _ => false

/-- `Aead`: the keys of the two directions. -/
structure Aead where
  enc : FixedBytes 32
  dec : FixedBytes 32
  deriving DecidableEq

namespace Aead

/-- `NONCE_LEN`. -/
def nonceLen : Nat := 24

/-- `OVERHEAD`. -/
def overhead : Nat := 40

/-- `Aead::new`. -/
def new (encKey decKey : FixedBytes 64) : Aead := ⟨encKey.take 32, decKey.take 32⟩

/-- `Aead::encrypt_with_nonce`. -/
def encryptWithNonce (aead : AeadCipher) (a : Aead) (buf : Bytes) (nonce : FixedBytes 24) :
    Option Bytes := do
  let sealed ← aead.encryptInPlace a.enc nonce buf
  return nonce.toList ++ sealed

/-- `Aead::decrypt_vec`. -/
def decryptVec (aead : AeadCipher) (a : Aead) (buf : Bytes) : Option Bytes :=
  if buf.length < overhead then none
  else aead.decryptInPlace a.dec (blockOf 24 buf) (buf.drop nonceLen)

end Aead

/-- `Crypto`: the engine of one role. -/
structure Crypto where
  cipherMode : CipherMode
  authMode : AuthMode
  cfbLegacy : Bool
  keys : Keys
  txXorKey : Block
  rxXorKey : Block
  txAes : Option AesKey
  rxAes : Option AesKey
  ecbEnc : Option AesKey
  ecbDec : Option AesKey
  txAuth : Authenticator
  rxAuth : Authenticator
  aead : Option Aead
  deriving DecidableEq

namespace Crypto

/-- `Crypto::with_backend`, given `cpu_has_aes()`. -/
def withBackend (hashes : Hashes) (cpuHasAes : Bool) (cipherMode : CipherMode)
    (authMode : AuthMode) (cfbLegacy : Bool) (keys : Keys) (backend : AesBackend) : Crypto :=
  let authMode := if cipherMode.isAead then .none else authMode
  let hmac := authMode = .hmacSha1
  let txKey : Block := if hmac then keys.cipherKeyEncrypt.take 16 else keys.normalKey
  let rxKey : Block := if hmac then keys.cipherKeyDecrypt.take 16 else keys.normalKey
  let schedule (key : Block) : Option AesKey :=
    if cipherMode.isAes then some (AesKey.withBackend cpuHasAes key backend) else none
  { cipherMode, authMode, cfbLegacy, keys
    txXorKey := txKey
    rxXorKey := rxKey
    txAes := schedule txKey
    rxAes := schedule rxKey
    ecbEnc := schedule (keys.cipherKeyEncrypt.take 16)
    ecbDec := schedule (keys.cipherKeyDecrypt.take 16)
    txAuth := Authenticator.new hashes authMode keys.hmacKeyEncrypt
    rxAuth := Authenticator.new hashes authMode keys.hmacKeyDecrypt
    aead := if cipherMode.isAead then some (Aead.new keys.cipherKeyEncrypt keys.cipherKeyDecrypt)
      else none }

/-- `Crypto::is_hmac_used`. -/
def isHmacUsed (c : Crypto) : Bool := c.authMode = .hmacSha1

variable (prim : Primitives)

/-- One pass of ECB over the first 16 bytes, in place. -/
def ecbFirst (key : Option AesKey) (f : AesKey → Block → Block) (block : Bytes) :
    Except Panic Bytes := do
  let b ← Checked.slice block 0 16
  let k ← Checked.unwrap key
  return (f k (blockOf 16 b)).toList ++ block.drop 16

/-- The first block of the CFB mode goes through ECB, except in the legacy variant. -/
def firstBlockEcb (c : Crypto) (key : Option AesKey) (f : AesKey → Block → Block) (buf : Bytes) :
    Except Panic Bytes :=
  if c.cfbLegacy then .ok buf else ecbFirst key f buf

/-- `Crypto::cipher_encrypt`. -/
def cipherEncrypt (c : Crypto) (buf : Bytes) : Except Panic (Option Bytes) :=
  match c.cipherMode with
  | .none | .chaCha20Poly1305 => .ok (some buf)
  | .xor => .ok (some (xorInPlace buf c.txXorKey))
  | .aes128Cbc => do
    let k ← Checked.unwrap c.txAes
    return some (k.cbcEncryptZeroIv prim.aes (pad16 buf))
  | .aes128Cfb =>
    if buf.length < 16 then .ok none
    else do
      let buf ← c.firstBlockEcb c.ecbEnc (AesKey.encryptBlock prim.aes) buf
      let k ← Checked.unwrap c.txAes
      return some (k.cfbEncryptZeroIv prim.aes buf)

/-- `Crypto::cipher_decrypt`. -/
def cipherDecrypt (c : Crypto) (buf : Bytes) : Except Panic (Option Bytes) :=
  match c.cipherMode with
  | .none | .chaCha20Poly1305 => .ok (some buf)
  | .xor => .ok (some (xorInPlace buf c.rxXorKey))
  | .aes128Cbc =>
    if buf.length % 16 ≠ 0 then .ok none
    else do
      let k ← Checked.unwrap c.rxAes
      return unpad16 (k.cbcDecryptZeroIv prim.aes buf)
  | .aes128Cfb =>
    if buf.length < 16 then .ok none
    else do
      let k ← Checked.unwrap c.rxAes
      let buf ← c.firstBlockEcb c.ecbDec (AesKey.decryptBlock prim.aes)
        (k.cfbDecryptZeroIv prim.aes buf)
      return some buf

/-- The HMAC order of `encrypt_vec`. -/
def encryptThenMac (c : Crypto) (buf : Bytes) : Except Panic (Option Bytes) := do
  match ← c.cipherEncrypt prim buf with
  | some buf => return some (← c.txAuth.appendTag prim.hashes buf)
  | none => return none

/-- The order of `encrypt_vec` under every other authentication mode. -/
def macThenEncrypt (c : Crypto) (buf : Bytes) : Except Panic (Option Bytes) := do
  c.cipherEncrypt prim (← c.txAuth.appendTag prim.hashes buf)

/-- `Crypto::encrypt_vec`, given the nonce an AEAD would draw. -/
def encryptVec (c : Crypto) (nonce : FixedBytes 24) (buf : Bytes) : Except Panic (Option Bytes) :=
  if buf.length > maxDataLen then .ok none
  else match c.aead with
    | some a => .ok (a.encryptWithNonce prim.aead buf nonce)
    | none => if c.isHmacUsed then c.encryptThenMac prim buf else c.macThenEncrypt prim buf

/-- `Authenticator::verify` followed by the truncation to the length it returns. -/
def verifyTruncate (c : Crypto) (buf : Bytes) : Except Panic (Option Bytes) := do
  match ← c.rxAuth.verify prim.hashes buf with
  | some bodyLen => return some (buf.take bodyLen)
  | none => return none

/-- The HMAC order of `decrypt_vec`. -/
def verifyThenDecrypt (c : Crypto) (buf : Bytes) : Except Panic (Option Bytes) := do
  match ← c.verifyTruncate prim buf with
  | some buf => c.cipherDecrypt prim buf
  | none => return none

/-- The order of `decrypt_vec` under every other authentication mode. -/
def decryptThenVerify (c : Crypto) (buf : Bytes) : Except Panic (Option Bytes) := do
  match ← c.cipherDecrypt prim buf with
  | some buf => c.verifyTruncate prim buf
  | none => return none

/-- `Crypto::decrypt_vec`. -/
def decryptVec (c : Crypto) (buf : Bytes) : Except Panic (Option Bytes) :=
  if buf.length > maxDataLen then .ok none
  else match c.aead with
    | some a => .ok (a.decryptVec prim.aead buf)
    | none => if c.isHmacUsed then c.verifyThenDecrypt prim buf else c.decryptThenVerify prim buf

end Crypto

/-! ## What a mode refuses and how long its packets are -/

/-- The length of what the cipher runs over: the plaintext under HMAC, the plaintext and its tag
otherwise. -/
def cipherInputLen (auth : AuthMode) (n : Nat) : Nat :=
  if auth = .hmacSha1 then n else n + auth.tagLen

/-- The plaintexts that are refused. -/
def Refused (mode : CipherMode) (auth : AuthMode) (n : Nat) : Prop :=
  n > maxDataLen ∨ mode = .aes128Cfb ∧ cipherInputLen auth n < 16

/-- `m` is the length of the packet that carries `n` plaintext bytes. -/
def WireLen (mode : CipherMode) (auth : AuthMode) (n m : Nat) : Prop :=
  match mode with
  | .none | .xor | .aes128Cfb => m = n + auth.tagLen
  | .aes128Cbc => ∃ k, IsLeast {k | 16 ∣ k ∧ cipherInputLen auth n < k} k ∧
      m = k + if auth = .hmacSha1 then 20 else 0
  | .chaCha20Poly1305 => m = n + 40

/-- The length of a cipher's output. -/
def cipherLen (mode : CipherMode) (n : Nat) : Nat :=
  if mode = .aes128Cbc then paddedLen n else n

/-- The AEAD undoes itself under mirrored keys. -/
theorem Aead.decryptVec_encryptWithNonce (aead : AeadCipher) (encKey decKey : FixedBytes 64)
    (nonce : FixedBytes 24) {p : Bytes} (hp : p.length ≤ maxDataLen) :
    ∃ c, (Aead.new encKey decKey).encryptWithNonce aead p nonce = some c ∧
      c.length = p.length + 40 ∧ (Aead.new decKey encKey).decryptVec aead c = some p := by
  obtain ⟨c, hc, hlen, hdec⟩ := aead.correct (encKey.take 32) nonce p hp
  have hn : (nonce.toList ++ c).length = p.length + 40 := by
    rw [List.length_append, nonce.toList_length, hlen]
    omega
  refine ⟨nonce.toList ++ c, ?_, hn, ?_⟩
  · simp only [encryptWithNonce, new, hc]
    rfl
  · have hdrop : (nonce.toList ++ c).drop nonceLen = c := List.drop_left' nonce.toList_length
    rw [decryptVec, hn, if_neg (by unfold overhead; omega), hdrop, BlockModes.blockOf_append]
    exact hdec

namespace Crypto

/-! ## The engines of the two roles

One derives its keys, the other their mirror image; each runs the implementation of AES that its
own machine selects. -/

section

variable (prim : Primitives) (cpu cpu' : Bool) (mode : CipherMode) (auth : AuthMode)
  (legacy : Bool) (keys : Keys) (backend backend' : AesBackend) (nonce : FixedBytes 24)

/-- The pass replaces the first block. -/
theorem ecbFirst_append (k : AesKey) (f : AesKey → Block → Block) (b : Block) (rest : Bytes) :
    ecbFirst (some k) f (b.toList ++ rest) = .ok ((f k b).toList ++ rest) := by
  have htake : ((b.toList ++ rest).take 16).drop 0 = b.toList := List.take_left' b.toList_length
  have hself : blockOf 16 b.toList = b := by
    simpa only [List.append_nil] using BlockModes.blockOf_append b []
  rw [ecbFirst, Checked.slice_eq_ok (Nat.zero_le _) (by simp), htake]
  change Except.ok ((f k (blockOf 16 b.toList)).toList ++ (b.toList ++ rest).drop 16) = _
  rw [hself, List.drop_left' b.toList_length]

variable {buf p : Bytes}

/-- The ECB pass over the first block is undone by the peer. -/
theorem firstBlockEcb_roundtrip {c c' : Crypto} (hlegacy : c.cfbLegacy = c'.cfbLegacy)
    {k k' : AesKey} (hk : k.key = k'.key) (h : 16 ≤ buf.length) :
    ∃ out, c.firstBlockEcb (some k) (AesKey.encryptBlock prim.aes) buf = .ok out ∧
      out.length = buf.length ∧
      c'.firstBlockEcb (some k') (AesKey.decryptBlock prim.aes) out = .ok buf := by
  unfold firstBlockEcb
  rw [← hlegacy]
  cases c.cfbLegacy with
  | true => exact ⟨buf, rfl, rfl, rfl⟩
  | false =>
    obtain ⟨b, rest, rfl⟩ : ∃ (b : Block) (rest : Bytes), buf = b.toList ++ rest :=
      ⟨blockOf 16 buf, buf.drop 16, by
        rw [BlockModes.toList_blockOf h, List.take_append_drop]⟩
    refine ⟨_, ecbFirst_append k _ b rest, by simp [List.Vector.toList_length], ?_⟩
    have hback := ecbFirst_append k' (AesKey.decryptBlock prim.aes) (k.encryptBlock prim.aes b) rest
    rwa [AesKey.decryptBlock_encryptBlock hk] at hback

/-- The sending engine. -/
abbrev sender : Crypto := withBackend prim.hashes cpu mode auth legacy keys backend

/-- The receiving engine of the other role. -/
abbrev receiver : Crypto := withBackend prim.hashes cpu' mode auth legacy keys.mirror backend'

/-- The receiver of one role's keys is the engine of the other role. -/
theorem receiver_derive (password : Bytes) (isClient : Bool) :
    receiver prim cpu' mode auth legacy (Keys.derive prim.hashes password isClient) backend' =
      withBackend prim.hashes cpu' mode auth legacy
        (Keys.derive prim.hashes password !isClient) backend' := by
  rw [receiver, Keys.derive_not]

/-- CFB refuses less than a block. -/
theorem cipherEncrypt_short (hmode : mode = .aes128Cfb) (h : buf.length < 16) :
    (sender prim cpu mode auth legacy keys backend).cipherEncrypt prim buf = .ok none := by
  subst hmode
  exact if_pos h

/-- The cipher layer: the peer's cipher undoes every mode, at the length the mode gives. -/
theorem cipherDecrypt_cipherEncrypt (h : ¬ (mode = .aes128Cfb ∧ buf.length < 16)) :
    ∃ out, (sender prim cpu mode auth legacy keys backend).cipherEncrypt prim buf =
        .ok (some out) ∧
      out.length = cipherLen mode buf.length ∧
      (receiver prim cpu' mode auth legacy keys backend').cipherDecrypt prim out =
        .ok (some buf) := by
  cases mode with
  | none => exact ⟨buf, rfl, rfl, rfl⟩
  | chaCha20Poly1305 => exact ⟨buf, rfl, rfl, rfl⟩
  | xor =>
    refine ⟨_, rfl, length_xorInPlace buf _, ?_⟩
    exact congrArg (fun b => Except.ok (some b)) (xorInPlace_xorInPlace buf _)
  | aes128Cbc =>
    refine ⟨_, rfl, (AesKey.length_cbcEncryptZeroIv _).trans (length_pad16 buf), ?_⟩
    obtain ⟨hdvd, -⟩ := (isLeast_paddedLen buf.length).1
    have hmod : paddedLen buf.length % 16 = 0 := Nat.mod_eq_zero_of_dvd hdvd
    rw [cipherDecrypt]
    simp only [withBackend, AesKey.length_cbcEncryptZeroIv, length_pad16, hmod]
    change Except.ok (unpad16 (AesKey.cbcDecryptZeroIv _ _ (AesKey.cbcEncryptZeroIv _ _ _))) = _
    rw [AesKey.cbcDecryptZeroIv_cbcEncryptZeroIv (by simp; rfl), unpad16_pad16]
  | aes128Cfb =>
    have hlen : 16 ≤ buf.length := by
      by_contra hlt
      exact h ⟨rfl, by omega⟩
    let tx := sender prim cpu .aes128Cfb auth legacy keys backend
    let rx := receiver prim cpu' .aes128Cfb auth legacy keys backend'
    let ecb := AesKey.withBackend cpu (keys.cipherKeyEncrypt.take 16) backend
    let ecb' := AesKey.withBackend cpu' (keys.mirror.cipherKeyDecrypt.take 16) backend'
    have hecb : ecb.key = ecb'.key := by
      rw [AesKey.key_withBackend, AesKey.key_withBackend]
      rfl
    obtain ⟨out, hout, houtLen, hback⟩ :=
      firstBlockEcb_roundtrip prim (show tx.cfbLegacy = rx.cfbLegacy from rfl) hecb hlen
    let key : Block := if auth = .hmacSha1 then keys.cipherKeyEncrypt.take 16 else keys.normalKey
    let k := AesKey.withBackend cpu key backend
    let k' := AesKey.withBackend cpu' key backend'
    have hk : k.key = k'.key := by rw [AesKey.key_withBackend, AesKey.key_withBackend]
    refine ⟨k.cfbEncryptZeroIv prim.aes out, ?_, by simp [cipherLen, houtLen], ?_⟩
    · change (if buf.length < 16 then _ else tx.firstBlockEcb (some ecb) _ buf >>= fun out =>
        Except.ok (some (k.cfbEncryptZeroIv prim.aes out))) = _
      rw [if_neg (by omega), hout]
      rfl
    · change (if (k.cfbEncryptZeroIv prim.aes out).length < 16 then _ else
        rx.firstBlockEcb (some ecb') _ (k'.cfbDecryptZeroIv prim.aes
          (k.cfbEncryptZeroIv prim.aes out)) >>= fun out => Except.ok (some out)) = _
      rw [AesKey.length_cfbEncryptZeroIv, if_neg (by omega),
        AesKey.cfbDecryptZeroIv_cfbEncryptZeroIv hk, hback]
      rfl

/-- Outside the AEAD the requested authentication mode is used. -/
theorem auth_of_not_aead (hmode : mode.isAead = false) :
    (if mode.isAead then AuthMode.none else auth) = auth := by
  rw [hmode]
  rfl

/-- Truncating to the verified length gives the tagged bytes back. -/
theorem verifyTruncate_appendTag (hmode : mode.isAead = false) (data : Bytes) :
    ∃ t, (sender prim cpu mode auth legacy keys backend).txAuth.appendTag prim.hashes data =
        .ok (data ++ t) ∧
      t.length = auth.tagLen ∧
      (receiver prim cpu' mode auth legacy keys backend').verifyTruncate prim (data ++ t) =
        .ok (some data) := by
  obtain ⟨t, happend, hlen, hverify⟩ :=
    @Authenticator.verify_appendTag prim.hashes auth keys.hmacKeyEncrypt data
  have hauth := auth_of_not_aead mode auth hmode
  refine ⟨t, ?_, hlen, ?_⟩
  · simp only [sender, withBackend, hauth, happend]
  · simp only [verifyTruncate, receiver, withBackend, hauth, Keys.mirror, hverify]
    change Except.ok (some ((data ++ t).take data.length)) = _
    rw [List.take_left]

theorem aead_eq_none (hmode : mode.isAead = false) :
    (withBackend prim.hashes cpu mode auth legacy keys backend).aead = none := by
  simp only [withBackend, hmode]
  rfl

theorem isHmacUsed_eq (hmode : mode.isAead = false) :
    (withBackend prim.hashes cpu mode auth legacy keys backend).isHmacUsed =
      decide (auth = .hmacSha1) := by
  simp only [isHmacUsed, withBackend, auth_of_not_aead mode auth hmode]

/-- Without AEAD a packet is encrypted then authenticated, or the reverse. -/
theorem encryptVec_eq (hmode : mode.isAead = false) (hp : p.length ≤ maxDataLen) :
    (sender prim cpu mode auth legacy keys backend).encryptVec prim nonce p =
      if auth = .hmacSha1 then (sender prim cpu mode auth legacy keys backend).encryptThenMac prim p
      else (sender prim cpu mode auth legacy keys backend).macThenEncrypt prim p := by
  rw [encryptVec, if_neg (by omega), aead_eq_none prim cpu mode auth legacy keys backend hmode,
    isHmacUsed_eq prim cpu mode auth legacy keys backend hmode]
  simp only [decide_eq_true_eq]

/-- The receiver goes the other way. -/
theorem decryptVec_eq (hmode : mode.isAead = false) {c : Bytes} (hc : c.length ≤ maxDataLen) :
    (receiver prim cpu' mode auth legacy keys backend').decryptVec prim c =
      if auth = .hmacSha1 then
        (receiver prim cpu' mode auth legacy keys backend').verifyThenDecrypt prim c
      else (receiver prim cpu' mode auth legacy keys backend').decryptThenVerify prim c := by
  rw [decryptVec, if_neg (by omega),
    aead_eq_none prim cpu' mode auth legacy keys.mirror backend' hmode,
    isHmacUsed_eq prim cpu' mode auth legacy keys.mirror backend' hmode]
  simp only [decide_eq_true_eq]

/-- A packet that is too long is not decrypted. -/
theorem decryptVec_long {c : Crypto} (h : ¬ buf.length ≤ maxDataLen) :
    c.decryptVec prim buf = .ok none := if_pos (by omega)

/-- Encrypt-then-MAC. -/
theorem roundtrip_hmac (hmode : mode.isAead = false) (hp : p.length ≤ maxDataLen)
    (h : ¬ (mode = .aes128Cfb ∧ p.length < 16)) :
    ∃ c, (sender prim cpu mode .hmacSha1 legacy keys backend).encryptVec prim nonce p =
        .ok (some c) ∧
      c.length = cipherLen mode p.length + 20 ∧
      (c.length ≤ maxDataLen →
        (receiver prim cpu' mode .hmacSha1 legacy keys backend').decryptVec prim c =
          .ok (some p)) := by
  obtain ⟨out, hout, houtLen, hdec⟩ := cipherDecrypt_cipherEncrypt prim cpu cpu' mode .hmacSha1
    legacy keys backend backend' h
  obtain ⟨t, ht, htLen, hverify⟩ := verifyTruncate_appendTag prim cpu cpu' mode .hmacSha1
    legacy keys backend backend' hmode out
  refine ⟨out ++ t, ?_, by rw [List.length_append, houtLen, htLen]; rfl, fun hc => ?_⟩
  · rw [encryptVec_eq prim cpu mode .hmacSha1 legacy keys backend nonce hmode hp, if_pos rfl,
      encryptThenMac, hout]
    change (Authenticator.appendTag _ _ out >>= fun buf => Except.ok (some buf)) = _
    rw [ht]
    rfl
  · rw [decryptVec_eq prim cpu' mode .hmacSha1 legacy keys backend' hmode hc, if_pos rfl,
      verifyThenDecrypt, hverify]
    exact hdec

/-- MAC-then-encrypt. -/
theorem roundtrip_tagged (hmode : mode.isAead = false) (hauth : auth ≠ .hmacSha1)
    (hp : p.length ≤ maxDataLen) (h : ¬ (mode = .aes128Cfb ∧ p.length + auth.tagLen < 16)) :
    ∃ c, (sender prim cpu mode auth legacy keys backend).encryptVec prim nonce p =
        .ok (some c) ∧
      c.length = cipherLen mode (p.length + auth.tagLen) ∧
      (c.length ≤ maxDataLen →
        (receiver prim cpu' mode auth legacy keys backend').decryptVec prim c =
          .ok (some p)) := by
  obtain ⟨t, ht, htLen, hverify⟩ := verifyTruncate_appendTag prim cpu cpu' mode auth
    legacy keys backend backend' hmode p
  have hlen : (p ++ t).length = p.length + auth.tagLen := by rw [List.length_append, htLen]
  obtain ⟨out, hout, houtLen, hdec⟩ := cipherDecrypt_cipherEncrypt prim cpu cpu' mode auth
    legacy keys backend backend' (hlen ▸ h)
  refine ⟨out, ?_, by rw [houtLen, hlen], fun hc => ?_⟩
  · rw [encryptVec_eq prim cpu mode auth legacy keys backend nonce hmode hp, if_neg hauth,
      macThenEncrypt, ht]
    exact hout
  · rw [decryptVec_eq prim cpu' mode auth legacy keys backend' hmode hc, if_neg hauth,
      decryptThenVerify, hdec]
    exact hverify

/-- A plaintext whose cipher input is shorter than the first block is refused in CFB mode. -/
theorem encryptVec_short (hp : p.length ≤ maxDataLen) (h : cipherInputLen auth p.length < 16) :
    (sender prim cpu .aes128Cfb auth legacy keys backend).encryptVec prim nonce p = .ok none := by
  rw [encryptVec_eq prim cpu .aes128Cfb auth legacy keys backend nonce rfl hp]
  by_cases hauth : auth = .hmacSha1
  · rw [cipherInputLen, if_pos hauth] at h
    rw [if_pos hauth, encryptThenMac,
      cipherEncrypt_short prim cpu .aes128Cfb auth legacy keys backend rfl h]
    rfl
  · rw [cipherInputLen, if_neg hauth] at h
    obtain ⟨t, ht, htLen, -⟩ := verifyTruncate_appendTag prim cpu cpu .aes128Cfb auth
      legacy keys backend backend rfl p
    rw [if_neg hauth, macThenEncrypt, ht]
    exact cipherEncrypt_short prim cpu .aes128Cfb auth legacy keys backend rfl
      (by rwa [List.length_append, htLen])

/-- The AEAD mode, whatever authentication mode was asked for. -/
theorem roundtrip_aead (hp : p.length ≤ maxDataLen) :
    ∃ c, (sender prim cpu .chaCha20Poly1305 auth legacy keys backend).encryptVec prim nonce p =
        .ok (some c) ∧
      c.length = p.length + 40 ∧
      (c.length ≤ maxDataLen →
        (receiver prim cpu' .chaCha20Poly1305 auth legacy keys backend').decryptVec prim c =
          .ok (some p)) := by
  obtain ⟨c, hc, hlen, hdec⟩ := Aead.decryptVec_encryptWithNonce prim.aead keys.cipherKeyEncrypt
    keys.cipherKeyDecrypt nonce hp
  refine ⟨c, ?_, hlen, fun hle => ?_⟩
  · rw [encryptVec, if_neg (by omega), ← hc]
    rfl
  · rw [decryptVec, if_neg (by omega), ← hdec]
    rfl

/-- The length of an encrypted packet from the length of the cipher's output. -/
theorem wireLen_of_cipherLen (hmode : mode.isAead = false) {n m : Nat}
    (hm : m = cipherLen mode (cipherInputLen auth n) + if auth = .hmacSha1 then 20 else 0) :
    WireLen mode auth n m := by
  have hplain : cipherInputLen auth n + (if auth = .hmacSha1 then 20 else 0) =
      n + auth.tagLen := by
    unfold cipherInputLen
    split
    · next hauth => rw [hauth]; rfl
    · rfl
  cases mode with
  | none => exact hm.trans hplain
  | xor => exact hm.trans hplain
  | aes128Cfb => exact hm.trans hplain
  | aes128Cbc => exact ⟨_, isLeast_paddedLen _, hm⟩
  | chaCha20Poly1305 => cases hmode

/-- What is not refused is encrypted at the mode's length, and the peer decrypts it unless the
packet has become too long. -/
theorem roundtrip (h : ¬ Refused mode auth p.length) :
    ∃ c, (sender prim cpu mode auth legacy keys backend).encryptVec prim nonce p =
        .ok (some c) ∧
      WireLen mode auth p.length c.length ∧
      (c.length ≤ maxDataLen →
        (receiver prim cpu' mode auth legacy keys backend').decryptVec prim c =
          .ok (some p)) := by
  obtain ⟨hp, hshort⟩ := not_or.mp h
  rw [not_lt] at hp
  cases hmode : mode.isAead with
  | true =>
    cases mode with
    | chaCha20Poly1305 =>
      exact roundtrip_aead prim cpu cpu' auth legacy keys backend backend' nonce hp
    | none | xor | aes128Cbc | aes128Cfb => cases hmode
  | false =>
    by_cases hauth : auth = .hmacSha1
    · subst hauth
      obtain ⟨c, henc, hlen, hdec⟩ :=
        roundtrip_hmac prim cpu cpu' mode legacy keys backend backend' nonce hmode hp hshort
      exact ⟨c, henc, wireLen_of_cipherLen mode _ hmode hlen, hdec⟩
    · have hinput : cipherInputLen auth p.length = p.length + auth.tagLen := if_neg hauth
      rw [hinput] at hshort
      obtain ⟨c, henc, hlen, hdec⟩ := roundtrip_tagged prim cpu cpu' mode auth legacy keys backend
        backend' nonce hmode hauth hp hshort
      refine ⟨c, henc, wireLen_of_cipherLen mode auth hmode ?_, hdec⟩
      rw [hlen, hinput, if_neg hauth, Nat.add_zero]

/-- A refused length is not sent. -/
theorem encryptVec_refused (h : Refused mode auth p.length) :
    (sender prim cpu mode auth legacy keys backend).encryptVec prim nonce p = .ok none := by
  by_cases hlong : p.length > maxDataLen
  · exact if_pos hlong
  · obtain ⟨rfl, hshort⟩ := h.resolve_left hlong
    exact encryptVec_short prim cpu auth legacy keys backend nonce (not_lt.mp hlong) hshort

end

end Crypto

/-- The round trip between the two roles of one password, for every mode, every plaintext and
any choice of AES implementation on either end: the refused plaintexts are exactly those of
`Refused`, every other one is encrypted at the length the mode states, and the peer returns it
unless the packet exceeds the largest payload. Nothing panics. -/
theorem encrypt_decrypt_roundtrip (prim : Primitives) (mode : CipherMode) (auth : AuthMode)
    (cfbLegacy : Bool) (password : Bytes) (isClient : Bool) (cpuHere cpuThere : Bool)
    (backendHere backendThere : AesBackend) (nonce : FixedBytes 24) (p : Bytes) :
    let tx := Crypto.withBackend prim.hashes cpuHere mode auth cfbLegacy
      (Keys.derive prim.hashes password isClient) backendHere
    let rx := Crypto.withBackend prim.hashes cpuThere mode auth cfbLegacy
      (Keys.derive prim.hashes password !isClient) backendThere
    (tx.encryptVec prim nonce p = .ok none ↔ Refused mode auth p.length) ∧
    (¬ Refused mode auth p.length → ∃ c, tx.encryptVec prim nonce p = .ok (some c) ∧
      WireLen mode auth p.length c.length ∧
      rx.decryptVec prim c = .ok (if c.length ≤ maxDataLen then some p else none)) := by
  intro tx rx
  let keys := Keys.derive prim.hashes password isClient
  have hround := fun h => Crypto.roundtrip prim cpuHere cpuThere mode auth cfbLegacy keys
    backendHere backendThere nonce (p := p) h
  refine ⟨⟨fun hnone => ?_, fun hrefused => ?_⟩, fun h => ?_⟩
  · by_contra h
    obtain ⟨c, hc, -⟩ := hround h
    cases hnone.symm.trans hc
  · exact Crypto.encryptVec_refused prim cpuHere mode auth cfbLegacy keys backendHere nonce hrefused
  · obtain ⟨c, henc, hlen, hdec⟩ := hround h
    rw [Crypto.receiver_derive] at hdec
    refine ⟨c, henc, hlen, ?_⟩
    split
    · next hle => exact hdec hle
    · next hlong => exact Crypto.decryptVec_long prim hlong

/-- Three bytes under the default modes: padded with their tag to 32 bytes, and returned by a
server that runs the other implementation of AES. -/
theorem encrypt_decrypt_roundtrip_three_bytes :
    ¬ Refused .aes128Cbc .md5 3 ∧ ∃ c,
      (Crypto.withBackend (default : Primitives).hashes true .aes128Cbc .md5 false
        (Keys.derive (default : Primitives).hashes [] true) .auto).encryptVec default
          (List.Vector.replicate 24 0) [1, 2, 3] = .ok (some c) ∧
      WireLen .aes128Cbc .md5 3 c.length ∧
      (Crypto.withBackend (default : Primitives).hashes false .aes128Cbc .md5 false
        (Keys.derive (default : Primitives).hashes [] false) .auto).decryptVec default c =
          .ok (if c.length ≤ maxDataLen then some [1, 2, 3] else none) := by
  have hfine : ¬ Refused .aes128Cbc .md5 3 := by simp [Refused, maxDataLen]
  exact ⟨hfine, (encrypt_decrypt_roundtrip default .aes128Cbc .md5 false [] true true false
    .auto .auto (List.Vector.replicate 24 0) [1, 2, 3]).2 hfine⟩

end Udp2raw
