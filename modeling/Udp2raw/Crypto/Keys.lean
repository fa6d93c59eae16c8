import Udp2raw.Crypto.Auth

/-!
# Key derivation

Both roles derive the same material from the password; the keys of the two
directions change places between them.
-/

namespace Udp2raw

/-- The bytes of an ASCII literal. -/
def ascii (s : String) : Bytes := s.toList.map fun c => UInt8.ofNat c.toNat

section

variable (hashes : Hashes)

/-- One output block of PBKDF2: `iterations` chained MACs, added up. -/
def pbkdf2Block (prf : Hmac) (salt : Bytes) (iterations : Nat) (index : UInt32) : FixedBytes 32 :=
  let u := prf.mac hashes.sha256 (salt ++ u32ToBe index)
  let step := fun ut : FixedBytes 32 × FixedBytes 32 =>
    let u := prf.mac hashes.sha256 ut.1.toList
    (u, xorBytes ut.2 u)
  (Nat.iterate step (iterations - 1) (u, u)).2

/-- The output blocks of PBKDF2 from `index` on. -/
def pbkdf2Blocks (prf : Hmac) (salt : Bytes) (iterations : Nat) : Nat → UInt32 → Bytes
  | 0, _ => []
  | n + 1, index => (pbkdf2Block hashes prf salt iterations index).toList ++
      pbkdf2Blocks prf salt iterations n (index + 1)

/-- The output blocks of HKDF-Expand, each chained to the one before it. -/
def hkdfBlocks (prf : Hmac) (info : Bytes) : Nat → Bytes → UInt8 → Bytes
  | 0, _, _ => []
  | n + 1, prev, counter =>
    let t := (prf.mac hashes.sha256 (prev ++ info ++ [counter])).toList
    t ++ hkdfBlocks prf info n t (counter + 1)

/-- Every block has 32 bytes. -/
theorem length_pbkdf2Blocks (prf : Hmac) (salt : Bytes) (iterations n : Nat) (index : UInt32) :
    (pbkdf2Blocks hashes prf salt iterations n index).length = 32 * n := by
  induction n generalizing index with
  | zero => rfl
  | succ n ih =>
    rw [pbkdf2Blocks, List.length_append, ih, List.Vector.toList_length]
    omega

theorem length_hkdfBlocks (prf : Hmac) (info : Bytes) (n : Nat) (prev : Bytes) (counter : UInt8) :
    (hkdfBlocks hashes prf info n prev counter).length = 32 * n := by
  induction n generalizing prev counter with
  | zero => rfl
  | succ n ih =>
    rw [hkdfBlocks, List.length_append, ih, List.Vector.toList_length]
    omega

/-- `pbkdf2_hmac_sha256` filling `[u8; n]`. -/
def pbkdf2HmacSha256 (password salt : Bytes) (iterations n : Nat) : FixedBytes n :=
  let prf := Hmac.new hashes.sha256 password
  ⟨(pbkdf2Blocks hashes prf salt iterations ((n + 31) / 32) 1).take n, by
    rw [List.length_take, length_pbkdf2Blocks]
    omega⟩

/-- `hkdf_sha256_expand` filling `[u8; n]`. -/
def hkdfSha256Expand (prk : FixedBytes 32) (info : Bytes) (n : Nat) : FixedBytes n :=
  let prf := Hmac.new hashes.sha256 prk.toList
  ⟨(hkdfBlocks hashes prf info ((n + 31) / 32) [] 1).take n, by
    rw [List.length_take, length_hkdfBlocks]
    omega⟩

end

/-- `Keys`: all key material of one role. -/
structure Keys where
  normalKey : FixedBytes 16
  cipherKeyEncrypt : FixedBytes 64
  cipherKeyDecrypt : FixedBytes 64
  hmacKeyEncrypt : FixedBytes 64
  hmacKeyDecrypt : FixedBytes 64
  groXor : FixedBytes 256
  deriving DecidableEq

namespace Keys

/-- `Keys::derive`. -/
def derive (hashes : Hashes) (password : Bytes) (isClient : Bool) : Keys :=
  let prk := pbkdf2HmacSha256 hashes password (hashes.md5 (ascii "udp2raw_salt1")).toList 10000 32
  let (infoHmacEnc, infoHmacDec, infoCipherEnc, infoCipherDec) :=
    if isClient then
      (ascii "hmac_key client-->server", ascii "hmac_key server-->client",
        ascii "cipher_key client-->server", ascii "cipher_key server-->client")
    else
      (ascii "hmac_key server-->client", ascii "hmac_key client-->server",
        ascii "cipher_key server-->client", ascii "cipher_key client-->server")
  { normalKey := hashes.md5 (password ++ ascii "key1")
    cipherKeyEncrypt := hkdfSha256Expand hashes prk infoCipherEnc 64
    cipherKeyDecrypt := hkdfSha256Expand hashes prk infoCipherDec 64
    hmacKeyEncrypt := hkdfSha256Expand hashes prk infoHmacEnc 64
    hmacKeyDecrypt := hkdfSha256Expand hashes prk infoHmacDec 64
    groXor := hkdfSha256Expand hashes prk (ascii "gro") 256 }

/-- The other role's view of the same material. -/
def mirror (keys : Keys) : Keys :=
  { keys with
    cipherKeyEncrypt := keys.cipherKeyDecrypt
    cipherKeyDecrypt := keys.cipherKeyEncrypt
    hmacKeyEncrypt := keys.hmacKeyDecrypt
    hmacKeyDecrypt := keys.hmacKeyEncrypt }

/-- The two roles' keys mirror each other. -/
theorem derive_not (hashes : Hashes) (password : Bytes) (isClient : Bool) :
    derive hashes password (!isClient) = (derive hashes password isClient).mirror := by
  cases isClient <;> rfl

end Keys

end Udp2raw
