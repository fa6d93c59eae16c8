import Udp2raw.Crypto.Cipher
import Udp2raw.Wire

/-!
# Authentication modes

A tag is appended after the data and checked in constant time on the other end.
The hash functions are arbitrary functions of the right width; HMAC and the
`simple` hash are the source's own code over them. A verifier with the same key
accepts exactly what was tagged.
-/

namespace Udp2raw

/-- The hash crates. -/
structure Hashes where
  md5 : Bytes → FixedBytes 16
  sha1 : Bytes → FixedBytes 20
  sha256 : Bytes → FixedBytes 32
  crc32 : Bytes → UInt32

/-- `AuthMode`. -/
inductive AuthMode where
  | none
  | md5
  | crc32
  | simple
  | hmacSha1
  deriving DecidableEq, Repr

/-- `AuthMode::tag_len`. -/
def AuthMode.tagLen : AuthMode → Nat
  | .none => 0
  | .md5 => 16
  | .crc32 => 4
  | .simple => 8
  | .hmacSha1 => 20

/-- One round of `simple_hash`: the djb2 variant and sdbm. -/
def simpleRound (h : UInt32 × UInt32) (b : UInt8) : UInt32 × UInt32 :=
  let c := b.toUInt32
  (((h.1 <<< 5) + h.1) ^^^ c, c + (h.2 <<< 6) + (h.2 <<< 16) - h.2)

/-- `simple_hash`. -/
def simpleHash (data : Bytes) : Bytes :=
  let h := data.foldl simpleRound (5381, 0)
  u32ToBe h.1 ++ u32ToBe h.2

/-- The 64-byte key block of an HMAC: a longer key is hashed first. -/
def hmacKeyBlock {n : Nat} (hash : Bytes → FixedBytes n) (key : Bytes) : Bytes :=
  let k := if key.length > 64 then (hash key).toList else key
  k ++ List.replicate (64 - k.length) 0

/-- What the two hash states of an HMAC have absorbed. -/
structure Hmac where
  inner : Bytes
  outer : Bytes
  deriving DecidableEq, Repr

/-- `HmacSha1::new` and `HmacSha256::new`. -/
def Hmac.new {n : Nat} (hash : Bytes → FixedBytes n) (key : Bytes) : Hmac :=
  let k := hmacKeyBlock hash key
  { inner := k.map (0x36 ^^^ ·), outer := k.map (0x5c ^^^ ·) }

/-- `HmacSha1::mac` and `HmacSha256::mac`. -/
def Hmac.mac {n : Nat} (hash : Bytes → FixedBytes n) (h : Hmac) (data : Bytes) : FixedBytes n :=
  hash (h.outer ++ (hash (h.inner ++ data)).toList)

/-- `util::ct_eq`. -/
def ctEq (a b : Bytes) : Bool :=
  if a.length ≠ b.length then false
  else (List.zipWith (· ^^^ ·) a b).foldl (· ||| ·) 0 == 0

theorem foldl_or_xor_self (acc : UInt8) (a : Bytes) :
    (List.zipWith (· ^^^ ·) a a).foldl (· ||| ·) acc = acc := by
  induction a generalizing acc with
  | nil => rfl
  | cons x a ih =>
    rw [List.zipWith_cons_cons, List.foldl_cons, UInt8.xor_self, UInt8.or_zero, ih]

theorem ctEq_self (a : Bytes) : ctEq a a = true := by
  rw [ctEq, if_neg (not_not.mpr rfl), foldl_or_xor_self]
  rfl

/-- `Authenticator`. -/
structure Authenticator where
  mode : AuthMode
  hmac : Option Hmac
  deriving DecidableEq, Repr

namespace Authenticator

variable (hashes : Hashes)

/-- `Authenticator::new`: only the first 20 bytes of the derived key are used. -/
def new (mode : AuthMode) (hmacKey : FixedBytes 64) : Authenticator :=
  { mode
    hmac := if mode = .hmacSha1 then some (Hmac.new hashes.sha1 (hmacKey.toList.take 20))
      else none }

/-- The tag of each mode, empty where there is none. -/
def tag (a : Authenticator) (data : Bytes) : Except Checked.Panic Bytes :=
  match a.mode with
  | .none => .ok []
  | .md5 => .ok (hashes.md5 data).toList
  | .crc32 => .ok (u32ToBe (hashes.crc32 data))
  | .simple => .ok (simpleHash data)
  | .hmacSha1 => do
    let hmac ← Checked.unwrap a.hmac
    return (hmac.mac hashes.sha1 data).toList

/-- `Authenticator::append_tag`. -/
def appendTag (a : Authenticator) (buf : Bytes) : Except Checked.Panic Bytes := do
  let t ← a.tag hashes buf
  return buf ++ t

/-- `Authenticator::verify`: the payload's length if the trailing tag is right. -/
def verify (a : Authenticator) (data : Bytes) : Except Checked.Panic (Option Nat) := do
  let tl := a.mode.tagLen
  if data.length < tl then return none
  let body := data.take (data.length - tl)
  let t ← a.tag hashes body
  -- without a tag nothing is compared
  if a.mode = .none ∨ ctEq t (data.drop (data.length - tl)) then return some body.length
  return none

variable {hashes}

/-- Every authenticator that was built computes a tag of its mode's length. -/
theorem tag_new (mode : AuthMode) (hmacKey : FixedBytes 64) (data : Bytes) :
    ∃ t, (new hashes mode hmacKey).tag hashes data = .ok t ∧ t.length = mode.tagLen := by
  cases mode with
  | none => exact ⟨_, rfl, rfl⟩
  | md5 => exact ⟨_, rfl, List.Vector.toList_length _⟩
  | crc32 => exact ⟨_, rfl, length_u32ToBe _⟩
  | simple => exact ⟨_, rfl, by simp [simpleHash, AuthMode.tagLen]⟩
  | hmacSha1 => exact ⟨_, rfl, List.Vector.toList_length _⟩

/-- The end that holds the same key accepts what was tagged. -/
theorem verify_appendTag (mode : AuthMode) (hmacKey : FixedBytes 64) (data : Bytes) :
    ∃ t, (new hashes mode hmacKey).appendTag hashes data = .ok (data ++ t) ∧
      t.length = mode.tagLen ∧
      (new hashes mode hmacKey).verify hashes (data ++ t) = .ok (some data.length) := by
  obtain ⟨t, ht, hlen⟩ := @tag_new hashes mode hmacKey data
  refine ⟨t, by rw [appendTag, ht]; rfl, hlen, ?_⟩
  have hmode : (new hashes mode hmacKey).mode = mode := rfl
  have hsub : (data ++ t).length - mode.tagLen = data.length := by
    rw [List.length_append, hlen, Nat.add_sub_cancel]
  simp only [verify, hmode, hsub, List.take_left, List.drop_left, ht]
  rw [if_neg (by rw [List.length_append]; omega)]
  change (if mode = .none ∨ ctEq t t = true then _ else _) = _
  rw [if_pos (.inr (ctEq_self t))]
  rfl

end Authenticator

end Udp2raw
