import Udp2raw.Core.FixedArray
import Udp2raw.Crypto.Cipher

/-!
# Table-driven AES

`aes_table.rs`: the tables computed from the powers of 3, the key schedules of both
directions, and the block functions, which look up four table entries for each
column of a round. The four tables `te[k]` and `td[k]` are fields of their own.
-/

namespace Udp2raw.AesTable

open FixedArray Checked

/-- `xtime`. -/
def xtime (x : UInt8) : UInt8 := (x <<< 1) ^^^ if x &&& 0x80 != 0 then 0x1b else 0

/-- The loop of `gf_mul`. -/
def gfMulLoop (a b p : UInt8) : UInt8 :=
  if b = 0 then p
  else gfMulLoop (xtime a) (b >>> 1) (if b &&& 1 != 0 then p ^^^ a else p)
termination_by b.toNat
decreasing_by
  have hb : b.toNat ≠ 0 := fun h => ‹¬ b = 0› (UInt8.toNat_inj.mp h)
  have hshift : (b >>> 1).toNat = b.toNat / 2 := UInt8.toNat_shiftRight b 1
  omega

/-- `gf_mul`. -/
def gfMul (a b : UInt8) : UInt8 := gfMulLoop a b 0

/-- `u8::rotate_left(1)`. -/
def rotateLeft1 (x : UInt8) : UInt8 := (x <<< 1) ||| (x >>> 7)

/-- `u32::rotate_right`, for `0 < n < 32`. -/
def rotateRight (x n : UInt32) : UInt32 := (x >>> n) ||| (x <<< (32 - n))

/-- The variables of the first loop of `gen_tables`. -/
structure Powers where
  pow : Vector UInt8 256
  log : Vector UInt8 256
  x : UInt8

/-- The first loop of `gen_tables`, for the given number of rounds. -/
def powers (rounds : Nat) : Powers :=
  (List.range rounds).foldl (fun s i => {
      pow := write s.pow i s.x
      log := write s.log s.x.toNat (UInt8.ofNat i)
      x := s.x ^^^ xtime s.x })
    { pow := .replicate 256 0, log := .replicate 256 0, x := 1 }

/-- What the second loop of `gen_tables` computes for an index: the inverse and the affine map,
which adds four rotations. -/
def sboxEntry (i : Nat) : UInt8 :=
  let t := powers 255
  let inv := if i = 0 then 0 else read t.pow ((255 - (read t.log i).toNat) % 255)
  let sums := (List.range 4).foldl (fun sy _ =>
    let y := rotateLeft1 sy.2
    (sy.1 ^^^ y, y)) (inv, inv)
  sums.1 ^^^ 0x63

/-- The tables of the S-box and its inverse. -/
structure Boxes where
  sbox : Vector UInt8 256
  invSbox : Vector UInt8 256

/-- The second loop of `gen_tables`. -/
def boxes : Boxes :=
  (List.range 256).foldl (fun t i =>
      let s := sboxEntry i
      { sbox := write t.sbox i s, invSbox := write t.invSbox s.toNat (UInt8.ofNat i) })
    { sbox := .replicate 256 0, invSbox := .replicate 256 0 }

/-- Four tables of words. -/
structure Quad where
  t0 : Vector UInt32 256
  t1 : Vector UInt32 256
  t2 : Vector UInt32 256
  t3 : Vector UInt32 256

/-- An entry and its rotations. -/
def Quad.write (q : Quad) (i : Nat) (e : UInt32) : Quad where
  t0 := FixedArray.write q.t0 i e
  t1 := FixedArray.write q.t1 i (rotateRight e 8)
  t2 := FixedArray.write q.t2 i (rotateRight e 16)
  t3 := FixedArray.write q.t3 i (rotateRight e 24)

/-- `[[0u32; 256]; 4]`. -/
def Quad.zero : Quad := ⟨.replicate 256 0, .replicate 256 0, .replicate 256 0, .replicate 256 0⟩

/-- `Tables`. -/
structure Tables where
  sbox : Vector UInt8 256
  invSbox : Vector UInt8 256
  te : Quad
  td : Quad

/-- `t0` of `gen_tables`. -/
def teEntry (s : UInt8) : UInt32 :=
  let s2 := xtime s
  let s3 := s2 ^^^ s
  (s2.toUInt32 <<< 24) ||| (s.toUInt32 <<< 16) ||| (s.toUInt32 <<< 8) ||| s3.toUInt32

/-- `d0` of `gen_tables`. -/
def tdEntry (si : UInt8) : UInt32 :=
  ((gfMul si 0x0e).toUInt32 <<< 24) ||| ((gfMul si 0x09).toUInt32 <<< 16) |||
    ((gfMul si 0x0d).toUInt32 <<< 8) ||| (gfMul si 0x0b).toUInt32

/-- `gen_tables`. -/
def genTables : Tables :=
  let b := boxes
  let quads := (List.range 256).foldl (fun q i =>
    (q.1.write i (teEntry (read b.sbox i)), q.2.write i (tdEntry (read b.invSbox i))))
    (Quad.zero, Quad.zero)
  { sbox := b.sbox, invSbox := b.invSbox, te := quads.1, td := quads.2 }

/-- `RCON`. -/
def rcon : List UInt32 :=
  [0x01000000, 0x02000000, 0x04000000, 0x08000000, 0x10000000, 0x20000000, 0x40000000, 0x80000000,
    0x1b000000, 0x36000000]

/-- `(w >> 24) as usize`. -/
def byte3 (w : UInt32) : Nat := (w >>> 24).toNat

/-- `((w >> 16) & 0xff) as usize`. -/
def byte2 (w : UInt32) : Nat := ((w >>> 16) &&& 0xff).toNat

/-- `((w >> 8) & 0xff) as usize`. -/
def byte1 (w : UInt32) : Nat := ((w >>> 8) &&& 0xff).toNat

/-- `(w & 0xff) as usize`. -/
def byte0 (w : UInt32) : Nat := (w &&& 0xff).toNat

/-- Four entries of a byte table put into a word. -/
def gather (s : Vector UInt8 256) (i j k l : Nat) : UInt32 :=
  ((read s i).toUInt32 <<< 24) ^^^ ((read s j).toUInt32 <<< 16) ^^^ ((read s k).toUInt32 <<< 8) ^^^
    (read s l).toUInt32

/-- One entry of each of four tables, added up. -/
def Quad.mix (q : Quad) (i j k l : Nat) : UInt32 :=
  read q.t0 i ^^^ read q.t1 j ^^^ read q.t2 k ^^^ read q.t3 l

/-- `get_u32`. -/
def getU32 (b : Bytes) : Except Panic UInt32 := do
  let b0 ← readAt b 0
  let b1 ← readAt b 1
  let b2 ← readAt b 2
  let b3 ← readAt b 3
  return u32FromBe b0 b1 b2 b3

end Udp2raw.AesTable

namespace Udp2raw

open FixedArray Checked AesTable

/-- `AesTable`. -/
structure AesTable where
  ek : Vector UInt32 44
  dk : Vector UInt32 44

namespace AesTable

/-- The first loop of `AesTable::new`: the words of the key. -/
def loadKey (key : Bytes) : Except Panic (Vector UInt32 44) :=
  (List.range 4).foldlM (fun ek i => do
    let w ← getU32 (← sliceFrom key (i * 4))
    return write ek i w) (.replicate 44 0)

/-- A round of the second loop of `AesTable::new`. -/
def expandRound (s : Vector UInt8 256) (ek : Vector UInt32 44) (i : Nat) : Vector UInt32 44 :=
  let tmp := read ek (4 * i + 3)
  let sub := gather s (byte2 tmp) (byte1 tmp) (byte0 tmp) (byte3 tmp)
  let ek := write ek (4 * i + 4) (read ek (4 * i) ^^^ sub ^^^ rcon.getD i 0)
  let ek := write ek (4 * i + 5) (read ek (4 * i + 1) ^^^ read ek (4 * i + 4))
  let ek := write ek (4 * i + 6) (read ek (4 * i + 2) ^^^ read ek (4 * i + 5))
  write ek (4 * i + 7) (read ek (4 * i + 3) ^^^ read ek (4 * i + 6))

/-- The third loop of `AesTable::new`: the round keys in reverse. -/
def reverseKeys (ek : Vector UInt32 44) : Vector UInt32 44 :=
  (List.range 11).foldl (fun dk i =>
    (List.range 4).foldl (fun dk j => write dk (4 * i + j) (read ek (4 * (10 - i) + j))) dk)
    (.replicate 44 0)

/-- The last loop of `AesTable::new`, over the words 4 to 39. -/
def mixKeys (t : Tables) (dk : Vector UInt32 44) : Vector UInt32 44 :=
  (List.range 36).foldl (fun dk j =>
    let v := read dk (4 + j)
    write dk (4 + j) (t.td.mix (read t.sbox (byte3 v)).toNat (read t.sbox (byte2 v)).toNat
      (read t.sbox (byte1 v)).toNat (read t.sbox (byte0 v)).toNat)) dk

/-- `AesTable::new`. -/
def new (key : Bytes) : Except Panic AesTable := do
  let t := genTables
  let ek ← loadKey key
  let ek := (List.range 10).foldl (expandRound t.sbox) ek
  return { ek, dk := mixKeys t (reverseKeys ek) }

/-- The words of the state. -/
structure Columns where
  s0 : UInt32
  s1 : UInt32
  s2 : UInt32
  s3 : UInt32

scoped instance neZeroSixteen : NeZero 16 := ⟨Nat.succ_ne_zero 15⟩

/-- The words of a block. -/
def Columns.ofBlock (block : Block) : Columns where
  s0 := u32FromBe (block.get 0) (block.get 1) (block.get 2) (block.get 3)
  s1 := u32FromBe (block.get 4) (block.get 5) (block.get 6) (block.get 7)
  s2 := u32FromBe (block.get 8) (block.get 9) (block.get 10) (block.get 11)
  s3 := u32FromBe (block.get 12) (block.get 13) (block.get 14) (block.get 15)

/-- The block of four words. -/
def Columns.toBlock (c : Columns) : Block :=
  ⟨u32ToBe c.s0 ++ u32ToBe c.s1 ++ u32ToBe c.s2 ++ u32ToBe c.s3, by simp⟩

/-- Add four words of a schedule. -/
def Columns.addKey (c : Columns) (rk : Vector UInt32 44) (k : Nat) : Columns where
  s0 := c.s0 ^^^ read rk k
  s1 := c.s1 ^^^ read rk (k + 1)
  s2 := c.s2 ^^^ read rk (k + 2)
  s3 := c.s3 ^^^ read rk (k + 3)

/-- The indices of `encrypt_block`: each column takes its bytes from the columns to the right. -/
def Columns.forward (f : Nat → Nat → Nat → Nat → UInt32) (c : Columns) : Columns where
  s0 := f (byte3 c.s0) (byte2 c.s1) (byte1 c.s2) (byte0 c.s3)
  s1 := f (byte3 c.s1) (byte2 c.s2) (byte1 c.s3) (byte0 c.s0)
  s2 := f (byte3 c.s2) (byte2 c.s3) (byte1 c.s0) (byte0 c.s1)
  s3 := f (byte3 c.s3) (byte2 c.s0) (byte1 c.s1) (byte0 c.s2)

/-- The indices of `decrypt_block`: the bytes come from the columns to the left. -/
def Columns.backward (f : Nat → Nat → Nat → Nat → UInt32) (c : Columns) : Columns where
  s0 := f (byte3 c.s0) (byte2 c.s3) (byte1 c.s2) (byte0 c.s1)
  s1 := f (byte3 c.s1) (byte2 c.s0) (byte1 c.s3) (byte0 c.s2)
  s2 := f (byte3 c.s2) (byte2 c.s1) (byte1 c.s0) (byte0 c.s3)
  s3 := f (byte3 c.s3) (byte2 c.s2) (byte1 c.s1) (byte0 c.s0)

/-- The loop of `encrypt_block`, with `k = 4 + 4 * i` in round `i`. -/
def encryptRounds (t : Tables) (rk : Vector UInt32 44) (c : Columns) (rounds : Nat) : Columns :=
  (List.range rounds).foldl (fun c i => (c.forward t.te.mix).addKey rk (4 + 4 * i)) c

/-- `AesTable::encrypt_block`. -/
def encryptBlock (a : AesTable) (block : Block) : Block :=
  let t := genTables
  let c := encryptRounds t a.ek ((Columns.ofBlock block).addKey a.ek 0) 9
  ((c.forward (gather t.sbox)).addKey a.ek 40).toBlock

/-- The loop of `decrypt_block`, with `k = 4 + 4 * i` in round `i`. -/
def decryptRounds (t : Tables) (rk : Vector UInt32 44) (c : Columns) (rounds : Nat) : Columns :=
  (List.range rounds).foldl (fun c i => (c.backward t.td.mix).addKey rk (4 + 4 * i)) c

/-- `AesTable::decrypt_block`. -/
def decryptBlock (a : AesTable) (block : Block) : Block :=
  let t := genTables
  let c := decryptRounds t a.dk ((Columns.ofBlock block).addKey a.dk 0) 9
  ((c.backward (gather t.invSbox)).addKey a.dk 40).toBlock

end AesTable

end Udp2raw
